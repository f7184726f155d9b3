import Downlevel.Proofs.Tree.Runs
import Downlevel.Proofs.Tree.Tightness
import Downlevel.Tree.Build
import Downlevel.Tree.View
/-!
# Proofs.Tree.Shapes — code that was not written by hand needs no parentheses

A tree is tight if every operand in it binds as its place asks for (`Node.Tight`).  Each form of the target language is
tight if its parts are, and it says how tightly they have to bind: an assigned value or an argument has no comma, and
the object of an access is no operator.
-/
namespace Downlevel

/-- Every operand in the tree binds as tightly as its place asks for, and the whole at least so tightly. -/
structure Node.Tight (least : Nat) (n : Node) : Prop where
  bound : n.Every Node.Bound
  tight : least ≤ n.tightness

def Slot.Tight (least : Nat) (s : Slot) : Prop := ∀ m ∈ s.nodes, m.Tight least

section Tight

variable {n : Node} {s : Slot} {t : Token} {ns : List Node} {ts : List Token} {least l : Nat} {id : ObjectId}
  {kind : NodeKind} {slots : List Slot} {leasts : List Nat}

theorem Node.Tight.weaken (h : n.Tight least) (hl : l ≤ least) : n.Tight l := ⟨h.bound, Nat.le_trans hl h.tight⟩

theorem Node.Tight.loose (h : n.Tight least) : n.Tight 0 := h.weaken (Nat.zero_le _)

theorem Node.Tight.slot (h : n.Tight least) : (Slot.node n).Tight least := fun _ hm => List.mem_singleton.1 hm ▸ h

theorem Slot.tight_absent : Slot.absent.Tight 0 := fun _ hm => by cases hm

theorem Slot.tight_token : (Slot.token t).Tight 0 := fun _ hm => by cases hm

theorem Slot.tight_ofToken? {o : Option Token} : (Slot.ofToken? o).Tight 0 := by
  cases o
  · exact tight_absent
  · exact tight_token

theorem Slot.tight_ofNode? {o : Option Node} (h : ∀ m ∈ o, m.Tight least) : (Slot.ofNode? o).Tight least := by
  cases o with
  | none => exact fun _ hm => by cases hm
  | some m => exact (h m rfl).slot

theorem Slot.tight_list (h : ∀ m ∈ ns, m.Tight least) : (Slot.list ns).Tight least := h

theorem Slot.tight_separated (h : ∀ m ∈ ns, m.Tight least) : (Slot.separated ns ts).Tight least := h

/-- **A node of slots that are as tight as its kind asks for** is tight. -/
theorem Node.tight_mk (h : List.Forall₂ Slot.Tight leasts slots) (hkind : kind.isTight leasts least = true) :
    (Node.mk id kind slots).Tight least := by
  obtain ⟨hb, hmet, hl⟩ := NodeKind.isTight_iff.1 hkind
  have htightness : (Node.mk id kind slots).tightness = kind.tightness := tightness_of_kind rfl hb
  rw [← htightness] at hl
  refine ⟨Node.every_mk.2 ⟨Node.bound_mk (h.imp (fun _ _ hs m hm => (hs m hm).tight)) hb hmet, fun s hs m hm => ?_⟩, hl⟩
  obtain ⟨index, hlt, rfl⟩ := List.getElem_of_mem hs
  exact (h.get (h.length_eq ▸ hlt) hlt m hm).bound

/-- **A binary expression of operands that bind as the operator asks for** is tight. -/
theorem Node.tight_binary {left right : Node} (hl : left.Tight t.kind.leftDemand) (hr : right.Tight t.kind.rightDemand) :
    (Node.mk id .binaryExpression [.node left, .token t, .node right]).Tight t.kind.tightness := by
  refine ⟨Node.every_mk.2 ⟨fun index m hm => ?_, fun s hs m hm => ?_⟩, Nat.le_refl _⟩
  · match index, hm with
    | 0, hm =>
      rw [List.mem_singleton.1 (show m ∈ [left] from hm)]
      exact hl.tight
    | 2, hm =>
      rw [List.mem_singleton.1 (show m ∈ [right] from hm)]
      exact hr.tight
  · simp only [List.mem_cons, List.not_mem_nil, or_false] at hs
    rcases hs with rfl | rfl | rfl
    · rw [List.mem_singleton.1 hm]
      exact hl.bound
    · cases hm
    · rw [List.mem_singleton.1 hm]
      exact hr.bound

end Tight

/-! ## What is made -/

/-- **A node is made of slots that are as tight as its kind asks for.** -/
theorem tight_fresh {kind : NodeKind} {slots : List Slot} {leasts : List Nat} {least : Nat}
    (h : List.Forall₂ Slot.Tight leasts slots) (hkind : kind.isTight leasts least = true) :
    (Node.fresh kind slots).Gives (Node.Tight least) := fun _ => Node.tight_mk h hkind

theorem tight_toNode {α : Type} [NodeView α] {v : α} {leasts : List Nat} {least : Nat}
    (h : List.Forall₂ Slot.Tight leasts (NodeView.toSlots v)) (hkind : (NodeView.kind α).isTight leasts least = true) :
    (NodeView.toNode v).Gives (Node.Tight least) := tight_fresh h hkind

namespace Build

variable {n m : Node} {ns : List Node} {t : Token} {least l : Nat}

/-! ## Expressions -/

theorem tight_nameExpression : (nameExpression t).Gives (Node.Tight tightest) := tight_fresh (.cons Slot.tight_token .nil) rfl

theorem tight_name (text : List Char) : (name text).Gives (Node.Tight tightest) :=
  .andThen (fun _ => tight_nameExpression)

theorem tight_thisExpression : thisExpression.Gives (Node.Tight tightest) :=
  .andThen (fun _ => tight_fresh (.cons Slot.tight_token .nil) rfl)

theorem tight_literal : (literal t).Gives (Node.Tight tightest) := tight_fresh (.cons Slot.tight_token .nil) rfl

theorem tight_stringLiteral (value : List Char) : (stringLiteral value).Gives (Node.Tight tightest) :=
  .andThen (fun _ => tight_literal)

theorem tight_numericLiteral (text : List Char) : (numericLiteral text).Gives (Node.Tight tightest) :=
  .andThen (fun _ => tight_literal)

theorem tight_keywordLiteral (kind : TokenKind) : (keywordLiteral kind).Gives (Node.Tight tightest) :=
  .andThen (fun _ => tight_literal)

theorem tight_memberAccess (h : n.Tight tightest) : (memberAccess n t).Gives (Node.Tight tightest) :=
  .andThen (fun _ => .andThen (fun _ => tight_fresh (.cons h.slot <| .cons Slot.tight_token <| .cons Slot.tight_token .nil) rfl))

theorem tight_memberPath : ∀ (names : List (List Char)) {n : Node}, n.Tight tightest →
    (memberPath n names).Gives (Node.Tight tightest)
  | [], _, h => .pure h
  | _ :: names, _, h => .andThen (fun _ => (tight_memberAccess h).bind (fun _ hm => tight_memberPath names hm))

theorem tight_elementAccess (h : n.Tight tightest) (hm : m.Tight least) :
    (elementAccess n m).Gives (Node.Tight tightest) :=
  .andThen (fun _ => .andThen (fun _ => tight_fresh (.cons h.slot <| .cons Slot.tight_token <| .cons hm.loose.slot <|
    .cons Slot.tight_token .nil) rfl))

theorem tight_commaSeparated (h : ∀ m ∈ ns, m.Tight least) : (commaSeparated ns).Gives (Slot.Tight least) :=
  .andThen (fun _ => .pure (Slot.tight_separated h))

theorem tight_argumentList (h : ∀ m ∈ ns, m.Tight 1) : (argumentList ns).Gives (Node.Tight tightest) :=
  .andThen (fun _ => (tight_commaSeparated h).bind (fun _ hs => .andThen (fun _ =>
    tight_fresh (.cons Slot.tight_token <| .cons hs <| .cons Slot.tight_token .nil) rfl)))

theorem tight_invocation (h : n.Tight tightest) (hs : ∀ m ∈ ns, m.Tight 1) :
    (invocation n ns).Gives (Node.Tight tightest) :=
  (tight_argumentList hs).bind (fun _ hlist => tight_fresh (.cons h.slot <| .cons hlist.slot .nil) rfl)

theorem tight_binary (kind : TokenKind) (hn : n.Tight kind.leftDemand) (hm : m.Tight kind.rightDemand) :
    (binary n kind m).Gives (Node.Tight kind.tightness) := by
  have hoperator : (spacedToken kind).Gives (fun t => t.kind = kind) := fun _ => rfl
  refine hoperator.bind (fun t ht j => ?_)
  subst ht
  exact Node.tight_binary hn hm

theorem tight_assignment (hn : n.Tight least) (hm : m.Tight 1) : (assignment n m).Gives (Node.Tight 1) :=
  tight_binary (.punctuation .equals) hn.loose hm

theorem tight_prefixUnary (kind : TokenKind) (h : n.Tight tightest) :
    (prefixUnary kind n).Gives (Node.Tight tightest) := by
  have hnode : ∀ t : Token, (Node.fresh .prefixUnaryExpression [.token t, .node n]).Gives (Node.Tight tightest) :=
    fun t => tight_fresh (.cons Slot.tight_token <| .cons h.slot .nil) rfl
  unfold prefixUnary
  dsimp only
  split
  · exact .andThen hnode
  · exact .andThen hnode

theorem tight_postfixUnary (kind : TokenKind) (h : n.Tight tightest) :
    (postfixUnary n kind).Gives (Node.Tight tightest) :=
  .andThen (fun _ => tight_fresh (.cons h.slot <| .cons Slot.tight_token .nil) rfl)

theorem tight_emptyArray : (arrayLiteral []).Gives (Node.Tight tightest) := by
  have hempty : (commaSeparated []).Gives (Slot.Tight 0) := tight_commaSeparated (fun _ hm => by cases hm)
  exact .andThen (fun _ => hempty.bind (fun _ hs => .andThen (fun _ =>
    tight_fresh (.cons Slot.tight_token <| .cons hs <| .cons Slot.tight_token .nil) rfl)))

theorem tight_parenthesized (h : n.Tight least) : (parenthesized n).Gives (Node.Tight tightest) :=
  .andThen (fun _ => .andThen (fun _ =>
    tight_fresh (.cons Slot.tight_token <| .cons h.loose.slot <| .cons Slot.tight_token .nil) rfl))

theorem tight_propertyAssignment (h : n.Tight least) : (propertyAssignment t n).Gives (Node.Tight tightest) :=
  .andThen (fun _ => .andThen (fun _ =>
    tight_fresh (.cons Slot.tight_token <| .cons Slot.tight_token <| .cons h.loose.slot .nil) rfl))

theorem tight_objectLiteral {t' : Token} {s : Slot} (h : s.Tight 0) :
    (objectLiteral t s t').Gives (Node.Tight tightest) :=
  tight_fresh (.cons Slot.tight_token <| .cons h <| .cons Slot.tight_token .nil) rfl

theorem tight_emptyObject : emptyObject.Gives (Node.Tight tightest) :=
  .andThen (fun _ => .andThen (fun _ => tight_objectLiteral (fun _ hm => by cases hm)))

/-! ## Statements -/

theorem tight_expressionStatement (h : n.Tight least) : (expressionStatement n).Gives (Node.Tight tightest) :=
  .andThen (fun _ => tight_fresh (.cons h.loose.slot <| .cons Slot.tight_token .nil) rfl)

theorem tight_returnStatement (h : n.Tight least) : (returnStatement (some n)).Gives (Node.Tight tightest) :=
  .andThen (fun _ => .andThen (fun _ => tight_fresh (.cons Slot.tight_token <|
    .cons (Slot.tight_ofNode? (fun _ hm => Option.some.inj hm ▸ h.loose)) <| .cons Slot.tight_token .nil) rfl))

theorem tight_equalsValueClause (h : n.Tight 1) : (equalsValueClause n).Gives (Node.Tight tightest) :=
  .andThen (fun _ => tight_fresh (.cons Slot.tight_token <| .cons h.slot .nil) rfl)

theorem tight_variableDeclaration {value : Option Node} (h : ∀ n ∈ value, n.Tight 1) :
    (variableDeclaration t value).Gives (Node.Tight tightest) := by
  have hrest : ∀ s : Slot, s.Tight 0 → Fresh.Gives (do
      let declarator ← Node.fresh .variableDeclarator [.token t, .absent, s]
      Node.fresh .variableDeclaration [.token (← wordThenSpace .varKw), .separated [declarator] []])
      (Node.Tight tightest) := by
    intro s hs
    have hdeclarator : (Node.fresh .variableDeclarator [.token t, .absent, s]).Gives (Node.Tight tightest) :=
      tight_fresh (.cons Slot.tight_token <| .cons Slot.tight_absent <| .cons hs .nil) rfl
    exact hdeclarator.bind (fun d hd => .andThen (fun _ => tight_fresh (.cons Slot.tight_token <|
      .cons (Slot.tight_separated (List.forall_mem_singleton.2 hd.loose)) .nil) rfl))
  cases value with
  | none => exact hrest _ Slot.tight_absent
  | some v => exact (tight_equalsValueClause (h v rfl)).bind (fun _ hc => hrest _ hc.loose.slot)

theorem tight_variableStatement {value : Option Node} (h : ∀ n ∈ value, n.Tight 1) :
    (variableStatement t value).Gives (Node.Tight tightest) :=
  (tight_variableDeclaration h).bind (fun _ hd => .andThen (fun _ => tight_fresh (.cons Slot.tight_absent <|
    .cons Slot.tight_absent <| .cons hd.slot <| .cons Slot.tight_token .nil) rfl))

theorem tight_parameter : (parameter t).Gives (Node.Tight tightest) :=
  tight_fresh (.cons Slot.tight_absent <| .cons Slot.tight_absent <| .cons Slot.tight_token <| .cons Slot.tight_absent <|
    .cons Slot.tight_absent <| .cons Slot.tight_absent .nil) rfl

theorem tight_parameterList (h : ∀ m ∈ ns, m.Tight least) : (parameterList ns).Gives (Node.Tight tightest) :=
  .andThen (fun _ => (tight_commaSeparated h).bind (fun _ hs => .andThen (fun _ =>
    tight_fresh (.cons Slot.tight_token <| .cons (fun m hm => (hs m hm).loose) <| .cons Slot.tight_token .nil) rfl)))

theorem tight_callSignature (h : n.Tight least) : (callSignature n).Gives (Node.Tight tightest) :=
  tight_fresh (.cons h.loose.slot <| .cons Slot.tight_absent .nil) rfl

theorem tight_block {t' : Token} (h : ∀ m ∈ ns, m.Tight 0) : (block t ns t').Gives (Node.Tight tightest) :=
  tight_fresh (.cons Slot.tight_token <| .cons (Slot.tight_list h) <| .cons Slot.tight_token .nil) rfl

theorem tight_ifStatement (hn : n.Tight least) (hm : m.Tight l) : (ifStatement n m).Gives (Node.Tight tightest) :=
  .andThen (fun _ => .andThen (fun _ => .andThen (fun _ => tight_fresh (.cons Slot.tight_token <|
    .cons Slot.tight_token <| .cons hn.loose.slot <| .cons Slot.tight_token <| .cons hm.loose.slot <|
    .cons Slot.tight_absent .nil) rfl)))

end Build

end Downlevel
