import Downlevel.Proofs.Outline.Gives
import Downlevel.Proofs.Tree.Views
/-!
# Proofs.Outline.Opens — a value starts with characters

Whatever the draft makes of something that computes a value is one node, and its first token has characters
(`Draft.opens_rule`).  So the width of trivia has no part in which token such a node starts with.
-/
namespace Downlevel.Draft

/-- What computes a value stays one node that starts with characters. -/
def KeepsOpen (visit : Node → Draft Replacement) : Prop :=
  ∀ (n : Node) (k : Nat), n.Sound OpenForm Demand.any k → n.kind.isExpression = true →
    (visit n).Gives (fun r => ∃ e, r = .one e ∧ e.Opens)

section Rules

variable {visit : Node → Draft Replacement} (h : KeepsOpen visit) {n : Node} {c : NodeClass} {k : Nat}

theorem gives_walkSlots {parent : NodeKind} {index : Nat} {s : Slot} {slots : List Slot} {P : Slot → Prop}
    (hs : (walkSlot visit (parent.shapes[index]?.any SlotShape.isOptional) s).Gives P) :
    (walkSlots visit parent index (s :: slots)).Gives (fun ss => ∃ s' rest, ss = s' :: rest ∧ P s') :=
  hs.bind (fun s' hs' => .andThen (fun rest => .pure ⟨s', rest, rfl, hs'⟩))

include h

/-- A slot that must hold what computes a value holds one that starts with characters. -/
theorem opens_walkSlot (hn : n.Stands OpenForm Demand.any .expression k) :
    (walkSlot visit false (.node n)).Gives (fun s => ∃ e, s = .node e ∧ e.Opens) := by
  refine (h n k hn.sound hn.kind).bind (fun r hr => ?_)
  obtain ⟨e, rfl, he⟩ := hr
  exact Gives.bind (P := fun o => o = some e) (.pure rfl) (fun o ho => .pure ⟨e, by rw [ho]; rfl, he⟩)

/-- **What must stay a value starts with characters.** -/
theorem opens_lower (hn : n.Stands OpenForm Demand.any .expression k) : (lower visit n).Gives Node.Opens := by
  refine (h n k hn.sound hn.kind).bind (fun r hr => ?_)
  obtain ⟨e, rfl, he⟩ := hr
  exact .pure he

/-- What stands in a node whose first slot must hold what computes a value starts so after a walk. -/
theorem opens_walk_node {sorts : List SlotSort} (hn : n.Stands OpenForm Demand.any c k)
    (hsorts : n.kind.sorts = .node .expression :: sorts) :
    (walk visit n).Gives (fun m => ∃ e rest, m = .mk 0 n.kind (.node e :: rest) ∧ e.Opens) := by
  have hrow := hn.row
  rw [hsorts] at hrow
  obtain ⟨e, rest, hs, he, -⟩ := Slot.row_node.1 hrow
  have hoptional : (n.kind.shapes[0]?.any SlotShape.isOptional) = false := by
    rw [← n.kind.map_shape_sorts, hsorts]
    rfl
  unfold walk
  rw [hs]
  refine (gives_walkSlots (P := fun s => ∃ e, s = .node e ∧ e.Opens) ?_).bind (fun ss hss => ?_)
  · rw [hoptional]
    exact opens_walkSlot h he
  · obtain ⟨s', rest', rfl, e', rfl, he'⟩ := hss
    exact .make ⟨e', rest', rfl, he'⟩

omit h in
/-- A token that a node starts with stays. -/
theorem opens_walk_token {sorts : List SlotSort} (hn : n.Stands OpenForm Demand.any c k)
    (hsorts : n.kind.sorts = .token :: sorts) (hopens : n.Opens) : (walk visit n).Gives Node.Opens := by
  have hrow := hn.row
  rw [hsorts] at hrow
  obtain ⟨t, rest, hs, -, -⟩ := Slot.row_token.1 hrow
  have ht : t.text ≠ [] := by
    obtain ⟨id, kind, slots⟩ := n
    rw [show slots = .token t :: rest from hs] at hopens
    exact hopens.token
  unfold walk
  rw [hs]
  refine (gives_walkSlots (P := (· = .token t)) ?_).bind (fun ss hss => ?_)
  · exact .pure rfl
  · obtain ⟨s', rest', rfl, rfl⟩ := hss
    exact .make (Node.opens_of_token ht)

omit h in
/-- Every value but an arrow function with a signature starts with a token or another value. -/
theorem sorts_expression {kind : NodeKind} (hk : kind.isExpression = true)
    (hne : kind ≠ .parenthesizedArrowFunctionExpression) :
    (∃ sorts, kind.sorts = .token :: sorts) ∨ ∃ sorts, kind.sorts = .node .expression :: sorts := by
  cases kind <;>
    first
      | exact .inl ⟨_, rfl⟩
      | exact .inr ⟨_, rfl⟩
      | exact absurd rfl hne
      | cases hk

theorem opens_walk (hn : n.Stands OpenForm Demand.any .expression k)
    (hne : n.kind ≠ .parenthesizedArrowFunctionExpression) : (walk visit n).Gives Node.Opens := by
  rcases sorts_expression hn.kind hne with ⟨sorts, hsorts⟩ | ⟨sorts, hsorts⟩
  · exact opens_walk_token hn hsorts (hn.form hn.kind)
  · refine (opens_walk_node h hn hsorts).mono (fun m hm => ?_)
    obtain ⟨e, rest, rfl, he⟩ := hm
    exact Node.opens_of_node he

/-- **The expression of a statement that was walked starts with characters.** -/
theorem opens_walk_statement (hn : n.Stands OpenForm Demand.any c k) (hk : n.kind = .expressionStatement) :
    (walk visit n).Gives (fun m => ∀ v, m.view? ExpressionStatement = some v → v.expression.Opens) := by
  refine (opens_walk_node h hn (by rw [hk]; rfl)).mono (fun m hm v hv => ?_)
  obtain ⟨e, rest, rfl, he⟩ := hm
  rw [hk] at hv
  match rest, hv with
  | [.token t], hv =>
    cases hv
    exact he

/-! ## Rules for values -/

omit h in
theorem opens_thisReference {t : Token} (ht : t.text ≠ []) : (thisReference t).Gives Node.Opens := by
  intro inArrow n m heq
  unfold thisReference at heq
  cases inArrow with
  | true => cases heq; exact Node.opens_of_token (by decide)
  | false => cases heq; exact Node.opens_of_token ht

omit h in
theorem opens_name {text : List Char} (j : ObjectId) (ht : text ≠ []) : (Build.name text j).1.Opens :=
  Node.opens_of_token ht

omit h in
theorem opens_superPrototype (j : ObjectId) : (superPrototype j).1.Opens := Node.opens_of_node (opens_name _ (by decide))

omit h in
theorem opens_superCallee {callee target : Node} {j : ObjectId} (heq : (superCallee? callee j).1 = some target) :
    target.Opens := by
  unfold superCallee? at heq
  cases hs : callee.view? SuperExpression with
  | some base =>
    rw [hs] at heq
    cases heq
    exact Node.opens_of_node (opens_name _ (by decide))
  | none =>
    rw [hs] at heq
    cases ha : callee.view? MemberAccess with
    | none =>
      rw [ha] at heq
      cases heq
    | some access =>
      rw [ha] at heq
      dsimp only at heq
      cases hb : access.expression.view? SuperExpression with
      | none =>
        rw [hb] at heq
        cases heq
      | some base =>
        rw [hb] at heq
        cases heq
        exact Node.opens_of_node (Node.opens_of_node (opens_superPrototype _))

omit h in
theorem opens_functionExpression (parameters block : Node) (j : ObjectId) :
    (functionExpression parameters block j).1.Opens := Node.opens_of_token (List.cons_ne_nil _ _)

omit h in
theorem opens_arrowFunction (parameters : Node) (facts : ParameterFacts) (body : Node) :
    (arrowFunction visit parameters facts body).Gives (fun r => ∃ e, r = .one e ∧ e.Opens) :=
  .andThen (fun _ => (Gives.make (P := Node.Opens) (opens_functionExpression _ _ _)).bind (fun e he => .pure ⟨e, rfl, he⟩))

/-- **The rule for a value makes one node that starts with characters.** -/
theorem opens_rule (hn : n.Sound OpenForm Demand.any k) (hk : n.kind.isExpression = true) :
    (rule visit n).Gives (fun r => ∃ e, r = .one e ∧ e.Opens) := by
  have hstands : n.Stands OpenForm Demand.any .expression k := ⟨hk, hn⟩
  have hopens : n.Opens := hstands.form hk
  have hone : ∀ d : Draft Node, d.Gives Node.Opens →
      (do return .one (← d) : Draft Replacement).Gives (fun r => ∃ e, r = .one e ∧ e.Opens) :=
    fun d hd => hd.bind (fun e he => .pure ⟨e, rfl, he⟩)
  have hwalk : n.kind ≠ .parenthesizedArrowFunctionExpression →
      (do return .one (← walk visit n) : Draft Replacement).Gives (fun r => ∃ e, r = .one e ∧ e.Opens) :=
    fun hne => hone _ (opens_walk h hstands hne)
  unfold rule
  cases hkind : n.kind with
  | thisExpression =>
    obtain ⟨v, hv, hs, -⟩ := hstands.thisExpression hkind
    refine (Gives.view hv).bind (fun _ heq => hone _ (opens_thisReference ?_))
    subst heq
    obtain ⟨id, kind, slots⟩ := n
    rw [show slots = .token _ :: [] from hs] at hopens
    exact hopens.token
  | castExpression =>
    obtain ⟨v, hv, -, -, -, -, he⟩ := hstands.cast hkind
    refine (Gives.view hv).bind (fun _ heq => hone _ ?_)
    subst heq
    exact opens_lower h he
  | invocationExpression =>
    refine .andThen (fun call => (Gives.make (P := fun o => ∀ target, o = some target → target.Opens)
      (fun target heq => opens_superCallee heq)).bind (fun o ho => ?_))
    cases o with
    | none => exact hwalk (by rw [hkind]; decide)
    | some target =>
      have htarget : ∀ arguments : Node,
          (do return .one (← make (NodeView.toNode (Invocation.mk target arguments))) : Draft Replacement).Gives
            (fun r => ∃ e, r = .one e ∧ e.Opens) := fun arguments =>
        hone _ (.make (Node.opens_of_node (ho target rfl)))
      refine .andThen (fun lowered => .andThen (fun list => .andThen (fun this => ?_)))
      dsimp only
      split
      · exact .andThen (fun _ => .andThen htarget)
      · exact .andThen (fun _ => .andThen (fun _ => .andThen htarget))
  | memberAccessExpression =>
    refine .andThen (fun access => ?_)
    cases access.expression.view? SuperExpression with
    | none => exact hwalk (by rw [hkind]; decide)
    | some base => exact hone _ (.make (Node.opens_of_node (opens_superPrototype _)))
  | functionExpression =>
    obtain ⟨v, hv, hs, -⟩ := hstands.functionExpression hkind
    refine (Gives.view hv).bind (fun _ heq => .andThen (fun signature => .andThen (fun p => ?_)))
    subst heq
    refine .andThen (fun s => hone _ (.make (Node.opens_of_token ?_)))
    obtain ⟨id, kind, slots⟩ := n
    rw [show slots = .token _ :: _ from hs] at hopens
    exact hopens.token
  | simpleArrowFunctionExpression =>
    exact .andThen (fun arrow => .andThen (fun parameters => opens_arrowFunction _ _ _))
  | parenthesizedArrowFunctionExpression =>
    exact .andThen (fun arrow => .andThen (fun signature => .andThen (fun p => opens_arrowFunction _ _ _)))
  -- No rule is for any other kind, so the node is walked; kinds that are no values are out of the question.
  | _ => first
    | exact hwalk (by rw [hkind]; decide)
    | (rw [hkind] at hk; cases hk)

end Rules

/-- Whatever the draft makes of a value is one node that starts with characters. -/
theorem keepsOpen_visitUpTo : ∀ levels, KeepsOpen (visitUpTo levels)
  | 0 => fun _ _ _ _ => .fail
  | levels + 1 => fun _ _ hn hk => opens_rule (keepsOpen_visitUpTo levels) hn hk

end Downlevel.Draft
