import Downlevel.Proofs.Lowering.Context
import Downlevel.Proofs.Outline.Views
/-!
# Proofs.Outline.References — where a program says `this`

A program is read as the tree of its bodies: of every body with a `this` of its own, which of its statements are
`var _this = this;`, and in document order the places that refer to `this`, by the keyword or by the variable `_this`
(`Node.references`).  Layout does not matter (`Node.references_outline`).
-/
namespace Downlevel

/-- A place that refers to `this`. -/
inductive Reference where
  /-- The keyword. -/
  | this
  /-- The variable `_this`. -/
  | captured
  /-- The variable `_this` is declared. -/
  | capture
  /-- A body with a `this` of its own: which of its statements are `var _this = this;`, and the places in it. -/
  | body (captures : List Nat) (inside : List Reference)

mutual

def Reference.same : Reference → Reference → Bool
  | .this, .this => true
  | .captured, .captured => true
  | .capture, .capture => true
  | .body captures inside, .body captures' inside' => captures == captures' && Reference.allSame inside inside'
  | _, _ => false

def Reference.allSame : List Reference → List Reference → Bool
  | [], [] => true
  | r :: rs, r' :: rs' => r.same r' && Reference.allSame rs rs'
  | _, _ => false

end

mutual

theorem Reference.same_iff : ∀ r r' : Reference, r.same r' = true ↔ r = r'
  | .this, r' => by cases r' <;> simp [Reference.same]
  | .captured, r' => by cases r' <;> simp [Reference.same]
  | .capture, r' => by cases r' <;> simp [Reference.same]
  | .body _ inside, r' => by cases r' <;> simp [Reference.same, Reference.allSame_iff inside]

theorem Reference.allSame_iff : ∀ rs rs' : List Reference, Reference.allSame rs rs' = true ↔ rs = rs'
  | [], rs' => by cases rs' <;> simp [Reference.allSame]
  | r :: rs, rs' => by cases rs' <;> simp [Reference.allSame, Reference.same_iff r, Reference.allSame_iff rs]

end

instance : DecidableEq Reference := fun r r' => decidable_of_iff _ (Reference.same_iff r r')

/-- A body, if anything in it refers to `this`. -/
def Reference.ofBody (captures : List Nat) (inside : List Reference) : List Reference :=
  if inside.isEmpty then [] else [.body captures inside]

/-- The name `_this`. -/
def Token.isCapture (t : Token) : Bool := t.kind == .identifier && t.text == "_this".toList

/-- The variable is declared as `_this = this`. -/
def Node.isCapture (n : Node) : Bool :=
  (n.view? VariableDeclarator).any fun v =>
    v.name.isCapture && v.type.isNone &&
      v.value.any (fun clause => (clause.view? EqualsValueClause).any fun c => c.value.kind == .thisExpression)

/-- The variables are the one that is declared as `_this = this`. -/
def Node.declaresCapture (n : Node) : Bool :=
  (n.view? VariableDeclaration).any fun v => v.declarators.members.length == 1 && v.declarators.members.all Node.isCapture

/-- The statement is, but for its layout, `var _this = this;`. -/
def Node.declaresThis (n : Node) : Bool :=
  (n.outline.view? VariableStatement).any fun v =>
    v.exported.isNone && v.declared.isNone && v.declaration.declaresCapture

/-- Which of the statements are `var _this = this;`, if the first one has the given index. -/
def Node.capturesFrom : Nat → List Node → List Nat
  | _, [] => []
  | i, n :: ns => if n.declaresThis then i :: capturesFrom (i + 1) ns else capturesFrom (i + 1) ns

def Node.blockStatements (block : Node) : List Node := block.partsAs Block Block.statements

/-- The statements of a body, where the slot holds them. -/
def Slot.statements : Slot → List Node
  | .list ns => ns
  | .node b => b.blockStatements
  | _ => []

/-- The first slot holds the name `_this`. -/
def Slot.startsWithCapture : List Slot → Bool
  | .token t :: _ => t.isCapture
  | _ => false

/-- A node of the kind is a body with a `this` of its own. -/
def NodeKind.isBody : NodeKind → Bool
  | .sourceUnit | .functionDeclaration | .functionExpression | .getAccessorPropertyAssignment
  | .setAccessorPropertyAssignment => true
  | _ => false

/-- A node of the kind is no body, no reference to `this` and no variable. -/
def NodeKind.isInner (kind : NodeKind) : Bool :=
  !(kind.isBody || kind == .thisExpression || kind == .identifierName || kind == .variableDeclarator)

/-- The places that refer to `this` in a node of a kind, given those in its slots. -/
def NodeKind.refer (kind : NodeKind) (slots : List Slot) (inside : List Reference) : List Reference :=
  if kind.isBody then Reference.ofBody (Node.capturesFrom 0 (slots.flatMap Slot.statements)) inside
  else if kind = .thisExpression then [.this]
  else if kind = .identifierName ∧ Slot.startsWithCapture slots then [.captured]
  else if kind = .variableDeclarator ∧ Slot.startsWithCapture slots then .capture :: inside
  else inside

mutual

/-- **The places of a tree that refer to `this`**, in document order. -/
def Node.references : Node → List Reference
  | .mk _ kind slots => kind.refer slots (Slot.allReferences slots)

/-- The places of a row of slots that refer to `this`. -/
def Slot.allReferences : List Slot → List Reference
  | [] => []
  | s :: slots => s.references ++ Slot.allReferences slots

/-- The places of a slot that refer to `this`. -/
def Slot.references : Slot → List Reference
  | .absent => []
  | .token _ => []
  | .node n => n.references
  | .list ns => Node.listReferences ns
  | .separated ns _ => Node.listReferences ns

/-- The places of a list of nodes that refer to `this`. -/
def Node.listReferences : List Node → List Reference
  | [] => []
  | n :: ns => n.references ++ Node.listReferences ns

end

variable {n : Node} {ns ms : List Node} {s : Slot} {slots : List Slot} {i : Nat}

/-! ## Places in slots -/

theorem Node.listReferences_eq (ns : List Node) : Node.listReferences ns = ns.flatMap Node.references := by
  induction ns with
  | nil => rfl
  | cons n ns ih => rw [Node.listReferences, ih, List.flatMap_cons]

theorem Slot.allReferences_eq (slots : List Slot) : Slot.allReferences slots = slots.flatMap Slot.references := by
  induction slots with
  | nil => rfl
  | cons s slots ih => rw [Slot.allReferences, ih, List.flatMap_cons]

namespace Slot

@[simp] theorem references_absent : Slot.absent.references = [] := rfl

@[simp] theorem references_token (t : Token) : (Slot.token t).references = [] := rfl

@[simp] theorem references_node (n : Node) : (Slot.node n).references = n.references := rfl

@[simp] theorem references_list (ns : List Node) : (Slot.list ns).references = ns.flatMap Node.references :=
  Node.listReferences_eq ns

@[simp] theorem references_separated (ns : List Node) (ts : List Token) :
    (Slot.separated ns ts).references = ns.flatMap Node.references := Node.listReferences_eq ns

@[simp] theorem references_ofToken? (o : Option Token) : (Slot.ofToken? o).references = [] := by cases o <;> rfl

@[simp] theorem references_ofNode? (o : Option Node) :
    (Slot.ofNode? o).references = o.toList.flatMap Node.references := by cases o <;> simp [Slot.ofNode?]

@[simp] theorem statements_absent : Slot.absent.statements = [] := rfl

@[simp] theorem statements_token (t : Token) : (Slot.token t).statements = [] := rfl

@[simp] theorem statements_node (n : Node) : (Slot.node n).statements = n.blockStatements := rfl

@[simp] theorem statements_list (ns : List Node) : (Slot.list ns).statements = ns := rfl

@[simp] theorem statements_ofToken? (o : Option Token) : (Slot.ofToken? o).statements = [] := by cases o <;> rfl

@[simp] theorem statements_ofNode? (o : Option Node) :
    (Slot.ofNode? o).statements = o.toList.flatMap Node.blockStatements := by
  cases o with
  | none => rfl
  | some n => exact (List.append_nil _).symm

theorem references_eq (s : Slot) : s.references = s.nodes.flatMap Node.references := by
  cases s <;> simp [Slot.nodes]

end Slot

theorem Node.references_mk (id : ObjectId) (kind : NodeKind) (slots : List Slot) :
    (Node.mk id kind slots).references = kind.refer slots (slots.flatMap Slot.references) := by
  rw [Node.references, Slot.allReferences_eq]

theorem Node.references_eq (n : Node) : n.references = n.kind.refer n.slots (n.slots.flatMap Slot.references) := by
  cases n
  exact Node.references_mk ..

/-! ## Nodes by their kind -/

/-- A node refers to `this` where its slots do, if it is no body and no reference itself. -/
theorem Node.references_plain {id : ObjectId} {kind : NodeKind} (hbody : kind.isBody = false)
    (hthis : kind ≠ .thisExpression) (h : Slot.startsWithCapture slots = false) :
    (Node.mk id kind slots).references = slots.flatMap Slot.references := by
  rw [Node.references_mk, NodeKind.refer, if_neg (by simp [hbody]), if_neg hthis, if_neg (by simp [h]), if_neg (by simp [h])]

theorem Node.references_inner {id : ObjectId} {kind : NodeKind} (h : kind.isInner = true) :
    (Node.mk id kind slots).references = slots.flatMap Slot.references := by
  simp only [NodeKind.isInner, Bool.not_eq_true', Bool.or_eq_false_iff, beq_eq_false_iff_ne] at h
  obtain ⟨⟨⟨hbody, hthis⟩, hname⟩, hvariable⟩ := h
  rw [Node.references_mk, NodeKind.refer, if_neg (by simp [hbody]), if_neg hthis, if_neg (by simp [hname]),
    if_neg (by simp [hvariable])]

theorem Node.references_body {id : ObjectId} {kind : NodeKind} (hbody : kind.isBody = true) :
    (Node.mk id kind slots).references =
      Reference.ofBody (Node.capturesFrom 0 (slots.flatMap Slot.statements)) (slots.flatMap Slot.references) := by
  rw [Node.references_mk, NodeKind.refer, if_pos hbody]

/-! ## Statements -/

namespace Node

theorem capturesFrom_append : capturesFrom i (ns ++ ms) = capturesFrom i ns ++ capturesFrom (i + ns.length) ms := by
  induction ns generalizing i with
  | nil => rfl
  | cons n ns ih =>
    rw [List.cons_append, capturesFrom, capturesFrom, ih, List.length_cons, Nat.add_right_comm i 1, ← Nat.add_assoc]
    split <;> rfl

/-- What a slot refers to is in what its node refers to, if that is told by its kind alone. -/
theorem mem_references_of_slot {r : Reference} (hk : n.kind.isInner = true) (hs : s ∈ n.slots)
    (hr : r ∈ s.references) : r ∈ n.references := by
  obtain ⟨id, kind, slots⟩ := n
  exact references_inner hk ▸ List.mem_flatMap.2 ⟨s, hs, hr⟩

/-- A variable that reads as `_this` is declared as that. -/
theorem capture_mem_of_isCapture (h : n.isCapture = true) : .capture ∈ n.references := by
  obtain ⟨v, hv, h⟩ := (Option.any_eq_true _ _).1 h
  rw [Bool.and_eq_true, Bool.and_eq_true] at h
  have hk : n.kind = .variableDeclarator := kind_of_view? hv
  have hstarts : Slot.startsWithCapture n.slots = true := by
    unfold view? at hv
    rw [if_pos (show n.kind = NodeView.kind VariableDeclarator from hk)] at hv
    simp only [NodeView.ofSlots?] at hv
    split at hv
    · rename_i hslots
      cases hv
      rw [hslots]
      exact h.1.1
    · cases hv
  rw [references_eq, hk, NodeKind.refer, if_neg (by decide), if_neg (by decide), if_neg (by simp), if_pos ⟨rfl, hstarts⟩]
  exact List.mem_cons_self

theorem capture_mem_of_declaresCapture (h : n.declaresCapture = true) : .capture ∈ n.references := by
  obtain ⟨v, hv, h⟩ := (Option.any_eq_true _ _).1 h
  rw [Bool.and_eq_true] at h
  have hk : n.kind = .variableDeclaration := kind_of_view? hv
  obtain ⟨m, hm⟩ := List.length_eq_one_iff.1 (eq_of_beq h.1)
  have hs : Slot.separated v.declarators.members v.declarators.separators ∈ n.slots := by
    have hslot := mem_slots_of_view? hv (.separated v.declarators.members v.declarators.separators)
      (by simp [NodeView.toSlots])
    exact hslot.resolve_left (fun hnone => by cases hnone)
  refine mem_references_of_slot (by rw [hk]; rfl) hs ?_
  rw [Slot.references_separated, hm, List.flatMap_singleton]
  exact capture_mem_of_isCapture (List.all_eq_true.1 h.2 m (by simp [hm]))

end Node

/-! ## Layout -/

namespace Slot

theorem startsWithCapture_outline (slots : List Slot) :
    startsWithCapture (slots.map outline) = startsWithCapture slots := by
  rcases slots with _ | ⟨s, slots⟩
  · rfl
  · cases s <;> rfl

theorem statements_outline (s : Slot) : s.outline.statements = s.statements.map Node.outline := by
  cases s with
  | absent => rfl
  | token t => rfl
  | node b =>
    rw [outline_node, statements, statements, Node.blockStatements, Node.blockStatements, Node.partsAs, Node.partsAs,
      Node.view?_outline]
    cases b.view? Block <;> rfl
  | list ns => exact outline_list ns ▸ rfl
  | separated ns ts => exact outline_separated ns ts ▸ rfl

end Slot

namespace Node

theorem declaresThis_outline (n : Node) : n.outline.declaresThis = n.declaresThis := by
  rw [declaresThis, outline_outline, ← declaresThis]

theorem capturesFrom_outline (ns : List Node) : capturesFrom i (ns.map outline) = capturesFrom i ns := by
  induction ns generalizing i with
  | nil => rfl
  | cons n ns ih => rw [List.map_cons, capturesFrom, capturesFrom, declaresThis_outline, ih]

end Node

theorem NodeKind.refer_outline (kind : NodeKind) (slots : List Slot) (inside : List Reference) :
    kind.refer (slots.map Slot.outline) inside = kind.refer slots inside := by
  unfold NodeKind.refer
  have hstatements : (slots.map Slot.outline).flatMap Slot.statements = (slots.flatMap Slot.statements).map Node.outline := by
    rw [List.flatMap_map, List.map_flatMap]
    exact List.flatMap_congr (fun s _ => s.statements_outline)
  rw [Slot.startsWithCapture_outline, hstatements, Node.capturesFrom_outline]

/-- **Layout does not matter for what refers to `this`.** -/
theorem Node.references_outline (n : Node) : n.outline.references = n.references := by
  induction n using Node.induction with
  | step n ih =>
    obtain ⟨id, kind, slots⟩ := n
    rw [outline_mk, references_mk, references_mk, NodeKind.refer_outline, List.flatMap_map]
    refine congrArg _ (List.flatMap_congr (fun s hs => ?_))
    rw [Slot.references_eq, Slot.references_eq, Slot.nodes_outline, List.flatMap_map]
    exact List.flatMap_congr (fun m hm => ih m (List.mem_flatMap.2 ⟨s, hs, hm⟩))

namespace Node

/-- **Where `var _this = this;` stands, `_this` is declared.** -/
theorem capture_mem_of_declaresThis (h : n.declaresThis = true) : .capture ∈ n.references := by
  obtain ⟨v, hv, h⟩ := (Option.any_eq_true _ _).1 h
  rw [Bool.and_eq_true] at h
  have hk : n.outline.kind = .variableStatement := kind_of_view? hv
  have hs : Slot.node v.declaration ∈ n.outline.slots := by
    have hslot := mem_slots_of_view? hv (.node v.declaration) (by simp [NodeView.toSlots])
    exact hslot.resolve_left (fun hnone => by cases hnone)
  rw [← references_outline]
  refine mem_references_of_slot (by rw [hk]; rfl) hs ?_
  exact capture_mem_of_declaresCapture h.2

/-- Where `_this` is declared nowhere, no statement is `var _this = this;`. -/
theorem capturesFrom_eq_nil (h : .capture ∉ ns.flatMap references) : capturesFrom i ns = [] := by
  induction ns generalizing i with
  | nil => rfl
  | cons n ns ih =>
    rw [List.flatMap_cons, List.mem_append, not_or] at h
    rw [capturesFrom, if_neg (fun hn => h.1 (capture_mem_of_declaresThis hn)), ih h.2]

end Node

/-! ## Code that is built -/

theorem Fresh.bind_apply {α β : Type} (w : Fresh α) (f : α → Fresh β) (i : ObjectId) :
    (w >>= f) i = f (w i).1 (w i).2 := rfl

theorem Fresh.pure_apply {α : Type} (a : α) (i : ObjectId) : (pure a : Fresh α) i = (a, i) := rfl

/-- A node that is made of a view refers to `this` where the slots of the view do. -/
theorem references_toNode {α : Type} [NodeView α] (v : α) (h : (NodeView.kind α).isInner = true) :
    (NodeView.toNode v i).1.references = (NodeView.toSlots v).flatMap Slot.references := Node.references_inner h

namespace Build

variable {t : Token} {e left right : Node} {args : List Node}

/-- A node that is built of slots refers to `this` where the slots do. -/
theorem references_fresh {kind : NodeKind} (h : kind.isInner = true) :
    (Node.fresh kind slots i).1.references = slots.flatMap Slot.references := Node.references_inner h

theorem references_nameExpression (ht : t.isCapture = false) : (nameExpression t i).1.references = [] :=
  (Node.references_plain rfl (by decide) (show Slot.startsWithCapture [.token t] = false from ht)).trans (by simp)

theorem isCapture_identifier {text : List Char} (h : text ≠ "_this".toList) : (identifier text i).1.isCapture = false := by
  show (TokenKind.identifier == .identifier && text == "_this".toList) = false
  rw [beq_eq_false_iff_ne.2 h, Bool.and_false]

theorem references_name {text : List Char} (h : text ≠ "_this".toList) : (name text i).1.references = [] :=
  references_nameExpression (isCapture_identifier h)

theorem references_this : (thisExpression i).1.references = [.this] := by
  show (Node.mk _ .thisExpression _).references = _
  rw [Node.references_mk]
  rfl

@[simp] theorem references_literal : (literal t i).1.references = [] := (references_fresh rfl).trans (by simp)

@[simp] theorem references_stringLiteral {value : List Char} : (stringLiteral value i).1.references = [] := references_literal

@[simp] theorem references_numericLiteral {text : List Char} : (numericLiteral text i).1.references = [] := references_literal

@[simp] theorem references_keywordLiteral {kind : TokenKind} : (keywordLiteral kind i).1.references = [] := references_literal

@[simp] theorem references_memberAccess : (memberAccess e t i).1.references = e.references :=
  (Node.references_inner rfl).trans (by simp)

@[simp] theorem references_memberPath {names : List (List Char)} : (memberPath e names i).1.references = e.references := by
  induction names generalizing e i with
  | nil => rfl
  | cons name names ih =>
    unfold memberPath
    rw [Fresh.bind_apply, Fresh.bind_apply, ih, references_memberAccess]

@[simp] theorem references_elementAccess : (elementAccess left right i).1.references = left.references ++ right.references :=
  (Node.references_inner rfl).trans (by simp)

@[simp] theorem references_commaSeparated : (commaSeparated args i).1.references = args.flatMap Node.references :=
  Slot.references_separated ..

@[simp] theorem references_argumentList : (argumentList args i).1.references = args.flatMap Node.references := by
  refine (Node.references_inner (show NodeKind.isInner .argumentList = true from rfl)).trans ?_
  simp

@[simp] theorem references_invocation :
    (invocation e args i).1.references = e.references ++ args.flatMap Node.references := by
  show (Node.mk _ .invocationExpression [.node e, .node (argumentList args i).1]).references = _
  rw [Node.references_inner rfl]
  simp

@[simp] theorem references_binary {operator : TokenKind} :
    (binary left operator right i).1.references = left.references ++ right.references :=
  (Node.references_inner rfl).trans (by simp)

@[simp] theorem references_assignment : (assignment left right i).1.references = left.references ++ right.references :=
  references_binary

@[simp] theorem references_prefixUnary {operator : TokenKind} :
    (prefixUnary operator e i).1.references = e.references := by
  unfold prefixUnary
  split <;> exact (Node.references_inner rfl).trans (by simp)

@[simp] theorem references_postfixUnary {operator : TokenKind} :
    (postfixUnary e operator i).1.references = e.references := (Node.references_inner rfl).trans (by simp)

@[simp] theorem references_arrayLiteral : (arrayLiteral args i).1.references = args.flatMap Node.references :=
  (Node.references_inner rfl).trans (by simp)

@[simp] theorem references_parenthesized : (parenthesized e i).1.references = e.references :=
  (Node.references_inner rfl).trans (by simp)

@[simp] theorem references_propertyAssignment : (propertyAssignment t e i).1.references = e.references :=
  (Node.references_inner rfl).trans (by simp)

@[simp] theorem references_objectLiteral {openBrace closeBrace : Token} :
    (objectLiteral openBrace s closeBrace i).1.references = s.references := (Node.references_inner rfl).trans (by simp)

@[simp] theorem references_emptyObject : (emptyObject i).1.references = [] := references_objectLiteral

@[simp] theorem references_expressionStatement : (expressionStatement e i).1.references = e.references :=
  (Node.references_inner rfl).trans (by simp)

@[simp] theorem references_returnStatement {o : Option Node} :
    (returnStatement o i).1.references = o.toList.flatMap Node.references := by
  cases o <;> exact (Node.references_inner rfl).trans (by simp)

@[simp] theorem references_equalsValueClause : (equalsValueClause e i).1.references = e.references :=
  (Node.references_inner rfl).trans (by simp)

theorem references_declarator (ht : t.isCapture = false) {id : ObjectId} :
    (Node.mk id .variableDeclarator [.token t, .absent, s]).references = s.references :=
  (Node.references_plain rfl (by decide) (show Slot.startsWithCapture [.token t, .absent, s] = false from ht)).trans
    (by simp)

theorem references_variableDeclaration {o : Option Node} (ht : t.isCapture = false) :
    (variableDeclaration t o i).1.references = o.toList.flatMap Node.references := by
  cases o with
  | none =>
    show (Node.mk _ .variableDeclaration [.token _, .separated [.mk _ .variableDeclarator [.token t, .absent, .absent]]
      []]).references = _
    rw [Node.references_inner rfl]
    simp [references_declarator ht]
  | some e =>
    show (Node.mk _ .variableDeclaration [.token _, .separated [.mk _ .variableDeclarator [.token t, .absent,
      .node (equalsValueClause e i).1]] []]).references = _
    rw [Node.references_inner rfl]
    simp [references_declarator ht]

theorem references_variableStatement {o : Option Node} (ht : t.isCapture = false) :
    (variableStatement t o i).1.references = o.toList.flatMap Node.references := by
  show (Node.mk _ .variableStatement [.absent, .absent, .node (variableDeclaration t o i).1, .token _]).references = _
  rw [Node.references_inner rfl]
  simp [references_variableDeclaration ht]

@[simp] theorem references_parameter : (parameter t i).1.references = [] := (Node.references_inner rfl).trans (by simp)

@[simp] theorem references_parameterList : (parameterList args i).1.references = args.flatMap Node.references :=
  (Node.references_inner rfl).trans (by simp)

@[simp] theorem references_callSignature : (callSignature e i).1.references = e.references :=
  (Node.references_inner rfl).trans (by simp)

@[simp] theorem references_block {openBrace closeBrace : Token} :
    (block openBrace ns closeBrace i).1.references = ns.flatMap Node.references := (Node.references_inner rfl).trans (by simp)

@[simp] theorem references_ifStatement : (ifStatement left right i).1.references = left.references ++ right.references :=
  (Node.references_inner rfl).trans (by simp)

end Build

end Downlevel
