import Downlevel.Proofs.Outline.Basic
import Downlevel.Proofs.Schema.Views
/-!
# Proofs.Outline.Views — views of outlines

The outline of a view has the outlines of what the view holds, and it has the slots of the outline of the node
(`OutlineView.toSlots_outline`).  So a node that reads as a view has an outline that reads as the outline of that view
(`Node.view?_outline_of`).
-/
namespace Downlevel

/-- Members and separators without their layout. -/
def SeparatedNodes.outline (v : SeparatedNodes) : SeparatedNodes :=
  ⟨v.members.map Node.outline, v.separators.map Token.outline⟩

@[simp] theorem SeparatedNodes.members_outline (v : SeparatedNodes) :
    v.outline.members = v.members.map Node.outline := rfl

@[simp] theorem SeparatedNodes.separators_outline (v : SeparatedNodes) :
    v.outline.separators = v.separators.map Token.outline := rfl

/-- A view whose slots can be stripped of their layout. -/
class OutlineView (α : Type) [NodeView α] where
  outline : α → α
  toSlots_outline : ∀ v, (NodeView.toSlots v).map Slot.outline = NodeView.toSlots (outline v) := by
    intro v
    simp [NodeView.toSlots]

instance : OutlineView SourceUnit where
  outline v := ⟨v.elements.map Node.outline, v.endOfFile.outline⟩

instance : OutlineView FunctionDeclaration where
  outline v := ⟨v.exported.map Token.outline, v.declared.map Token.outline, v.keyword.outline, v.name.outline,
    v.signature.outline, v.block.map Node.outline, v.semicolon.map Token.outline⟩

instance : OutlineView ModuleDeclaration where
  outline v := ⟨v.exported.map Token.outline, v.declared.map Token.outline, v.keyword.outline, v.name.outline,
    v.openBrace.outline, v.elements.map Node.outline, v.closeBrace.outline⟩

instance : OutlineView ClassDeclaration where
  outline v := ⟨v.exported.map Token.outline, v.declared.map Token.outline, v.keyword.outline, v.name.outline,
    v.base.map Node.outline, v.implemented.map Node.outline, v.openBrace.outline, v.members.map Node.outline,
    v.closeBrace.outline⟩

instance : OutlineView EnumDeclaration where
  outline v := ⟨v.exported.map Token.outline, v.declared.map Token.outline, v.keyword.outline, v.name.outline,
    v.openBrace.outline, v.members.outline, v.closeBrace.outline⟩

instance : OutlineView EnumElement where
  outline v := ⟨v.name.outline, v.value.map Node.outline⟩

instance : OutlineView ExtendsClause where
  outline v := ⟨v.keyword.outline, v.names.outline⟩

instance : OutlineView ConstructorDeclaration where
  outline v := ⟨v.keyword.outline, v.parameters.outline, v.block.map Node.outline, v.semicolon.map Token.outline⟩

instance : OutlineView MemberFunction where
  outline v := ⟨v.access.map Token.outline, v.isStatic.map Token.outline, v.name.outline, v.signature.outline,
    v.block.map Node.outline, v.semicolon.map Token.outline⟩

instance : OutlineView MemberVariable where
  outline v := ⟨v.access.map Token.outline, v.isStatic.map Token.outline, v.declarator.outline, v.semicolon.outline⟩

instance : OutlineView MemberGetter where
  outline v := ⟨v.access.map Token.outline, v.isStatic.map Token.outline, v.keyword.outline, v.name.outline,
    v.parameters.outline, v.resultType.map Node.outline, v.block.outline⟩

instance : OutlineView MemberSetter where
  outline v := ⟨v.access.map Token.outline, v.isStatic.map Token.outline, v.keyword.outline, v.name.outline,
    v.parameters.outline, v.block.outline⟩

instance : OutlineView CallSignature where
  outline v := ⟨v.parameters.outline, v.resultType.map Node.outline⟩

instance : OutlineView ParameterList where
  outline v := ⟨v.openParen.outline, v.parameters.outline, v.closeParen.outline⟩

instance : OutlineView Parameter where
  outline v := ⟨v.dots.map Token.outline, v.access.map Token.outline, v.name.outline, v.question.map Token.outline,
    v.type.map Node.outline, v.value.map Node.outline⟩

instance : OutlineView VariableStatement where
  outline v := ⟨v.exported.map Token.outline, v.declared.map Token.outline, v.declaration.outline,
    v.semicolon.outline⟩

instance : OutlineView VariableDeclaration where
  outline v := ⟨v.keyword.outline, v.declarators.outline⟩

instance : OutlineView VariableDeclarator where
  outline v := ⟨v.name.outline, v.type.map Node.outline, v.value.map Node.outline⟩

instance : OutlineView EqualsValueClause where
  outline v := ⟨v.equals.outline, v.value.outline⟩

instance : OutlineView Block where
  outline v := ⟨v.openBrace.outline, v.statements.map Node.outline, v.closeBrace.outline⟩

instance : OutlineView ExpressionStatement where
  outline v := ⟨v.expression.outline, v.semicolon.outline⟩

instance : OutlineView LiteralExpression where
  outline v := ⟨v.literal.outline⟩

instance : OutlineView ThisExpression where
  outline v := ⟨v.keyword.outline⟩

instance : OutlineView SuperExpression where
  outline v := ⟨v.keyword.outline⟩

instance : OutlineView ParenthesizedExpression where
  outline v := ⟨v.openParen.outline, v.expression.outline, v.closeParen.outline⟩

instance : OutlineView PrefixUnaryExpression where
  outline v := ⟨v.operator.outline, v.operand.outline⟩

instance : OutlineView MemberAccess where
  outline v := ⟨v.expression.outline, v.dot.outline, v.name.outline⟩

instance : OutlineView Invocation where
  outline v := ⟨v.callee.outline, v.arguments.outline⟩

instance : OutlineView ArgumentList where
  outline v := ⟨v.openParen.outline, v.arguments.outline, v.closeParen.outline⟩

instance : OutlineView FunctionExpression where
  outline v := ⟨v.keyword.outline, v.name.map Token.outline, v.signature.outline, v.block.outline⟩

instance : OutlineView ObjectGetter where
  outline v := ⟨v.keyword.outline, v.name.outline, v.openParen.outline, v.closeParen.outline,
    v.resultType.map Node.outline, v.block.outline⟩

instance : OutlineView ObjectSetter where
  outline v := ⟨v.keyword.outline, v.name.outline, v.openParen.outline, v.parameter.outline, v.closeParen.outline,
    v.block.outline⟩

instance : OutlineView SimpleArrow where
  outline v := ⟨v.parameter.outline, v.arrow.outline, v.body.outline⟩

instance : OutlineView ParenthesizedArrow where
  outline v := ⟨v.signature.outline, v.arrow.outline, v.body.outline⟩

instance : OutlineView Cast where
  outline v := ⟨v.lessThan.outline, v.type.outline, v.greaterThan.outline, v.expression.outline⟩

section Views

variable {α : Type} [NodeView α] [OutlineView α] {n : Node} {v : α}

/-- **The outline of a node that reads as a view reads as the outline of that view.** -/
theorem Node.view?_outline_of (hk : n.kind = NodeView.kind α) (hs : n.slots = NodeView.toSlots v) :
    n.outline.view? α = some (OutlineView.outline v) := by
  unfold Node.view?
  rw [Node.kind_outline, if_pos hk, Node.slots_outline, hs, OutlineView.toSlots_outline, NodeView.ofSlots?_toSlots]

end Views

/-- The outline of a node of another kind reads as no view either. -/
theorem Node.view?_outline_none {α : Type} [NodeView α] {n : Node} (hk : n.kind ≠ NodeView.kind α) :
    n.outline.view? α = none := Node.view?_eq_none (by rwa [Node.kind_outline])

/-! ## Views of nodes that were made -/

/-- A view that reads the slots of an outline as the outline of what it reads the slots as, whatever they are. -/
class OutlineView.Total (α : Type) [NodeView α] [OutlineView α] : Prop where
  ofSlots?_outline : ∀ slots : List Slot,
    NodeView.ofSlots? (slots.map Slot.outline) = (NodeView.ofSlots? (α := α) slots).map OutlineView.outline

/-- **The outline of a node reads as the outline of what the node reads as.** -/
theorem Node.view?_outline {α : Type} [NodeView α] [OutlineView α] [OutlineView.Total α] (n : Node) :
    n.outline.view? α = (n.view? α).map OutlineView.outline := by
  unfold Node.view?
  rw [Node.kind_outline, Node.slots_outline]
  split
  · exact OutlineView.Total.ofSlots?_outline n.slots
  · rfl

@[simp] theorem Slot.token?_outline (s : Slot) : s.outline.token? = s.token?.map Token.outline := by cases s <;> rfl

@[simp] theorem Slot.node?_outline (s : Slot) : s.outline.node? = s.node?.map Node.outline := by cases s <;> rfl

instance : OutlineView.Total Block where
  ofSlots?_outline slots := by
    rcases slots with _ | ⟨_ | _ | _ | _ | _, _ | ⟨_ | _ | _ | _ | _, _ | ⟨_ | _ | _ | _ | _, _ | _⟩⟩⟩
    all_goals try rfl
    simp [NodeView.ofSlots?, OutlineView.outline]

instance : OutlineView.Total ExpressionStatement where
  ofSlots?_outline slots := by
    rcases slots with _ | ⟨_ | _ | _ | _ | _, _ | ⟨_ | _ | _ | _ | _, _ | _⟩⟩
    all_goals rfl

instance : OutlineView.Total ArgumentList where
  ofSlots?_outline slots := by
    rcases slots with _ | ⟨_ | _ | _ | _ | _, _ | ⟨_ | _ | _ | _ | _, _ | ⟨_ | _ | _ | _ | _, _ | _⟩⟩⟩
    all_goals try rfl
    simp [NodeView.ofSlots?, OutlineView.outline, SeparatedNodes.outline]

instance : OutlineView.Total LiteralExpression where
  ofSlots?_outline slots := by
    rcases slots with _ | ⟨_ | _ | _ | _ | _, _ | _⟩
    all_goals rfl

instance : OutlineView.Total PrefixUnaryExpression where
  ofSlots?_outline slots := by
    rcases slots with _ | ⟨_ | _ | _ | _ | _, _ | ⟨_ | _ | _ | _ | _, _ | _⟩⟩
    all_goals rfl

instance : OutlineView.Total ParenthesizedExpression where
  ofSlots?_outline slots := by
    rcases slots with _ | ⟨_ | _ | _ | _ | _, _ | ⟨_ | _ | _ | _ | _, _ | ⟨_ | _ | _ | _ | _, _ | _⟩⟩⟩
    all_goals rfl

instance : OutlineView.Total VariableStatement where
  ofSlots?_outline slots := by
    rcases slots with _ | ⟨exported, _ | ⟨declared, _ | ⟨_ | _ | _ | _ | _, _ | ⟨_ | _ | _ | _ | _, _ | _⟩⟩⟩⟩
    all_goals try rfl
    simp [NodeView.ofSlots?, OutlineView.outline]

instance : OutlineView.Total ObjectGetter where
  ofSlots?_outline slots := by
    rcases slots with _ | ⟨s₁, _ | ⟨s₂, _ | ⟨s₃, _ | ⟨s₄, _ | ⟨s₅, _ | ⟨s₆, _ | ⟨s₇, rest⟩⟩⟩⟩⟩⟩⟩
    all_goals try rfl
    all_goals cases s₁ <;> try rfl
    all_goals cases s₂ <;> try rfl
    all_goals cases s₃ <;> try rfl
    all_goals cases s₄ <;> try rfl
    all_goals cases s₆ <;> try rfl
    simp [NodeView.ofSlots?, OutlineView.outline]

instance : OutlineView.Total ObjectSetter where
  ofSlots?_outline slots := by
    rcases slots with _ | ⟨s₁, _ | ⟨s₂, _ | ⟨s₃, _ | ⟨s₄, _ | ⟨s₅, _ | ⟨s₆, _ | ⟨s₇, rest⟩⟩⟩⟩⟩⟩⟩
    all_goals try rfl
    all_goals cases s₁ <;> try rfl
    all_goals cases s₂ <;> try rfl
    all_goals cases s₃ <;> try rfl
    all_goals cases s₄ <;> try rfl
    all_goals cases s₅ <;> try rfl
    all_goals cases s₆ <;> rfl

namespace Node

variable {n : Node}

theorem ofSlots?_of_view? {α : Type} [NodeView α] {v : α} (h : n.view? α = some v) :
    NodeView.ofSlots? n.slots = some v := by
  unfold view? at h
  split at h
  · exact h
  · cases h

theorem slots_of_variableStatement {v : VariableStatement} (hv : n.view? VariableStatement = some v) :
    ∃ exported declared, n.slots = [exported, declared, .node v.declaration, .token v.semicolon] := by
  have hslots := ofSlots?_of_view? hv
  simp only [NodeView.ofSlots?] at hslots
  split at hslots
  · rename_i heq
    cases hslots
    exact ⟨_, _, heq⟩
  · cases hslots

theorem slots_of_objectGetter {v : ObjectGetter} (hv : n.view? ObjectGetter = some v) :
    ∃ s, n.slots = [.token v.keyword, .token v.name, .token v.openParen, .token v.closeParen, s, .node v.block] ∧
      v.resultType = s.node? := by
  have hslots := ofSlots?_of_view? hv
  simp only [NodeView.ofSlots?] at hslots
  split at hslots
  · rename_i heq
    cases hslots
    exact ⟨_, heq, rfl⟩
  · cases hslots

end Node

/-- A view that has the slots that it is read off. -/
class ExactView (α : Type) [NodeView α] : Prop where
  slots_eq : ∀ (slots : List Slot) (v : α), NodeView.ofSlots? slots = some v → slots = NodeView.toSlots v := by
    intro slots v h
    simp only [NodeView.ofSlots?] at h
    split at h
    · cases h
      rfl
    · cases h

instance : ExactView SourceUnit where

instance : ExactView Block where

instance : ExactView ExpressionStatement where

instance : ExactView ArgumentList where

instance : ExactView ObjectSetter where

theorem Node.slots_of_view? {α : Type} [NodeView α] [ExactView α] {n : Node} {v : α} (h : n.view? α = some v) :
    n.slots = NodeView.toSlots v := ExactView.slots_eq _ _ (Node.ofSlots?_of_view? h)

end Downlevel
