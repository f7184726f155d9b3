import Downlevel.Proofs.Tree.Schematic
import Downlevel.Tree.View
/-!
# Proofs.Schema.Views — views and the schema of their kind

The slots that a view names are as the schema of its kind has them, and a view that is read off a node holds nothing
that the node does not hold.
-/
namespace Downlevel

theorem Slot.ofToken?_token? (s : Slot) : Slot.ofToken? s.token? = .absent ∨ Slot.ofToken? s.token? = s := by
  cases s with
  | token t => exact .inr rfl
  | _ => exact .inl rfl

theorem Slot.ofNode?_node? (s : Slot) : Slot.ofNode? s.node? = .absent ∨ Slot.ofNode? s.node? = s := by
  cases s with
  | node n => exact .inr rfl
  | _ => exact .inl rfl

/-- A view whose slots fit the kind, and which holds nothing that the slots it is read off do not hold. -/
class SchemaView (α : Type) [NodeView α] : Prop where
  fitAll : ∀ v : α, Slot.FitAll (NodeView.kind α).shapes (NodeView.toSlots v) := by
    intro v
    simp [NodeView.kind, NodeView.toSlots, NodeKind.shapes, NodeKind.schema]
  held : ∀ (slots : List Slot) (v : α), NodeView.ofSlots? slots = some v →
      ∀ s ∈ NodeView.toSlots v, s = .absent ∨ s ∈ slots := by
    intro slots v h
    simp only [NodeView.ofSlots?] at h
    split at h
    · cases h
      simp only [NodeView.toSlots, List.mem_cons]
      grind [Slot.ofToken?_token?, Slot.ofNode?_node?]
    · cases h

instance : SchemaView SourceUnit where

instance : SchemaView FunctionDeclaration where

instance : SchemaView ModuleDeclaration where

instance : SchemaView ClassDeclaration where

instance : SchemaView EnumDeclaration where

instance : SchemaView EnumElement where

instance : SchemaView ExtendsClause where

instance : SchemaView ConstructorDeclaration where

instance : SchemaView MemberFunction where

instance : SchemaView MemberVariable where

instance : SchemaView MemberGetter where

instance : SchemaView MemberSetter where

instance : SchemaView CallSignature where

instance : SchemaView ParameterList where

instance : SchemaView Parameter where

instance : SchemaView VariableStatement where

instance : SchemaView VariableDeclaration where

instance : SchemaView VariableDeclarator where

instance : SchemaView EqualsValueClause where

instance : SchemaView Block where

instance : SchemaView ExpressionStatement where

instance : SchemaView LiteralExpression where

instance : SchemaView ThisExpression where

instance : SchemaView SuperExpression where

instance : SchemaView ParenthesizedExpression where

instance : SchemaView PrefixUnaryExpression where

instance : SchemaView MemberAccess where

instance : SchemaView Invocation where

instance : SchemaView ArgumentList where

instance : SchemaView FunctionExpression where

instance : SchemaView ObjectGetter where

instance : SchemaView ObjectSetter where

instance : SchemaView SimpleArrow where

instance : SchemaView ParenthesizedArrow where

instance : SchemaView Cast where

theorem Node.mem_slots_of_view? {α : Type} [NodeView α] [SchemaView α] {n : Node} {v : α} (h : n.view? α = some v) :
    ∀ s ∈ NodeView.toSlots v, s = .absent ∨ s ∈ n.slots := by
  unfold Node.view? at h
  split at h
  · exact SchemaView.held n.slots v h
  · cases h

end Downlevel
