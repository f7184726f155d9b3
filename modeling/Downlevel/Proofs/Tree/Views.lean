import Downlevel.Proofs.Tree.Stands
/-!
# Proofs.Tree.Views — what a node that stands is made of

A node of a kind reads as the view of that kind, and what the view holds stands where the kind has it.  Every fact here
is read off the row of its slots (`Node.Stands.row`).
-/
namespace Downlevel

variable {F : Node → Prop} {L : Demand} {c : NodeClass} {sorts : List SlotSort} {k : Nat} {n : Node}
  {slots : List Slot}

/-! ## Rows, slot by slot -/

namespace Slot

theorem row_nil_iff : Slot.Row F L k [] slots ↔ slots = [] := List.forall₂_nil_left_iff

theorem row_token : Slot.Row F L k (.token :: sorts) slots ↔
    ∃ t rest, slots = .token t :: rest ∧ t.Meets L k ∧ Slot.Row F L k sorts rest := by
  rw [Slot.Row, List.forall₂_cons_left_iff]
  constructor
  · rintro ⟨s, rest, hs, hrest, rfl⟩
    cases s with
    | token t => exact ⟨t, rest, rfl, stands_token.1 hs, hrest⟩
    | _ => exact hs.admits.elim
  · rintro ⟨t, rest, rfl, ht, hrest⟩
    exact ⟨.token t, rest, stands_token.2 ht, hrest, rfl⟩

theorem row_optionalToken : Slot.Row F L k (.optionalToken :: sorts) slots ↔
    ∃ o rest, slots = .ofToken? o :: rest ∧ (∀ t, o = some t → t.Meets L k) ∧ Slot.Row F L k sorts rest := by
  rw [Slot.Row, List.forall₂_cons_left_iff]
  constructor
  · rintro ⟨s, rest, hs, hrest, rfl⟩
    cases s with
    | absent => exact ⟨none, rest, rfl, fun _ h => (by cases h), hrest⟩
    | token t => exact ⟨some t, rest, rfl, stands_ofToken?.1 hs, hrest⟩
    | _ => exact hs.admits.elim
  · rintro ⟨o, rest, rfl, ho, hrest⟩
    exact ⟨.ofToken? o, rest, stands_ofToken?.2 ho, hrest, rfl⟩

theorem row_node : Slot.Row F L k (.node c :: sorts) slots ↔
    ∃ m rest, slots = .node m :: rest ∧ m.Stands F L c k ∧ Slot.Row F L k sorts rest := by
  rw [Slot.Row, List.forall₂_cons_left_iff]
  constructor
  · rintro ⟨s, rest, hs, hrest, rfl⟩
    cases s with
    | node m => exact ⟨m, rest, rfl, stands_node.1 hs, hrest⟩
    | _ => exact hs.admits.elim
  · rintro ⟨m, rest, rfl, hm, hrest⟩
    exact ⟨.node m, rest, stands_node.2 hm, hrest, rfl⟩

theorem row_optionalNode : Slot.Row F L k (.optionalNode c :: sorts) slots ↔
    ∃ o rest, slots = .ofNode? o :: rest ∧ (∀ m, o = some m → m.Stands F L c k) ∧ Slot.Row F L k sorts rest := by
  rw [Slot.Row, List.forall₂_cons_left_iff]
  constructor
  · rintro ⟨s, rest, hs, hrest, rfl⟩
    cases s with
    | absent => exact ⟨none, rest, rfl, fun _ h => (by cases h), hrest⟩
    | node m => exact ⟨some m, rest, rfl, stands_ofNode?.1 hs, hrest⟩
    | _ => exact hs.admits.elim
  · rintro ⟨o, rest, rfl, ho, hrest⟩
    exact ⟨.ofNode? o, rest, stands_ofNode?.2 ho, hrest, rfl⟩

theorem row_list : Slot.Row F L k (.list c :: sorts) slots ↔
    ∃ ms rest, slots = .list ms :: rest ∧ (∀ m ∈ ms, m.Stands F L c k) ∧ Slot.Row F L k sorts rest := by
  rw [Slot.Row, List.forall₂_cons_left_iff]
  constructor
  · rintro ⟨s, rest, hs, hrest, rfl⟩
    cases s with
    | list ms => exact ⟨ms, rest, rfl, stands_list.1 hs, hrest⟩
    | _ => exact hs.admits.elim
  · rintro ⟨ms, rest, rfl, hm, hrest⟩
    exact ⟨.list ms, rest, stands_list.2 hm, hrest, rfl⟩

end Slot

/-- Members of a class with separators in between. -/
structure SeparatedNodes.Stands (F : Node → Prop) (L : Demand) (c : NodeClass) (k : Nat) (v : SeparatedNodes) :
    Prop where
  members : ∀ m ∈ v.members, m.Stands F L c k
  separators : ∀ t ∈ v.separators, t.Meets L k
  arity : v.members = [] ∧ v.separators = [] ∨ v.members.length = v.separators.length + 1

namespace Slot

theorem row_separated : Slot.Row F L k (.separated c :: sorts) slots ↔ ∃ ms ts rest, slots = .separated ms ts :: rest ∧
    SeparatedNodes.Stands F L c k ⟨ms, ts⟩ ∧ Slot.Row F L k sorts rest := by
  rw [Slot.Row, List.forall₂_cons_left_iff]
  constructor
  · rintro ⟨s, rest, hs, hrest, rfl⟩
    cases s with
    | separated ms ts =>
      obtain ⟨hm, ht, harity⟩ := stands_separated.1 hs
      exact ⟨ms, ts, rest, rfl, ⟨hm, ht, harity⟩, hrest⟩
    | _ => exact hs.admits.elim
  · rintro ⟨ms, ts, rest, rfl, h, hrest⟩
    exact ⟨.separated ms ts, rest, stands_separated.2 ⟨h.members, h.separators, h.arity⟩, hrest, rfl⟩

theorem row_nonempty : Slot.Row F L k (.nonempty c :: sorts) slots ↔ ∃ ms ts rest, slots = .separated ms ts :: rest ∧
    SeparatedNodes.Stands F L c k ⟨ms, ts⟩ ∧ ms ≠ [] ∧ Slot.Row F L k sorts rest := by
  rw [Slot.Row, List.forall₂_cons_left_iff]
  constructor
  · rintro ⟨s, rest, hs, hrest, rfl⟩
    cases s with
    | separated ms ts =>
      obtain ⟨hm, ht, harity⟩ := stands_nonempty.1 hs
      exact ⟨ms, ts, rest, rfl, ⟨hm, ht, .inr harity⟩, (fun h => by rw [h] at harity; cases harity), hrest⟩
    | _ => exact hs.admits.elim
  · rintro ⟨ms, ts, rest, rfl, h, hne, hrest⟩
    have harity : ms.length = ts.length + 1 := h.arity.resolve_left (fun h => hne h.1)
    exact ⟨.separated ms ts, rest, stands_nonempty.2 ⟨h.members, h.separators, harity⟩, hrest, rfl⟩

end Slot

/-! ## Views -/

theorem Node.kind_of_view? {α : Type} [NodeView α] {view : α} (h : n.view? α = some view) :
    n.kind = NodeView.kind α := by
  by_contra hk
  rw [Node.view?, if_neg hk] at h
  cases h

theorem Node.view?_eq_none {α : Type} [NodeView α] (h : n.kind ≠ NodeView.kind α) : n.view? α = none := if_neg h

theorem Node.view?_eq {α : Type} [NodeView α] {view : α} (hk : n.kind = NodeView.kind α)
    (hs : n.slots = NodeView.toSlots view) : n.view? α = some view := by
  rw [Node.view?, if_pos hk, hs, NodeView.ofSlots?_toSlots]

namespace Node.Stands

theorem rowOf {kind : NodeKind} (h : n.Stands F L c k) (hk : n.kind = kind) : Slot.Row F L k kind.sorts n.slots :=
  hk ▸ h.row

theorem sourceUnit (h : n.Stands F L c k) (hk : n.kind = .sourceUnit) :
    ∃ view : SourceUnit, n.view? SourceUnit = some view ∧ n.slots = NodeView.toSlots view ∧
      (∀ m ∈ view.elements, m.Stands F L .element k) ∧ view.endOfFile.Meets L k := by
  obtain ⟨elements, _, hs, helements, hrow⟩ := Slot.row_list.1 (h.rowOf hk)
  obtain ⟨endOfFile, _, rfl, hendOfFile, hrow⟩ := Slot.row_token.1 hrow
  obtain rfl := Slot.row_nil_iff.1 hrow
  exact ⟨⟨elements, endOfFile⟩, Node.view?_eq hk hs, hs, helements, hendOfFile⟩

theorem functionDeclaration (h : n.Stands F L c k) (hk : n.kind = .functionDeclaration) :
    ∃ view : FunctionDeclaration, n.view? FunctionDeclaration = some view ∧ n.slots = NodeView.toSlots view ∧
      (∀ t, view.exported = some t → t.Meets L k) ∧ (∀ t, view.declared = some t → t.Meets L k) ∧
      view.keyword.Meets L k ∧ view.name.Meets L k ∧ view.signature.Stands F L (.only .callSignature) k ∧
      (∀ m, view.block = some m → m.Stands F L (.only .block) k) ∧ (∀ t, view.semicolon = some t → t.Meets L k) := by
  obtain ⟨exported, _, hs, hexported, hrow⟩ := Slot.row_optionalToken.1 (h.rowOf hk)
  obtain ⟨declared, _, rfl, hdeclared, hrow⟩ := Slot.row_optionalToken.1 hrow
  obtain ⟨keyword, _, rfl, hkeyword, hrow⟩ := Slot.row_token.1 hrow
  obtain ⟨name, _, rfl, hname, hrow⟩ := Slot.row_token.1 hrow
  obtain ⟨signature, _, rfl, hsignature, hrow⟩ := Slot.row_node.1 hrow
  obtain ⟨block, _, rfl, hblock, hrow⟩ := Slot.row_optionalNode.1 hrow
  obtain ⟨semicolon, _, rfl, hsemicolon, hrow⟩ := Slot.row_optionalToken.1 hrow
  obtain rfl := Slot.row_nil_iff.1 hrow
  exact ⟨⟨exported, declared, keyword, name, signature, block, semicolon⟩, Node.view?_eq hk hs, hs, hexported,
    hdeclared, hkeyword, hname, hsignature, hblock, hsemicolon⟩

theorem moduleDeclaration (h : n.Stands F L c k) (hk : n.kind = .moduleDeclaration) :
    ∃ view : ModuleDeclaration, n.view? ModuleDeclaration = some view ∧ n.slots = NodeView.toSlots view ∧
      (∀ t, view.exported = some t → t.Meets L k) ∧ (∀ t, view.declared = some t → t.Meets L k) ∧
      view.keyword.Meets L k ∧ view.name.Stands F L .moduleName k ∧ view.openBrace.Meets L k ∧
      (∀ m ∈ view.elements, m.Stands F L .element k) ∧ view.closeBrace.Meets L k := by
  obtain ⟨exported, _, hs, hexported, hrow⟩ := Slot.row_optionalToken.1 (h.rowOf hk)
  obtain ⟨declared, _, rfl, hdeclared, hrow⟩ := Slot.row_optionalToken.1 hrow
  obtain ⟨keyword, _, rfl, hkeyword, hrow⟩ := Slot.row_token.1 hrow
  obtain ⟨name, _, rfl, hname, hrow⟩ := Slot.row_node.1 hrow
  obtain ⟨openBrace, _, rfl, hopenBrace, hrow⟩ := Slot.row_token.1 hrow
  obtain ⟨elements, _, rfl, helements, hrow⟩ := Slot.row_list.1 hrow
  obtain ⟨closeBrace, _, rfl, hcloseBrace, hrow⟩ := Slot.row_token.1 hrow
  obtain rfl := Slot.row_nil_iff.1 hrow
  exact ⟨⟨exported, declared, keyword, name, openBrace, elements, closeBrace⟩, Node.view?_eq hk hs, hs, hexported,
    hdeclared, hkeyword, hname, hopenBrace, helements, hcloseBrace⟩

theorem classDeclaration (h : n.Stands F L c k) (hk : n.kind = .classDeclaration) :
    ∃ view : ClassDeclaration, n.view? ClassDeclaration = some view ∧ n.slots = NodeView.toSlots view ∧
      (∀ t, view.exported = some t → t.Meets L k) ∧ (∀ t, view.declared = some t → t.Meets L k) ∧
      view.keyword.Meets L k ∧ view.name.Meets L k ∧
      (∀ m, view.base = some m → m.Stands F L (.only .extendsClause) k) ∧
      (∀ m, view.implemented = some m → m.Stands F L (.only .implementsClause) k) ∧ view.openBrace.Meets L k ∧
      (∀ m ∈ view.members, m.Stands F L .classMember k) ∧ view.closeBrace.Meets L k := by
  obtain ⟨exported, _, hs, hexported, hrow⟩ := Slot.row_optionalToken.1 (h.rowOf hk)
  obtain ⟨declared, _, rfl, hdeclared, hrow⟩ := Slot.row_optionalToken.1 hrow
  obtain ⟨keyword, _, rfl, hkeyword, hrow⟩ := Slot.row_token.1 hrow
  obtain ⟨name, _, rfl, hname, hrow⟩ := Slot.row_token.1 hrow
  obtain ⟨base, _, rfl, hbase, hrow⟩ := Slot.row_optionalNode.1 hrow
  obtain ⟨implemented, _, rfl, himplemented, hrow⟩ := Slot.row_optionalNode.1 hrow
  obtain ⟨openBrace, _, rfl, hopenBrace, hrow⟩ := Slot.row_token.1 hrow
  obtain ⟨members, _, rfl, hmembers, hrow⟩ := Slot.row_list.1 hrow
  obtain ⟨closeBrace, _, rfl, hcloseBrace, hrow⟩ := Slot.row_token.1 hrow
  obtain rfl := Slot.row_nil_iff.1 hrow
  exact ⟨⟨exported, declared, keyword, name, base, implemented, openBrace, members, closeBrace⟩,
    Node.view?_eq hk hs, hs, hexported, hdeclared, hkeyword, hname, hbase, himplemented, hopenBrace, hmembers,
    hcloseBrace⟩

theorem enumDeclaration (h : n.Stands F L c k) (hk : n.kind = .enumDeclaration) :
    ∃ view : EnumDeclaration, n.view? EnumDeclaration = some view ∧ n.slots = NodeView.toSlots view ∧
      (∀ t, view.exported = some t → t.Meets L k) ∧ (∀ t, view.declared = some t → t.Meets L k) ∧
      view.keyword.Meets L k ∧ view.name.Meets L k ∧ view.openBrace.Meets L k ∧
      view.members.Stands F L .enumMember k ∧ view.closeBrace.Meets L k := by
  obtain ⟨exported, _, hs, hexported, hrow⟩ := Slot.row_optionalToken.1 (h.rowOf hk)
  obtain ⟨declared, _, rfl, hdeclared, hrow⟩ := Slot.row_optionalToken.1 hrow
  obtain ⟨keyword, _, rfl, hkeyword, hrow⟩ := Slot.row_token.1 hrow
  obtain ⟨name, _, rfl, hname, hrow⟩ := Slot.row_token.1 hrow
  obtain ⟨openBrace, _, rfl, hopenBrace, hrow⟩ := Slot.row_token.1 hrow
  obtain ⟨members, membersSeparators, _, rfl, hmembers, hrow⟩ := Slot.row_separated.1 hrow
  obtain ⟨closeBrace, _, rfl, hcloseBrace, hrow⟩ := Slot.row_token.1 hrow
  obtain rfl := Slot.row_nil_iff.1 hrow
  exact ⟨⟨exported, declared, keyword, name, openBrace, ⟨members, membersSeparators⟩, closeBrace⟩,
    Node.view?_eq hk hs, hs, hexported, hdeclared, hkeyword, hname, hopenBrace, hmembers, hcloseBrace⟩

theorem enumElement (h : n.Stands F L c k) (hk : n.kind = .enumElement) :
    ∃ view : EnumElement, n.view? EnumElement = some view ∧ n.slots = NodeView.toSlots view ∧ view.name.Meets L k ∧
      (∀ m, view.value = some m → m.Stands F L (.only .equalsValueClause) k) := by
  obtain ⟨name, _, hs, hname, hrow⟩ := Slot.row_token.1 (h.rowOf hk)
  obtain ⟨value, _, rfl, hvalue, hrow⟩ := Slot.row_optionalNode.1 hrow
  obtain rfl := Slot.row_nil_iff.1 hrow
  exact ⟨⟨name, value⟩, Node.view?_eq hk hs, hs, hname, hvalue⟩

theorem extendsClause (h : n.Stands F L c k) (hk : n.kind = .extendsClause) :
    ∃ view : ExtendsClause, n.view? ExtendsClause = some view ∧ n.slots = NodeView.toSlots view ∧
      view.keyword.Meets L k ∧ view.names.Stands F L .name k ∧ view.names.members ≠ [] := by
  obtain ⟨keyword, _, hs, hkeyword, hrow⟩ := Slot.row_token.1 (h.rowOf hk)
  obtain ⟨names, namesSeparators, _, rfl, hnames, hne, hrow⟩ := Slot.row_nonempty.1 hrow
  obtain rfl := Slot.row_nil_iff.1 hrow
  exact ⟨⟨keyword, ⟨names, namesSeparators⟩⟩, Node.view?_eq hk hs, hs, hkeyword, hnames, hne⟩

theorem constructorDeclaration (h : n.Stands F L c k) (hk : n.kind = .constructorDeclaration) :
    ∃ view : ConstructorDeclaration, n.view? ConstructorDeclaration = some view ∧ n.slots = NodeView.toSlots view ∧
      view.keyword.Meets L k ∧ view.parameters.Stands F L (.only .parameterList) k ∧
      (∀ m, view.block = some m → m.Stands F L (.only .block) k) ∧ (∀ t, view.semicolon = some t → t.Meets L k) := by
  obtain ⟨keyword, _, hs, hkeyword, hrow⟩ := Slot.row_token.1 (h.rowOf hk)
  obtain ⟨parameters, _, rfl, hparameters, hrow⟩ := Slot.row_node.1 hrow
  obtain ⟨block, _, rfl, hblock, hrow⟩ := Slot.row_optionalNode.1 hrow
  obtain ⟨semicolon, _, rfl, hsemicolon, hrow⟩ := Slot.row_optionalToken.1 hrow
  obtain rfl := Slot.row_nil_iff.1 hrow
  exact ⟨⟨keyword, parameters, block, semicolon⟩, Node.view?_eq hk hs, hs, hkeyword, hparameters, hblock, hsemicolon⟩

theorem memberFunction (h : n.Stands F L c k) (hk : n.kind = .memberFunctionDeclaration) :
    ∃ view : MemberFunction, n.view? MemberFunction = some view ∧ n.slots = NodeView.toSlots view ∧
      (∀ t, view.access = some t → t.Meets L k) ∧ (∀ t, view.isStatic = some t → t.Meets L k) ∧ view.name.Meets L k ∧
      view.signature.Stands F L (.only .callSignature) k ∧
      (∀ m, view.block = some m → m.Stands F L (.only .block) k) ∧ (∀ t, view.semicolon = some t → t.Meets L k) := by
  obtain ⟨access, _, hs, haccess, hrow⟩ := Slot.row_optionalToken.1 (h.rowOf hk)
  obtain ⟨isStatic, _, rfl, hisStatic, hrow⟩ := Slot.row_optionalToken.1 hrow
  obtain ⟨name, _, rfl, hname, hrow⟩ := Slot.row_token.1 hrow
  obtain ⟨signature, _, rfl, hsignature, hrow⟩ := Slot.row_node.1 hrow
  obtain ⟨block, _, rfl, hblock, hrow⟩ := Slot.row_optionalNode.1 hrow
  obtain ⟨semicolon, _, rfl, hsemicolon, hrow⟩ := Slot.row_optionalToken.1 hrow
  obtain rfl := Slot.row_nil_iff.1 hrow
  exact ⟨⟨access, isStatic, name, signature, block, semicolon⟩, Node.view?_eq hk hs, hs, haccess, hisStatic, hname,
    hsignature, hblock, hsemicolon⟩

theorem memberVariable (h : n.Stands F L c k) (hk : n.kind = .memberVariableDeclaration) :
    ∃ view : MemberVariable, n.view? MemberVariable = some view ∧ n.slots = NodeView.toSlots view ∧
      (∀ t, view.access = some t → t.Meets L k) ∧ (∀ t, view.isStatic = some t → t.Meets L k) ∧
      view.declarator.Stands F L (.only .variableDeclarator) k ∧ view.semicolon.Meets L k := by
  obtain ⟨access, _, hs, haccess, hrow⟩ := Slot.row_optionalToken.1 (h.rowOf hk)
  obtain ⟨isStatic, _, rfl, hisStatic, hrow⟩ := Slot.row_optionalToken.1 hrow
  obtain ⟨declarator, _, rfl, hdeclarator, hrow⟩ := Slot.row_node.1 hrow
  obtain ⟨semicolon, _, rfl, hsemicolon, hrow⟩ := Slot.row_token.1 hrow
  obtain rfl := Slot.row_nil_iff.1 hrow
  exact ⟨⟨access, isStatic, declarator, semicolon⟩, Node.view?_eq hk hs, hs, haccess, hisStatic, hdeclarator,
    hsemicolon⟩

theorem memberGetter (h : n.Stands F L c k) (hk : n.kind = .getMemberAccessorDeclaration) :
    ∃ view : MemberGetter, n.view? MemberGetter = some view ∧ n.slots = NodeView.toSlots view ∧
      (∀ t, view.access = some t → t.Meets L k) ∧ (∀ t, view.isStatic = some t → t.Meets L k) ∧
      view.keyword.Meets L k ∧ view.name.Meets L k ∧ view.parameters.Stands F L (.only .parameterList) k ∧
      (∀ m, view.resultType = some m → m.Stands F L (.only .typeClause) k) ∧
      view.block.Stands F L (.only .block) k := by
  obtain ⟨access, _, hs, haccess, hrow⟩ := Slot.row_optionalToken.1 (h.rowOf hk)
  obtain ⟨isStatic, _, rfl, hisStatic, hrow⟩ := Slot.row_optionalToken.1 hrow
  obtain ⟨keyword, _, rfl, hkeyword, hrow⟩ := Slot.row_token.1 hrow
  obtain ⟨name, _, rfl, hname, hrow⟩ := Slot.row_token.1 hrow
  obtain ⟨parameters, _, rfl, hparameters, hrow⟩ := Slot.row_node.1 hrow
  obtain ⟨resultType, _, rfl, hresultType, hrow⟩ := Slot.row_optionalNode.1 hrow
  obtain ⟨block, _, rfl, hblock, hrow⟩ := Slot.row_node.1 hrow
  obtain rfl := Slot.row_nil_iff.1 hrow
  exact ⟨⟨access, isStatic, keyword, name, parameters, resultType, block⟩, Node.view?_eq hk hs, hs, haccess,
    hisStatic, hkeyword, hname, hparameters, hresultType, hblock⟩

theorem memberSetter (h : n.Stands F L c k) (hk : n.kind = .setMemberAccessorDeclaration) :
    ∃ view : MemberSetter, n.view? MemberSetter = some view ∧ n.slots = NodeView.toSlots view ∧
      (∀ t, view.access = some t → t.Meets L k) ∧ (∀ t, view.isStatic = some t → t.Meets L k) ∧
      view.keyword.Meets L k ∧ view.name.Meets L k ∧ view.parameters.Stands F L (.only .parameterList) k ∧
      view.block.Stands F L (.only .block) k := by
  obtain ⟨access, _, hs, haccess, hrow⟩ := Slot.row_optionalToken.1 (h.rowOf hk)
  obtain ⟨isStatic, _, rfl, hisStatic, hrow⟩ := Slot.row_optionalToken.1 hrow
  obtain ⟨keyword, _, rfl, hkeyword, hrow⟩ := Slot.row_token.1 hrow
  obtain ⟨name, _, rfl, hname, hrow⟩ := Slot.row_token.1 hrow
  obtain ⟨parameters, _, rfl, hparameters, hrow⟩ := Slot.row_node.1 hrow
  obtain ⟨block, _, rfl, hblock, hrow⟩ := Slot.row_node.1 hrow
  obtain rfl := Slot.row_nil_iff.1 hrow
  exact ⟨⟨access, isStatic, keyword, name, parameters, block⟩, Node.view?_eq hk hs, hs, haccess, hisStatic,
    hkeyword, hname, hparameters, hblock⟩

theorem callSignature (h : n.Stands F L c k) (hk : n.kind = .callSignature) :
    ∃ view : CallSignature, n.view? CallSignature = some view ∧ n.slots = NodeView.toSlots view ∧
      view.parameters.Stands F L (.only .parameterList) k ∧
      (∀ m, view.resultType = some m → m.Stands F L (.only .typeClause) k) := by
  obtain ⟨parameters, _, hs, hparameters, hrow⟩ := Slot.row_node.1 (h.rowOf hk)
  obtain ⟨resultType, _, rfl, hresultType, hrow⟩ := Slot.row_optionalNode.1 hrow
  obtain rfl := Slot.row_nil_iff.1 hrow
  exact ⟨⟨parameters, resultType⟩, Node.view?_eq hk hs, hs, hparameters, hresultType⟩

theorem parameterList (h : n.Stands F L c k) (hk : n.kind = .parameterList) :
    ∃ view : ParameterList, n.view? ParameterList = some view ∧ n.slots = NodeView.toSlots view ∧
      view.openParen.Meets L k ∧ view.parameters.Stands F L (.only .parameter) k ∧ view.closeParen.Meets L k := by
  obtain ⟨openParen, _, hs, hopenParen, hrow⟩ := Slot.row_token.1 (h.rowOf hk)
  obtain ⟨parameters, parametersSeparators, _, rfl, hparameters, hrow⟩ := Slot.row_separated.1 hrow
  obtain ⟨closeParen, _, rfl, hcloseParen, hrow⟩ := Slot.row_token.1 hrow
  obtain rfl := Slot.row_nil_iff.1 hrow
  exact ⟨⟨openParen, ⟨parameters, parametersSeparators⟩, closeParen⟩, Node.view?_eq hk hs, hs, hopenParen,
    hparameters, hcloseParen⟩

theorem parameter (h : n.Stands F L c k) (hk : n.kind = .parameter) :
    ∃ view : Parameter, n.view? Parameter = some view ∧ n.slots = NodeView.toSlots view ∧
      (∀ t, view.dots = some t → t.Meets L k) ∧ (∀ t, view.access = some t → t.Meets L k) ∧ view.name.Meets L k ∧
      (∀ t, view.question = some t → t.Meets L k) ∧ (∀ m, view.type = some m → m.Stands F L (.only .typeClause) k) ∧
      (∀ m, view.value = some m → m.Stands F L (.only .equalsValueClause) k) := by
  obtain ⟨dots, _, hs, hdots, hrow⟩ := Slot.row_optionalToken.1 (h.rowOf hk)
  obtain ⟨access, _, rfl, haccess, hrow⟩ := Slot.row_optionalToken.1 hrow
  obtain ⟨name, _, rfl, hname, hrow⟩ := Slot.row_token.1 hrow
  obtain ⟨question, _, rfl, hquestion, hrow⟩ := Slot.row_optionalToken.1 hrow
  obtain ⟨type, _, rfl, htype, hrow⟩ := Slot.row_optionalNode.1 hrow
  obtain ⟨value, _, rfl, hvalue, hrow⟩ := Slot.row_optionalNode.1 hrow
  obtain rfl := Slot.row_nil_iff.1 hrow
  exact ⟨⟨dots, access, name, question, type, value⟩, Node.view?_eq hk hs, hs, hdots, haccess, hname, hquestion,
    htype, hvalue⟩

theorem variableStatement (h : n.Stands F L c k) (hk : n.kind = .variableStatement) :
    ∃ view : VariableStatement, n.view? VariableStatement = some view ∧ n.slots = NodeView.toSlots view ∧
      (∀ t, view.exported = some t → t.Meets L k) ∧ (∀ t, view.declared = some t → t.Meets L k) ∧
      view.declaration.Stands F L (.only .variableDeclaration) k ∧ view.semicolon.Meets L k := by
  obtain ⟨exported, _, hs, hexported, hrow⟩ := Slot.row_optionalToken.1 (h.rowOf hk)
  obtain ⟨declared, _, rfl, hdeclared, hrow⟩ := Slot.row_optionalToken.1 hrow
  obtain ⟨declaration, _, rfl, hdeclaration, hrow⟩ := Slot.row_node.1 hrow
  obtain ⟨semicolon, _, rfl, hsemicolon, hrow⟩ := Slot.row_token.1 hrow
  obtain rfl := Slot.row_nil_iff.1 hrow
  exact ⟨⟨exported, declared, declaration, semicolon⟩, Node.view?_eq hk hs, hs, hexported, hdeclared, hdeclaration,
    hsemicolon⟩

theorem variableDeclaration (h : n.Stands F L c k) (hk : n.kind = .variableDeclaration) :
    ∃ view : VariableDeclaration, n.view? VariableDeclaration = some view ∧ n.slots = NodeView.toSlots view ∧
      view.keyword.Meets L k ∧
      view.declarators.Stands F L (.only .variableDeclarator) k ∧ view.declarators.members ≠ [] := by
  obtain ⟨keyword, _, hs, hkeyword, hrow⟩ := Slot.row_token.1 (h.rowOf hk)
  obtain ⟨declarators, declaratorsSeparators, _, rfl, hdeclarators, hne, hrow⟩ := Slot.row_nonempty.1 hrow
  obtain rfl := Slot.row_nil_iff.1 hrow
  exact ⟨⟨keyword, ⟨declarators, declaratorsSeparators⟩⟩, Node.view?_eq hk hs, hs, hkeyword, hdeclarators, hne⟩

theorem variableDeclarator (h : n.Stands F L c k) (hk : n.kind = .variableDeclarator) :
    ∃ view : VariableDeclarator, n.view? VariableDeclarator = some view ∧ n.slots = NodeView.toSlots view ∧
      view.name.Meets L k ∧ (∀ m, view.type = some m → m.Stands F L (.only .typeClause) k) ∧
      (∀ m, view.value = some m → m.Stands F L (.only .equalsValueClause) k) := by
  obtain ⟨name, _, hs, hname, hrow⟩ := Slot.row_token.1 (h.rowOf hk)
  obtain ⟨type, _, rfl, htype, hrow⟩ := Slot.row_optionalNode.1 hrow
  obtain ⟨value, _, rfl, hvalue, hrow⟩ := Slot.row_optionalNode.1 hrow
  obtain rfl := Slot.row_nil_iff.1 hrow
  exact ⟨⟨name, type, value⟩, Node.view?_eq hk hs, hs, hname, htype, hvalue⟩

theorem equalsValueClause (h : n.Stands F L c k) (hk : n.kind = .equalsValueClause) :
    ∃ view : EqualsValueClause, n.view? EqualsValueClause = some view ∧ n.slots = NodeView.toSlots view ∧
      view.equals.Meets L k ∧ view.value.Stands F L .expression k := by
  obtain ⟨equals, _, hs, hequals, hrow⟩ := Slot.row_token.1 (h.rowOf hk)
  obtain ⟨value, _, rfl, hvalue, hrow⟩ := Slot.row_node.1 hrow
  obtain rfl := Slot.row_nil_iff.1 hrow
  exact ⟨⟨equals, value⟩, Node.view?_eq hk hs, hs, hequals, hvalue⟩

theorem block (h : n.Stands F L c k) (hk : n.kind = .block) :
    ∃ view : Block, n.view? Block = some view ∧ n.slots = NodeView.toSlots view ∧ view.openBrace.Meets L k ∧
      (∀ m ∈ view.statements, m.Stands F L .statement k) ∧ view.closeBrace.Meets L k := by
  obtain ⟨openBrace, _, hs, hopenBrace, hrow⟩ := Slot.row_token.1 (h.rowOf hk)
  obtain ⟨statements, _, rfl, hstatements, hrow⟩ := Slot.row_list.1 hrow
  obtain ⟨closeBrace, _, rfl, hcloseBrace, hrow⟩ := Slot.row_token.1 hrow
  obtain rfl := Slot.row_nil_iff.1 hrow
  exact ⟨⟨openBrace, statements, closeBrace⟩, Node.view?_eq hk hs, hs, hopenBrace, hstatements, hcloseBrace⟩

theorem expressionStatement (h : n.Stands F L c k) (hk : n.kind = .expressionStatement) :
    ∃ view : ExpressionStatement, n.view? ExpressionStatement = some view ∧ n.slots = NodeView.toSlots view ∧
      view.expression.Stands F L .expression k ∧ view.semicolon.Meets L k := by
  obtain ⟨expression, _, hs, hexpression, hrow⟩ := Slot.row_node.1 (h.rowOf hk)
  obtain ⟨semicolon, _, rfl, hsemicolon, hrow⟩ := Slot.row_token.1 hrow
  obtain rfl := Slot.row_nil_iff.1 hrow
  exact ⟨⟨expression, semicolon⟩, Node.view?_eq hk hs, hs, hexpression, hsemicolon⟩

theorem thisExpression (h : n.Stands F L c k) (hk : n.kind = .thisExpression) :
    ∃ view : ThisExpression, n.view? ThisExpression = some view ∧ n.slots = NodeView.toSlots view ∧
      view.keyword.Meets L k := by
  obtain ⟨keyword, _, hs, hkeyword, hrow⟩ := Slot.row_token.1 (h.rowOf hk)
  obtain rfl := Slot.row_nil_iff.1 hrow
  exact ⟨⟨keyword⟩, Node.view?_eq hk hs, hs, hkeyword⟩

theorem superExpression (h : n.Stands F L c k) (hk : n.kind = .superExpression) :
    ∃ view : SuperExpression, n.view? SuperExpression = some view ∧ n.slots = NodeView.toSlots view ∧
      view.keyword.Meets L k := by
  obtain ⟨keyword, _, hs, hkeyword, hrow⟩ := Slot.row_token.1 (h.rowOf hk)
  obtain rfl := Slot.row_nil_iff.1 hrow
  exact ⟨⟨keyword⟩, Node.view?_eq hk hs, hs, hkeyword⟩

theorem memberAccess (h : n.Stands F L c k) (hk : n.kind = .memberAccessExpression) :
    ∃ view : MemberAccess, n.view? MemberAccess = some view ∧ n.slots = NodeView.toSlots view ∧
      view.expression.Stands F L .expression k ∧ view.dot.Meets L k ∧ view.name.Meets L k := by
  obtain ⟨expression, _, hs, hexpression, hrow⟩ := Slot.row_node.1 (h.rowOf hk)
  obtain ⟨dot, _, rfl, hdot, hrow⟩ := Slot.row_token.1 hrow
  obtain ⟨name, _, rfl, hname, hrow⟩ := Slot.row_token.1 hrow
  obtain rfl := Slot.row_nil_iff.1 hrow
  exact ⟨⟨expression, dot, name⟩, Node.view?_eq hk hs, hs, hexpression, hdot, hname⟩

theorem invocation (h : n.Stands F L c k) (hk : n.kind = .invocationExpression) :
    ∃ view : Invocation, n.view? Invocation = some view ∧ n.slots = NodeView.toSlots view ∧
      view.callee.Stands F L .expression k ∧ view.arguments.Stands F L (.only .argumentList) k := by
  obtain ⟨callee, _, hs, hcallee, hrow⟩ := Slot.row_node.1 (h.rowOf hk)
  obtain ⟨arguments, _, rfl, harguments, hrow⟩ := Slot.row_node.1 hrow
  obtain rfl := Slot.row_nil_iff.1 hrow
  exact ⟨⟨callee, arguments⟩, Node.view?_eq hk hs, hs, hcallee, harguments⟩

theorem argumentList (h : n.Stands F L c k) (hk : n.kind = .argumentList) :
    ∃ view : ArgumentList, n.view? ArgumentList = some view ∧ n.slots = NodeView.toSlots view ∧
      view.openParen.Meets L k ∧ view.arguments.Stands F L .expression k ∧ view.closeParen.Meets L k := by
  obtain ⟨openParen, _, hs, hopenParen, hrow⟩ := Slot.row_token.1 (h.rowOf hk)
  obtain ⟨arguments, argumentsSeparators, _, rfl, harguments, hrow⟩ := Slot.row_separated.1 hrow
  obtain ⟨closeParen, _, rfl, hcloseParen, hrow⟩ := Slot.row_token.1 hrow
  obtain rfl := Slot.row_nil_iff.1 hrow
  exact ⟨⟨openParen, ⟨arguments, argumentsSeparators⟩, closeParen⟩, Node.view?_eq hk hs, hs, hopenParen,
    harguments, hcloseParen⟩

theorem functionExpression (h : n.Stands F L c k) (hk : n.kind = .functionExpression) :
    ∃ view : FunctionExpression, n.view? FunctionExpression = some view ∧ n.slots = NodeView.toSlots view ∧
      view.keyword.Meets L k ∧ (∀ t, view.name = some t → t.Meets L k) ∧
      view.signature.Stands F L (.only .callSignature) k ∧ view.block.Stands F L (.only .block) k := by
  obtain ⟨keyword, _, hs, hkeyword, hrow⟩ := Slot.row_token.1 (h.rowOf hk)
  obtain ⟨name, _, rfl, hname, hrow⟩ := Slot.row_optionalToken.1 hrow
  obtain ⟨signature, _, rfl, hsignature, hrow⟩ := Slot.row_node.1 hrow
  obtain ⟨block, _, rfl, hblock, hrow⟩ := Slot.row_node.1 hrow
  obtain rfl := Slot.row_nil_iff.1 hrow
  exact ⟨⟨keyword, name, signature, block⟩, Node.view?_eq hk hs, hs, hkeyword, hname, hsignature, hblock⟩

theorem objectGetter (h : n.Stands F L c k) (hk : n.kind = .getAccessorPropertyAssignment) :
    ∃ view : ObjectGetter, n.view? ObjectGetter = some view ∧ n.slots = NodeView.toSlots view ∧
      view.keyword.Meets L k ∧ view.name.Meets L k ∧ view.openParen.Meets L k ∧ view.closeParen.Meets L k ∧
      (∀ m, view.resultType = some m → m.Stands F L (.only .typeClause) k) ∧
      view.block.Stands F L (.only .block) k := by
  obtain ⟨keyword, _, hs, hkeyword, hrow⟩ := Slot.row_token.1 (h.rowOf hk)
  obtain ⟨name, _, rfl, hname, hrow⟩ := Slot.row_token.1 hrow
  obtain ⟨openParen, _, rfl, hopenParen, hrow⟩ := Slot.row_token.1 hrow
  obtain ⟨closeParen, _, rfl, hcloseParen, hrow⟩ := Slot.row_token.1 hrow
  obtain ⟨resultType, _, rfl, hresultType, hrow⟩ := Slot.row_optionalNode.1 hrow
  obtain ⟨block, _, rfl, hblock, hrow⟩ := Slot.row_node.1 hrow
  obtain rfl := Slot.row_nil_iff.1 hrow
  exact ⟨⟨keyword, name, openParen, closeParen, resultType, block⟩, Node.view?_eq hk hs, hs, hkeyword, hname,
    hopenParen, hcloseParen, hresultType, hblock⟩

theorem objectSetter (h : n.Stands F L c k) (hk : n.kind = .setAccessorPropertyAssignment) :
    ∃ view : ObjectSetter, n.view? ObjectSetter = some view ∧ n.slots = NodeView.toSlots view ∧
      view.keyword.Meets L k ∧ view.name.Meets L k ∧ view.openParen.Meets L k ∧
      view.parameter.Stands F L (.only .parameter) k ∧ view.closeParen.Meets L k ∧
      view.block.Stands F L (.only .block) k := by
  obtain ⟨keyword, _, hs, hkeyword, hrow⟩ := Slot.row_token.1 (h.rowOf hk)
  obtain ⟨name, _, rfl, hname, hrow⟩ := Slot.row_token.1 hrow
  obtain ⟨openParen, _, rfl, hopenParen, hrow⟩ := Slot.row_token.1 hrow
  obtain ⟨parameter, _, rfl, hparameter, hrow⟩ := Slot.row_node.1 hrow
  obtain ⟨closeParen, _, rfl, hcloseParen, hrow⟩ := Slot.row_token.1 hrow
  obtain ⟨block, _, rfl, hblock, hrow⟩ := Slot.row_node.1 hrow
  obtain rfl := Slot.row_nil_iff.1 hrow
  exact ⟨⟨keyword, name, openParen, parameter, closeParen, block⟩, Node.view?_eq hk hs, hs, hkeyword, hname,
    hopenParen, hparameter, hcloseParen, hblock⟩

theorem simpleArrow (h : n.Stands F L c k) (hk : n.kind = .simpleArrowFunctionExpression) :
    ∃ view : SimpleArrow, n.view? SimpleArrow = some view ∧ n.slots = NodeView.toSlots view ∧
      view.parameter.Meets L k ∧ view.arrow.Meets L k ∧ view.body.Stands F L .body k := by
  obtain ⟨parameter, _, hs, hparameter, hrow⟩ := Slot.row_token.1 (h.rowOf hk)
  obtain ⟨arrow, _, rfl, harrow, hrow⟩ := Slot.row_token.1 hrow
  obtain ⟨body, _, rfl, hbody, hrow⟩ := Slot.row_node.1 hrow
  obtain rfl := Slot.row_nil_iff.1 hrow
  exact ⟨⟨parameter, arrow, body⟩, Node.view?_eq hk hs, hs, hparameter, harrow, hbody⟩

theorem parenthesizedArrow (h : n.Stands F L c k) (hk : n.kind = .parenthesizedArrowFunctionExpression) :
    ∃ view : ParenthesizedArrow, n.view? ParenthesizedArrow = some view ∧ n.slots = NodeView.toSlots view ∧
      view.signature.Stands F L (.only .callSignature) k ∧ view.arrow.Meets L k ∧ view.body.Stands F L .body k := by
  obtain ⟨signature, _, hs, hsignature, hrow⟩ := Slot.row_node.1 (h.rowOf hk)
  obtain ⟨arrow, _, rfl, harrow, hrow⟩ := Slot.row_token.1 hrow
  obtain ⟨body, _, rfl, hbody, hrow⟩ := Slot.row_node.1 hrow
  obtain rfl := Slot.row_nil_iff.1 hrow
  exact ⟨⟨signature, arrow, body⟩, Node.view?_eq hk hs, hs, hsignature, harrow, hbody⟩

theorem cast (h : n.Stands F L c k) (hk : n.kind = .castExpression) :
    ∃ view : Cast, n.view? Cast = some view ∧ n.slots = NodeView.toSlots view ∧ view.lessThan.Meets L k ∧
      view.type.Stands F L .type k ∧ view.greaterThan.Meets L k ∧ view.expression.Stands F L .expression k := by
  obtain ⟨lessThan, _, hs, hlessThan, hrow⟩ := Slot.row_token.1 (h.rowOf hk)
  obtain ⟨type, _, rfl, htype, hrow⟩ := Slot.row_node.1 hrow
  obtain ⟨greaterThan, _, rfl, hgreaterThan, hrow⟩ := Slot.row_token.1 hrow
  obtain ⟨expression, _, rfl, hexpression, hrow⟩ := Slot.row_node.1 hrow
  obtain rfl := Slot.row_nil_iff.1 hrow
  exact ⟨⟨lessThan, type, greaterThan, expression⟩, Node.view?_eq hk hs, hs, hlessThan, htype, hgreaterThan,
    hexpression⟩

end Node.Stands

end Downlevel
