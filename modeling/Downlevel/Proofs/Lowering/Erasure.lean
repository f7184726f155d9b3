import Downlevel.Proofs.Lowering.Context
/-!
# Proofs.Lowering.Erasure — what loses its types and modifiers

An ambient variable leaves nothing; any other variable, and the expression of a cast, stays what it was.
-/
namespace Downlevel

theorem Token.leadingWithout_meets {L : Demand} {k : Nat} {modifier : Token} {next : TriviaList}
    (h : modifier.Meets L k) (hnext : next.Meets L) : (modifier.leadingWithout next).Meets L := by
  unfold Token.leadingWithout
  dsimp only
  split
  · exact (h.leading.append h.trailing).append hnext
  · exact h.leading.append hnext

theorem Token.leadingWithoutExport_meets {L : Demand} {k : Nat} {word : Token} {exported : Option Token}
    (h : word.Meets L k) (hexported : ∀ t, exported = some t → t.Meets L k) :
    (word.leadingWithoutExport exported).Meets L := by
  cases exported with
  | none => exact h.leading
  | some t => exact Token.leadingWithout_meets (hexported t rfl) h.leading

namespace LoweringContext

variable {c : LoweringContext} {L : Demand} {k levels : Nat} {cl : NodeClass} {n : Node}

/-- **A variable that is not ambient stays one.** -/
theorem lowers_variableStatement (h : c.Sound L levels) (hn : n.Given L cl k)
    (hk : n.kind = .variableStatement) : LowersTo L k (levels + 1) n (c.variableStatement n) := by
  obtain ⟨v, hv, hs, hexported, -, hdeclaration, hsemicolon⟩ := hn.variableStatement hk
  have hrequired : n.kind.keepsRequired = true := by rw [hk]; rfl
  have hone : n.kind.isSpread = false := by rw [hk]; rfl
  have hleaves : n.leavesNothing = v.declared.isSome := by
    simp [Node.leavesNothing, hk, Node.has_eq, hs, NodeView.toSlots]
  have hparts : n.loweredParts = if v.declared.isSome then [] else [v.declaration] := by
    unfold Node.loweredParts
    rw [hk]
    exact Node.partsAs_eq hv _
  unfold variableStatement
  rw [Lowering.view_eq hv, pure_bind]
  cases hdeclared : v.declared with
  | some t =>
    rw [hdeclared] at hleaves hparts
    refine (Ends.pure (fun j hj => .ofRemoved hleaves)).iff ?_
    rw [Node.intact_of_parts hn.fits hrequired (by simp [hk]), hparts]
    simp
  | none =>
    rw [hdeclared] at hleaves hparts
    have hchildren : n.children = [v.declaration] := by
      simp [Node.children, hs, NodeView.toSlots]
    have hwalk := (h.walk hn).iff (Node.intact_of_children (hparts.trans hchildren.symm) (by simp [hk]))
    refine hwalk.thenSure (fun j hj walked hwalked => ?_)
    -- No optional slot was filled by the walk, so `declare` is still missing.
    have hfilled := hwalked.filled
    simp only [hs, NodeView.toSlots, List.map_cons, Slot.stays_ofToken?, hdeclared] at hfilled
    cases hexport : v.exported with
    | none =>
      have hform : PlainForm walked := by
        simp [PlainForm, Node.isDialectForm, hwalked.kind, hk, Node.has_eq, hfilled, hexport]
      exact .pure (fun i hi => .ofWalked hleaves hone (hwalked.up hi) hform)
    | some exported =>
      have hrow := hwalked.row
      rw [hk] at hrow
      obtain ⟨_, _, hslots, -, hrow⟩ := Slot.row_optionalToken.1 hrow
      obtain ⟨_, _, rfl, -, hrow⟩ := Slot.row_optionalToken.1 hrow
      obtain ⟨declaration, _, rfl, hdeclaration', hrow⟩ := Slot.row_node.1 hrow
      obtain ⟨semicolon, _, rfl, hsemicolon', hrow⟩ := Slot.row_token.1 hrow
      obtain rfl := Slot.row_nil_iff.1 hrow
      have hlowered : walked.view? VariableStatement = some ⟨_, _, declaration, semicolon⟩ :=
        Node.view?_eq (hwalked.kind.trans hk) hslots
      dsimp only
      rw [Lowering.view_eq hlowered, pure_bind]
      have hleading := Token.leadingWithout_meets (hexported exported hexport) hdeclaration'.leading
      refine .make (makes_withLeading hdeclaration' hleading (by omega)) (fun i hi declaration₂ h₂ => ?_)
      have hnode : Slot.Row PlainForm L i NodeKind.variableStatement.sorts
          (NodeView.toSlots (VariableStatement.mk none none declaration₂ semicolon)) :=
        .cons Slot.stands_absentToken (.cons Slot.stands_absentToken
          (.cons (h₂.slot (by omega)) (.cons (hsemicolon'.slot (by omega)) .nil)))
      have hkind : ∀ kind, (NodeClass.only .variableStatement).includes kind = true → n.kind.Becomes kind :=
        fun kind hkind => hk ▸ .ofOnly hkind
      exact ends_one hleaves hone (makes_node hnode (fun _ => rfl) rfl) makes_new hkind (by omega)

/-- **A variable stays one.** -/
theorem lowers_variableDeclarator (h : c.Sound L levels) (hn : n.Given L cl k)
    (hk : n.kind = .variableDeclarator) : LowersTo L k (levels + 1) n (c.variableDeclarator n) := by
  obtain ⟨v, hv, hs, hname, htype, hvalue⟩ := hn.variableDeclarator hk
  have hrequired : n.kind.keepsRequired = true := by rw [hk]; rfl
  have hone : n.kind.isSpread = false := by rw [hk]; rfl
  have hleaves : n.leavesNothing = false := by simp [Node.leavesNothing, hk]
  have hparts : n.loweredParts = v.value.toList := by
    unfold Node.loweredParts
    rw [hk]
    exact Node.partsAs_eq hv _
  have hkind : ∀ kind, (NodeClass.only .variableDeclarator).includes kind = true → n.kind.Becomes kind :=
    fun kind hkind => hk ▸ .ofOnly hkind
  unfold variableDeclarator
  rw [Lowering.view_eq hv, pure_bind]
  cases htyped : v.type with
  | none =>
    have hchildren : n.children = v.value.toList := by
      simp [Node.children, hs, NodeView.toSlots, htyped]
    have hwalk := (h.walk hn).iff (Node.intact_of_children (hparts.trans hchildren.symm) (by simp [hk]))
    refine hwalk.map (fun j hj walked hwalked => ?_)
    have hform : PlainForm walked := by simp [PlainForm, Node.isDialectForm, hwalked.kind, hk]
    exact .ofWalked hleaves hone hwalked hform
  | some annotation =>
    have hintact : (∀ m, v.value = some m → m.Intact levels) ↔ n.Intact (levels + 1) := by
      rw [Node.intact_of_parts hn.fits hrequired (by simp [hk]), hparts]
      simp
    have hlower := fun m hm => h.lower (hvalue m hm) rfl
    refine ((Ends.optionMapM hlower).iff hintact).thenSure (fun j hj value hvalue' => ?_)
    -- The trivia behind the type goes to the name.
    have htrailing := hname.trailing.afterErasure (htype annotation htyped).trailing
    refine .make (makes_tokenWithTrailing hname htrailing) (fun i hi name hname' => ?_)
    have hslot : Slot.Stands PlainForm L i (.optionalNode (.only .equalsValueClause)) (.ofNode? value) :=
      Slot.stands_ofNode?.2 (fun m hm => (hvalue'.2 m hm).up (by omega))
    have hnode : Slot.Row PlainForm L i NodeKind.variableDeclarator.sorts
        (NodeView.toSlots (VariableDeclarator.mk name none value)) :=
      .cons (hname'.slot (by omega)) (.cons Slot.stands_absentNode (.cons hslot .nil))
    exact ends_one hleaves hone (makes_node hnode (fun _ => rfl) rfl) makes_new hkind (by omega)

/-- **A cast is its expression.** -/
theorem lowers_castExpression (h : c.Sound L levels) (hn : n.Given L cl k) (hk : n.kind = .castExpression) :
    LowersTo L k (levels + 1) n (c.castExpression n) := by
  obtain ⟨v, hv, hs, hlessThan, -, -, hexpression⟩ := hn.cast hk
  have hrequired : n.kind.keepsRequired = true := by rw [hk]; rfl
  have hone : n.kind.isSpread = false := by rw [hk]; rfl
  have hleaves : n.leavesNothing = false := by simp [Node.leavesNothing, hk]
  have hparts : n.loweredParts = [v.expression] := by
    unfold Node.loweredParts
    rw [hk]
    exact Node.partsAs_eq hv _
  have hchild : v.expression ∈ n.children := by simp [Node.children, hs, NodeView.toSlots]
  have hintact : v.expression.Intact levels ↔ n.Intact (levels + 1) := by
    rw [Node.intact_of_parts hn.fits hrequired (by simp [hk]), hparts]
    simp
  unfold castExpression
  rw [Lowering.view_eq hv, pure_bind]
  refine ((h.lowerBack hexpression rfl).iff hintact).thenSure (fun j hj expression hm => ?_)
  obtain ⟨hplain, hback⟩ := hm
  refine .make (makes_renewedLeading hplain (hlessThan.leading.append hplain.leading) (by omega)) (fun i hi m hm => ?_)
  refine .pure (fun l hl => .ofOne hleaves hone (hm.1.sound.up (by omega)) ?_ ?_)
  · rw [hk]
    exact .ofExpression rfl hm.1.kind
  · rcases hm.2 with rfl | hnew
    · exact hback.imp_left (Node.mem_all_of_child hchild)
    · exact .inr (Nat.le_trans hj hnew)

end LoweringContext

end Downlevel
