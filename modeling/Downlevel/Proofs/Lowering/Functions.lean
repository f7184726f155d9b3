import Downlevel.Proofs.Lowering.Parameters
/-!
# Proofs.Lowering.Functions — functions, accessors and arrow functions

A function is lowered if its default values and its body are intact (`ends_functionLike`).  One without a body leaves
nothing.  An accessor of an object literal is walked through, and so is an expression that is a statement.

An arrow function becomes a function expression if its default values and its body are intact, whether the body is a
block or an expression.
-/
namespace Downlevel.LoweringContext

/-! ## Functions and accessors -/

section Functions

open Build

variable {c : LoweringContext} {L : Demand} {i k levels : Nat} {cl : NodeClass} {n : Node}

theorem makes_withCapture (hL : L.Suits c.layout) (captured : Bool) (bodyColumn : Nat) {ns : List Node}
    (h : ∀ n ∈ ns, n.Plain L .statement i) (hi : i ≤ k) :
    Makes k (c.withCapture captured bodyColumn ns) (fun j ms => ∀ m ∈ ms, m.Plain L .statement j) := by
  unfold withCapture
  split
  · refine (makes_captureStatement hL bodyColumn).bindPure (fun j hj capture hcapture => ?_)
    exact List.forall_mem_cons.2 ⟨hcapture, fun n hn => (h n hn).up (by omega)⟩
  · exact .pure (fun j hj n hn => (h n hn).up (by omega))

/-- What became of the parameters and the body of a function. -/
structure FunctionFits (L : Demand) (parameters : Node) (resultType : Option Node) (block : Node) (j : Nat)
    (r : Node × Node) : Prop where
  list : r.1.Plain L (.only .parameterList) j
  body : r.2.Plain L (.only .block) j
  sameParameters : r.1.isSame parameters = true → r.1 = parameters ∧ resultType = none
  sameBlock : r.2.isSame block = true → r.2 = block

/-- **A function is lowered if its default values and its body are intact.** -/
theorem ends_functionLike (h : c.Sound L levels) {parameters block : Node} {resultType : Option Node} (column : Nat)
    (hparameters : parameters.Given L (.only .parameterList) k)
    (htype : ∀ m, resultType = some m → m.Stands GivenForm L (.only .typeClause) k)
    (hblock : block.Given L (.only .block) k) :
    Ends IsRefusal k (c.functionLike parameters resultType block column)
      (∀ p ∈ Node.functionParts parameters block, p.Intact levels)
      (fun j r => FunctionFits L parameters resultType block j r) := by
  unfold functionLike
  refine (Ends.inScope (P := fun j r => (r.1.Plain L (.only .parameterList) j ∧
    (r.1.isSame parameters = true → r.1 = parameters ∧ resultType = none)) ∧
    (∀ n ∈ r.2.1, n.Plain L .statement j) ∧ r.2.2.Plain L (.only .block) j ∧
      (r.2.2 ∈ block.all ∨ k ≤ r.2.2.id)) ?_).thenSure (fun i₁ h₁ r hr => ?_)
  · have hparts : ((∀ v ∈ parameters.listedDefaults, v.Intact levels) ∧ block.Intact levels) ↔
        ∀ p ∈ Node.functionParts parameters block, p.Intact levels := by
      unfold Node.functionParts
      rw [List.forall_mem_append, List.forall_mem_singleton]
    refine ((ends_parameterList hparameters htype).sureThen (fun i₁ h₁ list hlist => ?_)).iff hparts
    rw [← hlist.values]
    refine (ends_parameterPrologue h _ hlist.facts).bind (fun i₂ h₂ prologue hprologue => ?_)
    refine (h.lowerBack (hblock.up (k := i₂) (by omega)) rfl).map (fun i₃ h₃ lowered hlowered => ?_)
    exact ⟨⟨hlist.plain.up (by omega), hlist.same⟩, fun n hn => (hprologue n hn).up (by omega), hlowered.1,
      hlowered.2.imp_right (Nat.le_trans (by omega))⟩
  obtain ⟨⟨list, prologue, lowered⟩, captured⟩ := r
  obtain ⟨⟨hlist, hsame⟩, hprologue, hlowered, hback⟩ := hr
  refine .make (makes_withCapture h.suits captured _ hprologue (by omega)) (fun i₂ h₂ prologue hprologue => ?_)
  refine (ends_assembleBlock h.suits _ _ (hlowered.up (by omega)) hprologue).map (fun i₃ h₃ assembled ha => ?_)
  refine ⟨hlist.up (by omega), ha.1, hsame, fun hsameBlock => ?_⟩
  rcases ha.2 with rfl | hnew
  · exact hblock.eq_of_back hback hsameBlock (by omega)
  · exact hblock.eq_of_back (i := i₂) (.inr hnew) hsameBlock (by omega)

/-- A signature without a type of the result is plain if its parameters are. -/
theorem plain_signature {signature : Node} {v : CallSignature} (h : signature.Stands GivenForm L cl k)
    (hk : signature.kind = .callSignature) (hs : signature.slots = NodeView.toSlots v) (hnone : v.resultType = none)
    (hparameters : v.parameters.Sound PlainForm L i) (hi : k ≤ i) : signature.Plain L cl i := by
  refine h.plain (by simp [PlainForm, Node.isDialectForm, hk]) (fun m hm => ?_) (by omega)
  have hm' : m = v.parameters := by simpa [Node.children, hs, NodeView.toSlots, hnone] using hm
  exact hm' ▸ hparameters

/-- A function whose parameters and body come back as they were is plain: nothing of the dialect is left in it. -/
theorem FunctionFits.plain {signature block : Node} {v : CallSignature} {cl' : NodeClass} {r : Node × Node}
    (hr : FunctionFits L v.parameters v.resultType block i r) (hlist : r.1.isSame v.parameters = true)
    (hbody : r.2.isSame block = true) (hn : n.Given L cl k) (hform : PlainForm n)
    (hsignature : signature.Stands GivenForm L cl' k) (hk : signature.kind = .callSignature)
    (hs : signature.slots = NodeView.toSlots v) (hchildren : n.children = [signature, block]) (hi : k ≤ i) :
    n.Plain L cl i := by
  obtain ⟨hparameters, hnoType⟩ := hr.sameParameters hlist
  have hblock := hr.sameBlock hbody
  refine hn.plain hform (fun m hm => ?_) hi
  have hm' : m = signature ∨ m = block := by simpa [hchildren] using hm
  rcases hm' with rfl | rfl
  · exact (plain_signature hsignature hk hs hnoType (hparameters ▸ hr.list.sound) hi).sound
  · exact hblock ▸ hr.body.sound

/-- What is built behind the keyword is the same whether the word `export` gave its trivia to it or not. -/
theorem ends_functionBehind {v : FunctionDeclaration} {list body : Node} {keyword : Token}
    (hk : n.kind = .functionDeclaration) (hleaves : n.leavesNothing = false) (hlist : list.Plain L (.only .parameterList) i)
    (hbody : body.Plain L (.only .block) i) (hkeyword : keyword.Meets L i) (hname : v.name.Meets L i)
    (hsemicolon : ∀ t, v.semicolon = some t → t.Meets L i) (hi : k ≤ i) :
    Ends IsRefusal i (do
      let signature ← Build.callSignature list
      return .one (← NodeView.toNode (FunctionDeclaration.mk none none keyword v.name signature (some body) v.semicolon)) :
        Lowering Replacement) True (fun l r => r.Suits .lowering L k n l) := by
  have hkind : ∀ kind, (NodeClass.only .functionDeclaration).includes kind = true → n.kind.Becomes kind :=
    fun kind hkind => hk ▸ .ofOnly hkind
  refine .make (makes_callSignature hlist (by omega)) (fun l hl signature hsignature => ?_)
  have hnode := row_function v.semicolon (hkeyword.up (by omega)) (hname.up (by omega)) hsignature (hbody.up (by omega))
    (fun t ht => (hsemicolon t ht).up (by omega))
  have hone : n.kind.isSpread = false := by rw [hk]; rfl
  exact ends_one hleaves hone (makes_node hnode (fun _ => rfl) rfl) makes_new hkind (by omega)

/-- **A function with a body stays one**, and any other leaves nothing. -/
theorem lowers_functionDeclaration (h : c.Sound L levels) (hn : n.Given L cl k)
    (hk : n.kind = .functionDeclaration) : LowersTo L k (levels + 1) n (c.functionDeclaration n) := by
  obtain ⟨v, hv, hs, hexported, -, hkeyword, hname, hsignature, hblock, hsemicolon⟩ := hn.functionDeclaration hk
  have hrequired : n.kind.keepsRequired = true := by rw [hk]; rfl
  have hone : n.kind.isSpread = false := by rw [hk]; rfl
  have hleaves : n.leavesNothing = (v.declared.isSome || !v.block.isSome) := by
    simp [Node.leavesNothing, hk, Node.has_eq, hs, NodeView.toSlots]
  have hparts : n.loweredParts =
      if v.declared.isSome then [] else (v.block.map (Node.signatureParts v.signature)).getD [] := by
    unfold Node.loweredParts
    rw [hk]
    exact Node.partsAs_eq hv _
  unfold functionDeclaration
  rw [Lowering.view_eq hv, pure_bind]
  -- An ambient function and one without a body leave nothing, and nothing of them is lowered.
  cases hdeclared : v.declared with
  | some t =>
    rw [hdeclared] at hleaves hparts
    refine (Ends.pure (fun j hj => .ofRemoved hleaves)).iff ?_
    rw [Node.intact_of_parts hn.fits hrequired (by simp [hk]), hparts]
    simp
  | none =>
    cases hbody : v.block with
    | none =>
      rw [hdeclared, hbody] at hleaves hparts
      refine (Ends.pure (fun j hj => .ofRemoved hleaves)).iff ?_
      rw [Node.intact_of_parts hn.fits hrequired (by simp [hk]), hparts]
      simp
    | some block =>
      rw [hdeclared, hbody] at hleaves hparts
      obtain ⟨w, hw, hws, hparameters, htype⟩ := hsignature.callSignature hsignature.kind_eq
      have hintact : (∀ p ∈ Node.functionParts w.parameters block, p.Intact levels) ↔ n.Intact (levels + 1) := by
        rw [Node.intact_of_parts hn.fits hrequired (by simp [hk]), hparts]
        simp [Node.signatureParts, Node.partsAs_eq hw]
      dsimp only
      rw [Lowering.view_eq hw, pure_bind]
      refine ((ends_functionLike h _ hparameters htype (hblock block hbody)).iff hintact).thenSure (fun j hj r hr => ?_)
      obtain ⟨list, body⟩ := r
      dsimp only
      split
      -- The function that was there comes back, so it must have been plain.
      · rename_i hsame
        simp only [Bool.and_eq_true, Option.isNone_iff_eq_none] at hsame
        obtain ⟨⟨hnoExport, hsameList⟩, hsameBody⟩ := hsame
        have hform : PlainForm n := by
          simp [PlainForm, Node.isDialectForm, hk, Node.has_eq, hs, NodeView.toSlots, hnoExport, hdeclared, hbody]
        have hplain : n.Plain L cl j := hr.plain hsameList hsameBody hn hform hsignature hsignature.kind_eq hws
          (by simp [Node.children, hs, NodeView.toSlots, hbody]) (by omega)
        exact .pure (fun l hl => .ofSame hleaves hone (hplain.sound.up (by omega)))
      · have hlist : list.Plain L (.only .parameterList) j := hr.list
        have hlowered : body.Plain L (.only .block) j := hr.body
        have hrest := fun i (hi : j ≤ i) (keyword : Token) (hkeyword : keyword.Meets L i) =>
          ends_functionBehind (v := v) (k := k) hk hleaves (hlist.up hi) (hlowered.up hi) hkeyword (hname.up (by omega))
            (fun t ht => (hsemicolon t ht).up (by omega)) (by omega)
        cases hexport : v.exported with
        | some exported =>
          have hleading := Token.leadingWithout_meets (hexported exported hexport) hkeyword.leading
          exact .make (makes_tokenWithLeading hkeyword hleading) hrest
        | none => exact .sureThen (.pure (fun l hl => hkeyword.up (by omega))) hrest

/-- **A function that is an expression stays one.** -/
theorem lowers_functionExpression (h : c.Sound L levels) (hn : n.Given L cl k)
    (hk : n.kind = .functionExpression) : LowersTo L k (levels + 1) n (c.functionExpression n) := by
  obtain ⟨v, hv, hs, hkeyword, hname, hsignature, hblock⟩ := hn.functionExpression hk
  have hrequired : n.kind.keepsRequired = true := by rw [hk]; rfl
  have hone : n.kind.isSpread = false := by rw [hk]; rfl
  have hleaves : n.leavesNothing = false := by simp [Node.leavesNothing, hk]
  have hparts : n.loweredParts = Node.signatureParts v.signature v.block := by
    unfold Node.loweredParts
    rw [hk]
    exact Node.partsAs_eq hv _
  obtain ⟨w, hw, hws, hparameters, htype⟩ := hsignature.callSignature hsignature.kind_eq
  have hintact : (∀ p ∈ Node.functionParts w.parameters v.block, p.Intact levels) ↔ n.Intact (levels + 1) := by
    rw [Node.intact_of_parts hn.fits hrequired (by simp [hk]), hparts]
    simp [Node.signatureParts, Node.partsAs_eq hw]
  unfold functionExpression
  rw [Lowering.view_eq hv, pure_bind, Lowering.view_eq hw, pure_bind]
  refine ((ends_functionLike h _ hparameters htype hblock).iff hintact).thenSure (fun j hj r hr => ?_)
  obtain ⟨list, body⟩ := r
  dsimp only
  split
  · rename_i hsame
    simp only [Bool.and_eq_true] at hsame
    have hplain : n.Plain L cl j := hr.plain hsame.1 hsame.2 hn (by simp [PlainForm, Node.isDialectForm, hk]) hsignature
      hsignature.kind_eq hws (by simp [Node.children, hs, NodeView.toSlots]) (by omega)
    exact .pure (fun l hl => .ofSame hleaves hone (hplain.sound.up (by omega)))
  · refine .make (makes_callSignature hr.list (by omega)) (fun l hl signature hsignature' => ?_)
    have hnameSlot : Slot.Stands PlainForm L l .optionalToken (.ofToken? v.name) :=
      Slot.stands_ofToken?.2 (fun t ht => (hname t ht).up (by omega))
    have hnode : Slot.Row PlainForm L l NodeKind.functionExpression.sorts
        (NodeView.toSlots (FunctionExpression.mk v.keyword v.name signature body)) :=
      .cons (hkeyword.slot (by omega)) (.cons hnameSlot
        (.cons (hsignature'.slot (by omega)) (.cons (hr.body.slot (by omega)) .nil)))
    have hkind : ∀ kind, (NodeClass.only .functionExpression).includes kind = true → n.kind.Becomes kind :=
      fun kind hkind => hk ▸ .ofOnly hkind
    exact ends_one hleaves hone (makes_node hnode (fun _ => rfl) rfl) makes_new hkind (by omega)

/-! ## Accessors of object literals -/

theorem ends_accessorBody (hL : L.Suits c.layout) {block : Node} (captured : Bool) (hblock : block.Plain L (.only .block) i)
    (hi : i ≤ k) :
    Ends IsRefusal k (c.accessorBody n block captured) True (fun j m => m.Plain L (.only .block) j) := by
  unfold accessorBody
  split
  · exact .pure (fun j hj => hblock.up (by omega))
  · refine .make (makes_captureStatement hL _) (fun j hj capture hcapture => ?_)
    refine (ends_assembleBlock hL _ _ (hblock.up (k := j) (by omega)) (fun m hm => ?_)).mono (fun _ _ _ hm => hm.1)
    exact List.mem_singleton.1 hm ▸ hcapture

/-- A getter that was walked through stays a getter, without the type of its result. -/
theorem ends_objectGetter (hL : L.Suits c.layout) (hn : n.Stands GivenForm L cl k)
    (hk : n.kind = .getAccessorPropertyAssignment) {walked : Node} (captured : Bool)
    (hwalked : walked.Plain L (.only .getAccessorPropertyAssignment) i) (hback : walked.Renews k n)
    (hi : k ≤ i) :
    Ends IsRefusal i (c.objectGetter n walked captured) True (fun j r => r.Suits .lowering L k n j) := by
  have hone : n.kind.isSpread = false := by rw [hk]; rfl
  have hleaves : n.leavesNothing = false := by simp [Node.leavesNothing, hk]
  obtain ⟨v, hv, -, hkeyword, hname, hopen, hclose, htype, hblock⟩ := hwalked.objectGetter hwalked.kind_eq
  obtain ⟨w, hw, -, -, -, -, hclose', htype', -⟩ := hn.objectGetter hk
  have hkind : ∀ kind, (NodeClass.only .getAccessorPropertyAssignment).includes kind = true → n.kind.Becomes kind :=
    fun kind hkind => hk ▸ .ofOnly hkind
  unfold objectGetter
  rw [Lowering.view_eq hv, pure_bind, Lowering.view_eq hw, pure_bind]
  split
  · have hmem : walked ∈ n.all ∨ k ≤ walked.id := by
      rcases hback with rfl | hnew
      · exact .inl walked.mem_all_self
      · exact .inr hnew
    exact .pure (fun j hj => .ofOne hleaves hone (hwalked.sound.up (by omega)) (hkind _ hwalked.kind) hmem)
  -- Without its type, the closing parenthesis takes the trivia behind; the rest goes on alike.
  · have hrest : ∀ j, i ≤ j → ∀ closeParen : Token, closeParen.Meets L j → Ends IsRefusal j (do
        let block ← c.accessorBody n v.block captured
        return .one (← NodeView.toNode
          { v with closeParen, resultType := if w.resultType.isSome then none else v.resultType, block }) :
            Lowering Replacement) True (fun l r => r.Suits .lowering L k n l) := by
      intro j hj closeParen hcloseParen
      refine (ends_accessorBody hL captured hblock (by omega)).sureThen (fun l hl block hblock' => ?_)
      have htypeSlot : Slot.Stands PlainForm L l (.optionalNode (.only .typeClause))
          (.ofNode? (if w.resultType.isSome then none else v.resultType)) := by
        split
        · exact Slot.stands_absentNode
        · exact Slot.stands_ofNode?.2 (fun m hm => (htype m hm).up (by omega))
      have hnode : Slot.Row PlainForm L l NodeKind.getAccessorPropertyAssignment.sorts (NodeView.toSlots
          { v with closeParen, resultType := if w.resultType.isSome then none else v.resultType, block }) :=
        .cons (hkeyword.slot (by omega)) (.cons (hname.slot (by omega))
          (.cons (hopen.slot (by omega)) (.cons (hcloseParen.slot (by omega)) (.cons htypeSlot
          (.cons (hblock'.slot (by omega)) .nil)))))
      exact ends_one hleaves hone (makes_node hnode (fun _ => rfl) rfl) makes_new hkind (by omega)
    dsimp only
    cases htyped : w.resultType with
    | some annotation =>
      rw [htyped] at hrest
      have htrailing := hclose'.trailing.afterErasure (htype' annotation htyped).trailing
      exact .make (makes_tokenWithTrailing hclose htrailing) hrest
    | none =>
      rw [htyped] at hrest
      exact .sureThen (.pure (fun j hj => hclose.up (by omega))) hrest

/-- A setter that was walked through stays a setter. -/
theorem ends_objectSetter (hL : L.Suits c.layout) (hk : n.kind = .setAccessorPropertyAssignment) {walked : Node}
    (captured : Bool) (hwalked : walked.Plain L (.only .setAccessorPropertyAssignment) i) (hback : walked.Renews k n)
    (hi : k ≤ i) :
    Ends IsRefusal i (c.objectSetter n walked captured) True (fun j r => r.Suits .lowering L k n j) := by
  have hone : n.kind.isSpread = false := by rw [hk]; rfl
  have hleaves : n.leavesNothing = false := by simp [Node.leavesNothing, hk]
  have hkind : ∀ kind, (NodeClass.only .setAccessorPropertyAssignment).includes kind = true → n.kind.Becomes kind :=
    fun kind hkind => hk ▸ .ofOnly hkind
  obtain ⟨v, hv, -, hkeyword, hname, hopen, hparameter, hclose, hblock⟩ := hwalked.objectSetter hwalked.kind_eq
  unfold objectSetter
  split
  · have hmem : walked ∈ n.all ∨ k ≤ walked.id := by
      rcases hback with rfl | hnew
      · exact .inl walked.mem_all_self
      · exact .inr hnew
    exact .pure (fun j hj => .ofOne hleaves hone (hwalked.sound.up (by omega)) (hkind _ hwalked.kind) hmem)
  · rw [Lowering.view_eq hv, pure_bind]
    refine (ends_accessorBody hL captured hblock (by omega)).sureThen (fun l hl block hblock' => ?_)
    have hnode : Slot.Row PlainForm L l NodeKind.setAccessorPropertyAssignment.sorts
        (NodeView.toSlots { v with block }) :=
      .cons (hkeyword.slot (by omega)) (.cons (hname.slot (by omega))
        (.cons (hopen.slot (by omega)) (.cons (hparameter.slot (by omega)) (.cons (hclose.slot (by omega))
        (.cons (hblock'.slot (by omega)) .nil)))))
    exact ends_one hleaves hone (makes_node hnode (fun _ => rfl) rfl) makes_new hkind (by omega)

/-- **An accessor of an object literal stays one.** -/
theorem lowers_objectAccessor (h : c.Sound L levels) (hn : n.Given L cl k)
    (hk : n.kind = .getAccessorPropertyAssignment ∨ n.kind = .setAccessorPropertyAssignment) :
    LowersTo L k (levels + 1) n (c.objectAccessor n) := by
  have hparts : n.loweredParts = n.children := by rcases hk with hk | hk <;> (unfold Node.loweredParts; rw [hk])
  have hname : n.kind ≠ .moduleDeclaration := by rcases hk with hk | hk <;> simp [hk]
  have hwalk := (h.walk hn).iff (Node.intact_of_children hparts hname)
  refine hwalk.inScope.thenSure (fun j hj r hr => ?_)
  obtain ⟨walked, captured⟩ := r
  have hform : PlainForm walked := by
    rcases hk with hk | hk <;> simp [PlainForm, Node.isDialectForm, hr.kind, hk]
  have hwalked : walked.Plain L (.only n.kind) j := hr.plain hform
  dsimp only
  rcases hk with hk | hk
  · rw [if_pos (hr.kind.trans hk)]
    exact ends_objectGetter h.suits hn hk captured (hk ▸ hwalked) hr.renews (by omega)
  · rw [if_neg (by rw [hr.kind, hk]; decide)]
    exact ends_objectSetter h.suits hk captured (hk ▸ hwalked) hr.renews (by omega)

/-! ## Statements -/

theorem makes_parenthesize {o : LayoutOptions} (hL : L.Suits o) (h : n.Plain L .expression k) :
    Makes k (parenthesize n) (fun j m => m.Plain L .expression j) := by
  refine (makes_bare h (by omega)).bind (fun i₁ h₁ bare hbare => ?_)
  exact (makes_parenthesized hL hbare (by omega)).bind (fun i₂ h₂ m hm => makes_withTrivia hm h.leading h.trailing
    (by omega))

/-- **An expression that is a statement stays one.** -/
theorem lowers_expressionStatement (h : c.Sound L levels) (hn : n.Given L cl k)
    (hk : n.kind = .expressionStatement) : LowersTo L k (levels + 1) n (c.expressionStatement n) := by
  have hone : n.kind.isSpread = false := by rw [hk]; rfl
  have hleaves : n.leavesNothing = false := by simp [Node.leavesNothing, hk]
  have hparts : n.loweredParts = n.children := by unfold Node.loweredParts; rw [hk]
  refine ((h.walk hn).iff (Node.intact_of_children hparts (by simp [hk]))).thenSure (fun j hj walked hwalked => ?_)
  have hform : PlainForm walked := by simp [PlainForm, Node.isDialectForm, hwalked.kind, hk]
  have hplain : walked.Plain L (.only n.kind) j := hwalked.plain hform
  obtain ⟨v, hv, -, hexpression, hsemicolon⟩ := hplain.expressionStatement (hwalked.kind.trans hk)
  rw [Lowering.view_eq hv, pure_bind]
  split
  · exact .pure (fun l hl => .ofWalked hleaves hone (hwalked.up hl) hform)
  · refine .make (makes_parenthesize h.suits hexpression) (fun l hl m hm => ?_)
    have hnode : Slot.Row PlainForm L l NodeKind.expressionStatement.sorts
        (NodeView.toSlots (ExpressionStatement.mk m v.semicolon)) := .cons (hm.slot (by omega))
          (.cons (hsemicolon.slot (by omega)) .nil)
    have hkind : ∀ kind, (NodeClass.only .expressionStatement).includes kind = true → n.kind.Becomes kind :=
      fun kind hkind => hk ▸ .ofOnly hkind
    exact ends_one hleaves hone (makes_node hnode (fun _ => rfl) rfl) makes_new hkind (by omega)

end Functions

/-! ## Arrow functions -/

section Arrows

open Build

variable {c : LoweringContext} {L : Demand} {i k levels : Nat} {cl : NodeClass} {n : Node} {parts : ArrowParts}

/-- The parts of an arrow function are what is asked for. -/
structure ArrowParts.Stands (L : Demand) (k : Nat) (parts : ArrowParts) : Prop where
  parameters : parts.parameters.Plain L (.only .parameterList) k
  facts : parts.facts.Stands L k
  arrow : parts.arrow.Meets L k
  body : parts.body.Given L .body k

/-- The default values and the body of an arrow function are intact. -/
def ArrowParts.Intact (levels : Nat) (parts : ArrowParts) : Prop :=
  (∀ v ∈ parts.facts.defaults.map DefaultValue.value, v.Intact levels) ∧ parts.body.Intact levels

theorem ArrowParts.Stands.up (h : ArrowParts.Stands L i parts) (hi : i ≤ k) :
    ArrowParts.Stands L k parts := ⟨h.parameters.up (by omega), h.facts.up (by omega), h.arrow.up (by omega),
      h.body.up (by omega)⟩

/-- **A block that is a body stays one.** -/
theorem ends_arrowBlock (h : c.Sound L levels) (column : Nat) (hparts : ArrowParts.Stands L k parts)
    (hbody : parts.body.Given L (.only .block) k) :
    Ends IsRefusal k (c.arrowBlock n parts column) (ArrowParts.Intact levels parts)
      (fun j m => m.Plain L (.only .block) j) := by
  refine (ends_parameterPrologue h _ hparts.facts).bind (fun i₁ h₁ prologue hprologue => ?_)
  refine (h.lower (hbody.up (k := i₁) (by omega)) rfl).thenSure (fun i₂ h₂ block hblock => ?_)
  refine (ends_reindent h.suits hblock _ _ (by omega)).sureThen (fun i₃ h₃ block hblock => ?_)
  exact (ends_assembleBlock h.suits _ _ hblock.1 (fun m hm => (hprologue m hm).up (by omega))).mono
    (fun _ _ _ hm => hm.1)

/-- **An expression that is a body becomes a block that returns it.** -/
theorem ends_arrowExpression (h : c.Sound L levels) (column : Nat) (hparts : ArrowParts.Stands L k parts)
    (hbody : parts.body.Given L .expression k) :
    Ends IsRefusal k (c.arrowExpression n parts column) (ArrowParts.Intact levels parts)
      (fun j m => m.Plain L (.only .block) j) := by
  refine (ends_parameterPrologue h _ hparts.facts).bind (fun i₁ h₁ prologue hprologue => ?_)
  refine (h.lowerAtLine _ (hbody.up (k := i₁) (by omega)) rfl).thenSure (fun i₂ h₂ lowered hlowered => ?_)
  refine .make (makes_bare hlowered (by omega)) (fun i₃ h₃ bare hbare => ?_)
  refine (ends_reindent h.suits hbare _ _ (by omega)).sureThen (fun i₄ h₄ expression hexpression => ?_)
  refine .make (makes_returnStatement h.suits hexpression.1 (by omega)) (fun i₅ h₅ returned hreturned => ?_)
  have hcomments : ((parts.arrow.trailing ++ lowered.leading).commentLines (column + c.indentSize) c.layout).Meets L :=
    h.suits.commentLines (hparts.arrow.trailing.append hlowered.leading) _
  refine .make (makes_withTrivia hreturned hcomments h.suits.lineBreak (by omega)) (fun i₆ h₆ returned hreturned => ?_)
  refine .make (makes_placeStatements h.suits _ hprologue (by omega)) (fun i₇ h₇ statements hstatements => ?_)
  refine .make (makes_closeBrace h.suits (h.suits.indentation column)) (fun i₈ h₈ closed hclosed => ?_)
  refine .make (makes_tokenWithTrailing hclosed hlowered.trailing) (fun i₉ h₉ closed hclosed => ?_)
  refine .make (makes_openBrace h.suits h.suits.lineBreak) (fun j hj opened hopened => ?_)
  have hall : ∀ m ∈ statements ++ [returned], m.Plain L .statement j := fun m hm => by
    rcases List.mem_append.1 hm with hm | hm
    · exact (hstatements m hm).up (by omega)
    · exact List.mem_singleton.1 hm ▸ hreturned.up (by omega)
  exact .lift (makes_block hopened hall hclosed (by omega) (by omega) (by omega))

theorem arrowSeparator_meets (hL : L.Suits c.layout) (hparts : ArrowParts.Stands L k parts) :
    (arrowSeparator parts).Meets L := by
  have hbehind : (if (parts.body.kind == .block && parts.arrow.trailing.hasComment) = true
      then parts.parameters.trailing ++ parts.arrow.trailing else parts.parameters.trailing).Meets L := by
    split
    · exact hparts.parameters.trailing.append hparts.arrow.trailing
    · exact hparts.parameters.trailing
  unfold arrowSeparator
  dsimp only
  generalize (if (parts.body.kind == .block && parts.arrow.trailing.hasComment) = true
    then parts.parameters.trailing ++ parts.arrow.trailing else parts.parameters.trailing) = behind at hbehind
  split
  · exact hL.oneSpace
  · exact hbehind

theorem NodeClass.expression_of_body {kind : NodeKind} (h : NodeClass.body.includes kind = true)
    (hk : kind ≠ .block) : NodeClass.expression.includes kind = true := by
  rcases Bool.or_eq_true_iff.1 h with h | h
  · exact h
  · exact absurd (eq_of_beq h) hk

/-- **An arrow function becomes a function expression.** -/
theorem lowers_arrowFunction (h : c.Sound L levels) (hn : n.Stands GivenForm L cl k)
    (hleaves : n.leavesNothing = false) (hrewritten : n.kind.isRewritten = true)
    (hparts : ArrowParts.Stands L i parts) (hi : k ≤ i) :
    Ends IsRefusal i (c.arrowFunction n parts) (ArrowParts.Intact levels parts)
      (fun j r => r.Suits .lowering L k n j) := by
  have hone : n.kind.isSpread = false := by revert hrewritten; cases n.kind <;> decide
  have hcolumn : Ends IsRefusal i (c.laidOutIndentationOf n) True (fun _ _ => True) :=
    .own (fun s => .pure (fun _ _ => trivial))
  have hblock : ∀ j, i ≤ j → ∀ column, Ends IsRefusal j
      (if parts.body.kind = .block then c.arrowBlock n parts column else c.arrowExpression n parts column)
      (ArrowParts.Intact levels parts) (fun l m => m.Plain L (.only .block) l) := by
    intro j hj column
    have hparts' : ArrowParts.Stands L j parts := hparts.up (by omega)
    split
    · rename_i hk
      exact ends_arrowBlock h column hparts' ⟨by rw [hk]; rfl, hparts'.body.sound⟩
    · rename_i hk
      exact ends_arrowExpression h column hparts'
        ⟨NodeClass.expression_of_body hparts'.body.kind hk, hparts'.body.sound⟩
  refine hcolumn.sureThen (fun i₁ h₁ column _ => ?_)
  refine .make (makes_withTrivia hparts.parameters .empty (arrowSeparator_meets h.suits hparts) (by omega))
    (fun i₂ h₂ parameters hparameters => ?_)
  refine (hblock i₂ (by omega) column).inArrow.thenSure (fun i₃ h₃ block hbody => ?_)
  refine .make (makes_wordThenSpace h.suits _) (fun i₄ h₄ word hword => ?_)
  refine .make (makes_tokenWithLeading hword hn.leading) (fun i₅ h₅ keyword hkeyword => ?_)
  refine .make (makes_callSignature hparameters (by omega)) (fun i₆ h₆ signature hsignature => ?_)
  have hnode : Slot.Row PlainForm L i₆ NodeKind.functionExpression.sorts
      (NodeView.toSlots (FunctionExpression.mk keyword none signature block)) :=
    .cons (hkeyword.slot (by omega)) (.cons Slot.stands_absentToken
      (.cons (hsignature.slot (by omega)) (.cons (hbody.slot (by omega)) .nil)))
  exact ends_one (d := .expression) hleaves hone (makes_node hnode (fun _ => rfl) rfl) makes_new
    (fun kind hkind => .ofExpression hrewritten hkind) (by omega)

/-- **An arrow function with one bare parameter is lowered if its body is intact.** -/
theorem lowers_simpleArrow (h : c.Sound L levels) (hn : n.Given L cl k)
    (hk : n.kind = .simpleArrowFunctionExpression) : LowersTo L k (levels + 1) n (c.simpleArrow n) := by
  obtain ⟨v, hv, hs, hparameter, harrow, hbody⟩ := hn.simpleArrow hk
  have hrequired : n.kind.keepsRequired = true := by rw [hk]; rfl
  have hleaves : n.leavesNothing = false := by simp [Node.leavesNothing, hk]
  have hparts : n.loweredParts = [v.body] := by
    unfold Node.loweredParts
    rw [hk]
    exact Node.partsAs_eq hv _
  unfold simpleArrow
  rw [Lowering.view_eq hv, pure_bind]
  refine .make (makes_bareToken hparameter) (fun i₁ h₁ name hname => ?_)
  refine .make (makes_parameter hname (by omega)) (fun i₂ h₂ parameter hparameter' => ?_)
  have hlisted : ∀ m ∈ [parameter], m.Plain L (.only .parameter) i₂ := fun m hm => List.mem_singleton.1 hm ▸ hparameter'
  refine .make (makes_parameterList h.suits hlisted (by omega)) (fun i₃ h₃ list hlist => ?_)
  refine .make (makes_withTrailing hlist hparameter.trailing (by omega)) (fun i₄ h₄ list hlist => ?_)
  refine (lowers_arrowFunction h hn hleaves (by rw [hk]; rfl) ⟨hlist, .none, harrow.up (by omega),
    hbody.up (by omega)⟩ (by omega)).iff ?_
  rw [Node.intact_of_parts hn.fits hrequired (by simp [hk]), hparts]
  simp [ArrowParts.Intact, ParameterFacts.none]

/-- **An arrow function with a signature is lowered if its default values and its body are intact.** -/
theorem lowers_parenthesizedArrow (h : c.Sound L levels) (hn : n.Given L cl k)
    (hk : n.kind = .parenthesizedArrowFunctionExpression) : LowersTo L k (levels + 1) n (c.parenthesizedArrow n) := by
  obtain ⟨v, hv, hs, hsignature, harrow, hbody⟩ := hn.parenthesizedArrow hk
  have hrequired : n.kind.keepsRequired = true := by rw [hk]; rfl
  have hleaves : n.leavesNothing = false := by simp [Node.leavesNothing, hk]
  have hparts : n.loweredParts = Node.signatureParts v.signature v.body := by
    unfold Node.loweredParts
    rw [hk]
    exact Node.partsAs_eq hv _
  obtain ⟨w, hw, hws, hparameters, htype⟩ := hsignature.callSignature hsignature.kind_eq
  unfold parenthesizedArrow
  rw [Lowering.view_eq hv, pure_bind, Lowering.view_eq hw, pure_bind]
  have hintact : ((∀ p ∈ w.parameters.listedDefaults, p.Intact levels) ∧ v.body.Intact levels) ↔
      n.Intact (levels + 1) := by
    rw [Node.intact_of_parts hn.fits hrequired (by simp [hk]), hparts]
    simp [Node.signatureParts, Node.functionParts, Node.partsAs_eq hw, or_imp, forall_and]
  refine ((ends_parameterList hparameters htype).sureThen (fun i₁ h₁ r hr => ?_)).iff hintact
  rw [← hr.values]
  exact lowers_arrowFunction h hn hleaves (by rw [hk]; rfl) ⟨hr.plain, hr.facts, harrow.up (by omega),
    hbody.up (by omega)⟩ (by omega)

end Arrows

end Downlevel.LoweringContext
