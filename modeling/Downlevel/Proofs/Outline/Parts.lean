import Downlevel.Proofs.Outline.Walk
import Downlevel.Tree.Reindent
/-!
# Proofs.Outline.Parts — passes over the tokens of a tree, and what rules do with its parts

A pass that makes of every token one that looks the same makes of every tree one that looks the same, and never fails
(`records_transformTokens`).  So do moved lines (`records_reindented`) and tokens told apart (`records_uniqueTokens`).
Statements that are placed on lines of their own look as they did; a block with statements at its top looks like the
draft of one, and so does a body with a captured `this`.
-/
namespace Downlevel

variable {σ : Type} {W : Registry} {n : Node} {t : Token}

/-- From whatever state of its own it is started, the computation ends well, and what it made can be registered. -/
def Passes {α : Type} (W : Registry) (w : Work SlotError σ α) (P : Registry → α → Prop) : Prop :=
  ∀ own, ∃ a s W', w ⟨W.next, own⟩ = .ok a s ∧ W ≤ W' ∧ s.next = W'.next ∧ P W' a

namespace Passes

variable {α β : Type} {P : Registry → α → Prop} {Q : Registry → β → Prop}

theorem pure {a : α} (h : P W a) : Passes W (pure a : Work SlotError σ α) P :=
  fun own => ⟨a, ⟨W.next, own⟩, W, rfl, le_rfl, rfl, h⟩

theorem bind {w : Work SlotError σ α} {f : α → Work SlotError σ β} (hw : Passes W w P)
    (hf : ∀ W', W ≤ W' → ∀ a, P W' a → Passes W' (f a) Q) : Passes W (w >>= f) Q := by
  intro own
  obtain ⟨a, ⟨next, own₁⟩, W₁, hrun, hle, hnext, hP⟩ := hw own
  obtain rfl : next = W₁.next := hnext
  obtain ⟨b, s, W₂, hrun₂, hle₂, hnext₂, hQ⟩ := hf W₁ hle a hP own₁
  exact ⟨b, s, W₂, (Work.bind_of_ok hrun).trans hrun₂, hle.trans hle₂, hnext₂, hQ⟩

theorem mono {P' : Registry → α → Prop} {w : Work SlotError σ α} (hw : Passes W w P)
    (h : ∀ W', W ≤ W' → ∀ a, P W' a → P' W' a) : Passes W w P' := fun own =>
  let ⟨a, s, W', hrun, hle, hnext, hP⟩ := hw own
  ⟨a, s, W', hrun, hle, hnext, h W' hle a hP⟩

theorem lift {make : Fresh α} (h : Records W make P) : Passes W (liftM make : Work SlotError σ α) P := fun _ =>
  let ⟨W', hle, hnext, hP⟩ := h
  ⟨_, _, W', rfl, hle, hnext, hP⟩

/-- The state is looked at. -/
theorem own {f : σ → Work SlotError σ α} (hf : ∀ x, Passes W (f x) P) : Passes W (Work.own >>= f) P :=
  fun x => hf x x

/-- The state is changed. -/
theorem modifyOwn {change : σ → σ} {w : Work SlotError σ α} (h : Passes W w P) :
    Passes W (Work.modifyOwn change >>= fun _ => w) P := fun x => h (change x)

theorem setOwn {x : σ} {w : Work SlotError σ α} (h : Passes W w P) :
    Passes W (Work.setOwn x >>= fun _ => w) P := fun _ => h x

end Passes

/-- The rules leave tokens and nodes looking as they did. -/
structure Transformer.Keeps (r : Transformer SlotError σ) : Prop where
  token : ∀ W (t : Token), t.Known W → Passes W (r.token t) (fun W' u => u.Shows W' t)
  node : ∀ W (n : Node), n.Known W → Passes W (r.node n) (fun W' rep => ∃ m, rep = .one m ∧ m.Shows W' n)

namespace Transformer.Keeps

variable {r : Transformer SlotError σ} (h : r.Keeps)

include h

theorem walkToken (ht : t.Known W) : Passes W (r.walkToken t) (fun W' w => w.value.Shows W' t) :=
  (h.token W t ht).bind (fun _ _ _ hu => .pure hu)

theorem walkList : ∀ {ns : List Node} {W : Registry}, (∀ n ∈ ns, n.Known W) →
    Passes W (r.walkList ns) (fun W' w => Node.AllShow W' w.value ns)
  | [], _, _ => .pure .nil
  | n :: ns, W, hns => by
    obtain ⟨hn, hrest⟩ := List.forall_mem_cons.1 hns
    refine (h.node W n hn).bind (fun W₁ h₁ rep hrep => ?_)
    obtain ⟨m, rfl, hm⟩ := hrep
    exact (walkList (fun m hm => (hrest m hm).up (by order))).bind (fun W₂ h₂ rest hsame =>
      .pure (.cons (hm.up (by order)) hsame))

theorem walkSeparators : ∀ {ts : List Token} {W : Registry}, (∀ t ∈ ts, t.Known W) →
    Passes W (r.walkSeparators ts) (fun W' w => Token.AllShow W' w.value ts)
  | [], _, _ => .pure .nil
  | t :: ts, W, hts => by
    obtain ⟨ht, hrest⟩ := List.forall_mem_cons.1 hts
    exact (h.walkToken ht).bind (fun W₁ h₁ u hu =>
      (walkSeparators (fun t ht => (hrest t ht).up (by order))).bind (fun W₂ h₂ rest hsame =>
        .pure (.cons (hu.up (by order)) hsame)))

theorem walkMember (parent : NodeKind) (slot : Nat) (hn : n.Known W) :
    Passes W (r.walkMember parent slot n) (fun W' w => w.value.Shows W' n) := by
  refine (h.node W n hn).bind (fun W₁ h₁ rep hrep => ?_)
  obtain ⟨m, rfl, hm⟩ := hrep
  exact .pure hm

theorem walkSeparated (parent : NodeKind) (slot : Nat) : ∀ {ns : List Node} {ts : List Token} {W : Registry},
    (∀ n ∈ ns, n.Known W) → (∀ t ∈ ts, t.Known W) →
    Passes W (r.walkSeparated parent slot ns ts)
      (fun W' w => Node.AllShow W' w.value.1 ns ∧ Token.AllShow W' w.value.2 ts)
  | [], ts, W, _, hts => (h.walkSeparators hts).bind (fun _ _ _ hsame => .pure ⟨.nil, hsame⟩)
  | n :: ns, [], W, hns, _ => by
    obtain ⟨hn, hrest⟩ := List.forall_mem_cons.1 hns
    refine (h.walkMember parent slot hn).bind (fun W₁ h₁ m hm => ?_)
    refine (walkSeparated parent slot (fun n hn => (hrest n hn).up (by order)) (fun _ ht => by cases ht)).bind
      (fun W₂ h₂ rest hsame => ?_)
    exact .pure ⟨.cons (hm.up (by order)) hsame.1, hsame.2⟩
  | n :: ns, t :: ts, W, hns, hts => by
    obtain ⟨hn, hrest⟩ := List.forall_mem_cons.1 hns
    obtain ⟨ht, hrest'⟩ := List.forall_mem_cons.1 hts
    refine (h.walkMember parent slot hn).bind (fun W₁ h₁ m hm => (h.walkToken (ht.up (by order))).bind
      (fun W₂ h₂ u hu => ?_))
    refine (walkSeparated parent slot (fun n hn => (hrest n hn).up (by order))
      (fun t ht => (hrest' t ht).up (by order))).bind
      (fun W₃ h₃ rest hsame => ?_)
    exact .pure ⟨.cons (hm.up (by order)) hsame.1, .cons (hu.up (by order)) hsame.2⟩

theorem walkSlot (parent : NodeKind) (index : Nat) (optional : Bool) {s : Slot} (hs : s.Known W) :
    Passes W (r.walkSlot parent index optional s) (fun W' w => w.value.Shows W' s) := by
  cases s with
  | absent => exact .pure Slot.shows_absent
  | token t => exact (h.walkToken (Slot.known_token.1 hs)).bind (fun _ _ _ hu => .pure hu.slot)
  | node n =>
    refine (h.node W n (Slot.known_node.1 hs)).bind (fun W₁ h₁ rep hrep => ?_)
    obtain ⟨m, rfl, hm⟩ := hrep
    exact .pure hm.slot
  | list ns => exact (h.walkList (Slot.known_list.1 hs)).bind (fun _ _ _ hms => .pure hms.slot)
  | separated ns ts =>
    obtain ⟨hns, hts⟩ := Slot.known_separated.1 hs
    exact (h.walkSeparated parent index hns hts).bind (fun _ _ _ hitems => .pure (Slot.shows_separated hitems.1 hitems.2))

theorem walkSlots (parent : NodeKind) : ∀ {index : Nat} {slots : List Slot} {W : Registry}, (∀ s ∈ slots, s.Known W) →
    Passes W (r.walkSlots parent index slots) (fun W' w => Slot.AllShow W' w.value slots)
  | _, [], _, _ => .pure .nil
  | index, s :: slots, W, hslots => by
    obtain ⟨hs, hrest⟩ := List.forall_mem_cons.1 hslots
    refine (h.walkSlot parent index _ hs).bind (fun W₁ h₁ s' hs' => ?_)
    exact (walkSlots parent (fun s hs => (hrest s hs).up (by order))).bind (fun W₂ h₂ rest hsame =>
      .pure (.cons (hs'.up (by order)) hsame))

/-- **A node that is walked looks as it did.** -/
theorem walk (hn : n.Known W) : Passes W (r.walk n) (fun W' m => m.Shows W' n) := by
  obtain ⟨id, kind, slots⟩ := n
  refine (h.walkSlots kind hn.slots).bind (fun W₁ h₁ w hw => ?_)
  replace hw : Slot.AllShow W₁ w.value slots := hw
  split
  · have hfits : (Node.mk 0 kind w.value).matchesSchema = true := by
      rw [← Node.matchesSchema_outline, Node.outline_mk, hw.outlines, ← Node.outline_mk id, Node.matchesSchema_outline]
      exact hn.matchesSchema
    have hmake : Node.make? kind w.value =
        (Node.fresh kind w.value >>= fun m => pure (.ok m) : Fresh (Except SlotError Node)) := by
      unfold Node.make?
      rw [NodeKind.checkSlots_of_fits (Node.matchesSchema_iff.1 hfits)]
    have hmade : Records W₁ (Node.fresh kind w.value >>= fun m => pure (.ok m) : Fresh (Except SlotError Node))
        (fun W' made => ∃ m, made = .ok m ∧ m.Shows W' (.mk id kind slots)) :=
      (records_node hw.known hfits).map (fun _ _ m hm => ⟨m, rfl, hm.1, by
        rw [hm.2.1, Node.outline_mk, Node.outline_mk, hw.outlines]⟩)
    unfold Transformer.make
    show Passes W₁ (liftM (Node.make? kind w.value) >>= _) _
    rw [hmake]
    refine (Passes.lift hmade).bind (fun W₂ h₂ made hm => ?_)
    obtain ⟨m, rfl, hm⟩ := hm
    exact .pure hm
  · exact .pure ⟨hn.up (by order), rfl⟩

end Transformer.Keeps

section Descend

variable {ofError : SlotError → SlotError} {token : Token → Work SlotError σ Token}

theorem Transformer.keeps_descend (htoken : ∀ W (t : Token), t.Known W → Passes W (token t) (fun W' u => u.Shows W' t)) :
    ∀ levels, (Transformer.ofRuleUpTo ofError token NodeRule.descend levels).Keeps
  | 0 => ⟨htoken, fun _ n hn => .pure ⟨n, rfl, hn, rfl⟩⟩
  | levels + 1 => ⟨htoken, fun _ _ hn =>
      ((keeps_descend htoken levels).walk hn).bind (fun _ _ m hm => .pure ⟨m, rfl, hm⟩)⟩

/-- **A pass that keeps the looks of tokens keeps those of trees.** -/
theorem passes_transformTokens (htoken : ∀ W (t : Token), t.Known W → Passes W (token t) (fun W' u => u.Shows W' t))
    (hn : n.Known W) : Passes W (n.transformTokens token) (fun W' m => m.Shows W' n) := by
  refine ((Transformer.keeps_descend htoken n.height).node W n hn).bind (fun W₁ h₁ rep hrep => ?_)
  obtain ⟨m, rfl, hm⟩ := hrep
  exact .pure hm

end Descend

/-- A pass that is run from a state of its own. -/
theorem Passes.records {α : Type} {P : Registry → α → Prop} {w : Work SlotError σ α} (h : Passes W w P) (own : σ) :
    Records W (fun next => let (outcome, _, next) := w.runFrom own next; (outcome, next))
      (fun W' r => ∃ a, r = .ok a ∧ P W' a) := by
  obtain ⟨a, s, W', hrun, hle, hnext, hP⟩ := h own
  have houtcome : w.runFrom own W.next = (.ok a, s.own, s.next) := by
    unfold Work.runFrom
    rw [hrun]
  refine ⟨W', hle, ?_, a, ?_, hP⟩
  all_goals dsimp only
  all_goals rw [houtcome]
  exact hnext

/-! ## Moved lines, and tokens told apart -/

theorem passes_shiftToken (s : Shift) (ht : t.Known W) : Passes W (s.token t) (fun W' u => u.Shows W' t) := by
  unfold Shift.token
  split
  · exact .pure ⟨ht, rfl⟩
  · refine .own (fun atLine => .setOwn ?_)
    extract_lets finish
    have htrailing : ∀ W', W ≤ W' → ∀ u : Token, u.Shows W' t → Passes W' (finish u) (fun W' u => u.Shows W' t) := by
      intro W' hle u hu
      unfold finish
      split
      · exact .lift (records_tokenWithTrailing.mono (fun _ _ _ hv => hv.trans hu.outline))
      · exact .pure hu
    cases (s.apply atLine true t.leading).result? with
    | some trivia => exact (Passes.lift records_tokenWithLeading).bind htrailing
    | none => exact (Passes.pure (P := fun W' u => u.Shows W' t) ⟨ht, rfl⟩).bind htrailing

/-- **A tree with its lines moved looks as it did.** -/
theorem records_reindented (s : Shift) (first : Bool) (hn : n.Known W) :
    Records W (n.reindented s first) (fun W' r => ∃ m, r = .ok m ∧ m.Shows W' n) := by
  by_cases hdelta : s.delta = 0
  · refine ⟨W, le_rfl, ?_, n, ?_, hn, rfl⟩
    all_goals simp only [Node.reindented, if_pos hdelta]
  · have hrecords := (passes_transformTokens (fun _ _ ht => passes_shiftToken s ht) hn).records first
    have heq : n.reindented s first = fun next =>
        (((n.transformTokens s.token).runFrom first next).1, ((n.transformTokens s.token).runFrom first next).2.2) := by
      funext next
      unfold Node.reindented
      rw [if_neg hdelta]
    rw [heq]
    exact hrecords

theorem passes_unlessMet (ht : t.Known W) : Passes W t.unlessMet (fun W' u => u.Shows W' t) := by
  unfold Token.unlessMet
  refine .own (fun met => ?_)
  split
  · exact .lift records_copy
  · exact .modifyOwn (.pure ⟨ht, rfl⟩)

/-- **A tree with its tokens told apart looks as it did.** -/
theorem records_uniqueTokens (hn : n.Known W) :
    Records W n.withUniqueTokens (fun W' r => ∃ m, r = .ok m ∧ m.Shows W' n) :=
  (passes_transformTokens (fun _ _ ht => passes_unlessMet ht) hn).records []

/-! ## Statements that are placed, and blocks -/

variable {n' : Node} {ns ns' : List Node}

theorem Node.AllShow.isEmpty_eq (h : Node.AllShow W ns ns') : ns'.isEmpty = ns.isEmpty := by cases h <;> rfl

namespace Records

/-- Trees are laid out one by one. -/
theorem mapM_layout {lay : Node → Fresh Node}
    (h : ∀ W (n n' : Node), n.Shows W n' → Records W (lay n) (fun W' m => m.Shows W' n')) :
    ∀ {ns ns' : List Node} {W : Registry}, Node.AllShow W ns ns' →
      Records W (ns.mapM lay) (fun W' ms => Node.AllShow W' ms ns')
  | [], _, _, hns => by
    cases hns
    rw [List.mapM_nil]
    exact .pure .nil
  | n :: ns, _, W, hns => by
    cases hns with
    | cons hn hrest =>
      rw [List.mapM_cons]
      exact (h W _ _ hn).bind (fun W₁ h₁ m hm => (mapM_layout h (Node.AllShow.up hrest (by order))).map
        (fun W₂ h₂ ms hms => .cons (hm.up (by order)) hms))

end Records

namespace LoweringContext

variable {c : LoweringContext} {column : Nat}

theorem records_statementAt (h : n.Shows W n') : Records W (c.statementAt column n) (fun W' m => m.Shows W' n') :=
  records_withTrivia h

theorem records_placeStatements (h : Node.AllShow W ns ns') :
    Records W (c.placeStatements column ns) (fun W' ms => Node.AllShow W' ms ns') :=
  Records.mapM_layout (fun _ _ _ hn => records_withTrivia hn) h

theorem records_relocateFirst (h : Node.AllShow W ns ns') :
    Records W (c.relocateFirst column ns) (fun W' ms => Node.AllShow W' ms ns') := by
  cases h with
  | nil => exact .pure .nil
  | cons hn hrest => exact (records_withLeading hn).map (fun _ _ _ hm => .cons hm (Node.AllShow.up hrest (by order)))

theorem records_endLastLine : ∀ {ns ns' : List Node} {W : Registry}, Node.AllShow W ns ns' →
    Records W (c.endLastLine ns) (fun W' ms => Node.AllShow W' ms ns')
  | [], _, _, h => by
    cases h
    exact .pure .nil
  | [n], _, _, h => by
    cases h with
    | cons hn hrest =>
      cases hrest
      exact (records_withTrailing hn).map (fun _ _ _ hm => .cons hm .nil)
  | n :: m :: ns, _, _, h => by
    cases h with
    | cons hn hrest => exact (records_endLastLine hrest).map (fun _ _ _ hms => .cons (hn.up (by order)) hms)

theorem draws_captureStatement : Draws W (c.captureStatement column) Draft.captureStatement Node.Shows := by
  unfold captureStatement Draft.captureStatement
  refine (Build.draws_identifier _).bind (fun W₁ h₁ name name' hname => ?_)
  refine Build.draws_thisExpression.bind (fun W₂ h₂ this this' hthis => ?_)
  exact (Build.draws_variableStatement (hname.up (by order)) (.some hthis)).layAfter
    (fun _ _ _ _ hs => records_statementAt hs)

theorem draws_withCapture (captured : Bool) (h : Node.AllShow W ns ns') :
    Draws W (c.withCapture captured column ns) (Draft.withCapture captured ns') Node.AllShow := by
  unfold withCapture Draft.withCapture
  cases captured with
  | true => exact draws_captureStatement.map (fun _ _ _ _ hs => .cons hs (h.up (by order)))
  | false => exact .pure h

/-- Moved lines are no part of a draft. -/
theorem follows_reindent (first : Bool) (delta : Int) (h : n.Shows W n') :
    Follows W (c.reindent n first delta) (pure n') Node.Shows :=
  .ofTransformed ((records_reindented _ _ h.known).mono (fun _ _ _ ⟨m, hr, hm⟩ => ⟨m, hr, hm.trans h.outline⟩))

/-- **A block with statements at its top looks like the draft of one.** -/
theorem follows_assembleBlock (bodyColumn closeColumn : Nat) (hblock : n.Shows W n') (h : Node.AllShow W ns ns') :
    Follows W (c.assembleBlock n ns bodyColumn closeColumn) (Draft.assembleBlock n' ns') Node.Shows := by
  unfold assembleBlock Draft.assembleBlock
  cases h with
  | nil => exact .pure hblock
  | @cons first first' rest rest' hfirst hrest =>
    have hall : Node.AllShow W (first :: rest) (first' :: rest') := .cons hfirst hrest
    dsimp only [List.isEmpty_cons, Bool.false_eq_true, if_false]
    refine .viewShown hblock (fun v v' _ hv hparts => ?_)
    simp only [NodeView.toSlots, List.forall_mem_cons, Slot.known_token, Slot.known_list] at hparts
    obtain ⟨hopen, hstatements, hclose, -⟩ := hparts
    have hshow : Node.AllShow W v.statements v'.statements := .ofOutlines hstatements (congrArg Block.statements hv)
    refine .lay (records_placeStatements hall) (fun W₁ h₁ placed hplaced => ?_)
    refine .lay (records_relocateFirst (hshow.up (by order))) (fun W₂ h₂ moved hmoved => ?_)
    refine .lay (records_endLastLine (List.rel_append (hplaced.up (by order)) hmoved)) (fun W₃ h₃ statements hs => ?_)
    refine .lay records_tokenWithTrailing (fun W₄ h₄ openBrace ho => ?_)
    refine .lay records_tokenWithLeading (fun W₅ h₅ closeBrace hc => ?_)
    exact .lift (Build.draws_block ((ho.up (by order)).trans (congrArg Block.openBrace hv)) (hs.up (by order))
      (hc.trans (congrArg Block.closeBrace hv)))

end LoweringContext

end Downlevel
