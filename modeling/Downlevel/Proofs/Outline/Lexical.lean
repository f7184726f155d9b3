import Downlevel.Proofs.Outline.Helper
import Downlevel.Proofs.Outline.Nested
import Downlevel.Proofs.Outline.Twice
/-!
# Proofs.Outline.Lexical — arrow functions keep the `this` of the place where they stand

Where no name of a program is `_this`, what becomes of it refers to `this` as is written down of it: a place within an
arrow function of its scope by `_this`, every other place by the keyword, and each scope declares `_this` in front of
its statements if and only if there is such a place in it (`lower_captures`).  The statements of the helper for derived
classes, where it stands in front of a program, are no part of this.
-/
namespace Downlevel

variable {text : List Char} {tree n m u : Node} {ns : List Node} {i j k next : ObjectId} {o : LoweringOptions}
  {layout : LayoutOptions} {s s' : Supplied LoweringState}

/-! ## Programs -/

/-- Where the words of a tree are as they are asked to be, those of the outline are. -/
theorem Node.words_outline {P : TokenKind → List Char → Prop} (hfits : n.WellFormed)
    (h : ∀ t ∈ n.tokens, P t.kind t.text) :
    n.outline.Sound (fun _ => True) ⟨fun _ => True, P⟩ 1 := by
  refine Node.sound_of (Node.every_outline.2 (hfits.mono (fun _ hm => Node.fitsKind_outline.2 hm))) (fun _ _ => trivial)
    (Node.every_outline.2 (fun m _ => ?_)) (fun t ht => ?_)
  · show m.outline.id < 1
    rw [Node.outline_eq]
    exact Nat.one_pos
  · rw [Node.tokens_outline] at ht
    obtain ⟨u, hu, rfl⟩ := List.mem_map.1 ht
    exact ⟨Nat.one_pos, fun _ _ => trivial, fun _ _ => trivial, h u hu⟩

/-- Where no name is `_this`, none is in the outline. -/
theorem Node.unnamed_outline (hfits : n.WellFormed) (h : ∀ t ∈ n.tokens, t.isCapture = false) : n.outline.Unnamed 1 :=
  Node.words_outline hfits (fun t ht => by simpa [Token.isCapture] using h t ht)

theorem Node.references_of_viewProgram {v : SourceUnit} (hv : n.view? SourceUnit = some v) :
    n.references = Reference.ofBody (Node.capturesFrom 0 v.elements) (v.elements.flatMap Node.references) := by
  have hslots := slots_of_view? hv
  obtain ⟨id, kind, slots⟩ := n
  obtain rfl : kind = .sourceUnit := kind_of_view? hv
  obtain rfl : slots = NodeView.toSlots v := hslots
  rw [references_body rfl]
  simp [NodeView.toSlots]

namespace Draft

/-- A program becomes a program. -/
theorem notes_sourceUnit_view {visit : Node → Draft Replacement} {inArrow : Bool} : (sourceUnit visit n).Notes inArrow
    (fun r _ => ∃ m, r = .one m ∧ (m.view? SourceUnit).isSome) :=
  .viewAny (fun _ _ => .bind (P := fun _ _ => True) (fun _ _ _ => trivial)
    (fun _ _ _ => .made (.made (.pure ⟨_, rfl, rfl⟩))))

/-- The draft of a program is a program. -/
theorem notes_ofTree_view (hk : n.kind = .sourceUnit) :
    (ofTree n.outline).Notes false (fun m _ => (m.view? SourceUnit).isSome) := by
  obtain ⟨levels, hlevels⟩ : ∃ levels, LoweringFault.maxTreeDepth = levels + 1 := ⟨_, rfl⟩
  have hkind : n.outline.kind = .sourceUnit := (Node.kind_outline n).trans hk
  have hview : (visitUpTo LoweringFault.maxTreeDepth n.outline).Notes false
      (fun r _ => ∃ m, r = .one m ∧ (m.view? SourceUnit).isSome) := by
    rw [hlevels, visitUpTo, rule, hkind]
    exact notes_sourceUnit_view
  exact hview.andThen (fun r _ hr => by
    obtain ⟨m, rfl, hm⟩ := hr
    exact .pure ⟨rfl, hm⟩)

/-- **The draft of a program is the scope that is written down of it.** -/
theorem notes_ofTree (hk : n.kind = .sourceUnit) (hn : n.outline.Unnamed k) :
    (ofTree n.outline).Notes false (fun m marks => Account.mk marks m.references = n.account.scope 0) := by
  obtain ⟨levels, hlevels⟩ : ∃ levels, LoweringFault.maxTreeDepth = levels + 1 := ⟨_, rfl⟩
  have hkind : n.outline.kind = .sourceUnit := (Node.kind_outline n).trans hk
  have hscope : Account.upTo LoweringFault.maxTreeDepth false n.outline = n.account.scope 0 := by
    rw [Node.account, hlevels, Account.upTo, Account.rule, hkind, Nat.add_sub_cancel]
  exact fun m marks hm => (notes_lower (keeps_visitUpTo _) hn m marks hm).trans hscope

end Draft

/-! ## The helper -/

/-- The statements are, but for their layout, those of the helper for derived classes. -/
def Node.AreHelper (layout : LayoutOptions) (ns : List Node) : Prop :=
  ∃ helper k j program, parseFrom layout.extendsHelper k = (.ok helper, j) ∧ helper.view? SourceUnit = some program ∧
    ns.map Node.outline = program.elements.map Node.outline

theorem references_of_outlines {ns ns' : List Node} (h : ns.map Node.outline = ns'.map Node.outline) :
    ns.flatMap Node.references = ns'.flatMap Node.references ∧ Node.capturesFrom i ns = Node.capturesFrom i ns' := by
  have hreferences : ∀ ns : List Node, (ns.map Node.outline).flatMap Node.references = ns.flatMap Node.references :=
    fun ns => List.flatMap_map .. |>.trans (List.flatMap_congr (fun m _ => m.references_outline))
  exact ⟨by rw [← hreferences, h, hreferences], by rw [← Node.capturesFrom_outline, h, Node.capturesFrom_outline]⟩

theorem Node.AreHelper.congr {ns' : List Node} (h : Node.AreHelper layout ns)
    (hsame : ns'.map Node.outline = ns.map Node.outline) : Node.AreHelper layout ns' := by
  obtain ⟨helper, k, j, program, hparse, hv, houtlines⟩ := h
  exact ⟨helper, k, j, program, hparse, hv, hsame.trans houtlines⟩

/-- The statements of the helper as they are laid out if nothing else is asked for. -/
def helperStatements : List Node :=
  ((parseFrom LayoutOptions.standard.extendsHelper 0).1.toOption.bind (Node.view? SourceUnit)).elim [] SourceUnit.elements

/-- **The statements of the helper are the same however they are laid out**, if lines end as lines do. -/
theorem Node.AreHelper.outlines (h : Node.AreHelper layout ns) (hend : ∃ e : LineEnding, layout.newLine = e.text) :
    ns.map Node.outline = helperStatements.map Node.outline := by
  obtain ⟨helper, k, j, program, hparse, hv, houtlines⟩ := h
  have halike : ReadAlike (parseFrom layout.extendsHelper k).1 (parseFrom LayoutOptions.standard.extendsHelper 0).1 :=
    readAlike_extendsHelper hend ⟨.lf, rfl⟩ k 0
  rw [hparse] at halike
  rw [houtlines, helperStatements]
  generalize (parseFrom LayoutOptions.standard.extendsHelper 0).1 = standard at halike ⊢
  cases halike with
  | @ok _ standard hlook =>
    have hviews := view?_of_outline_eq (α := SourceUnit) hlook
    rw [hv, Option.map_some] at hviews
    obtain ⟨program', hv', hsame⟩ := Option.map_eq_some_iff.1 hviews.symm
    have hbind : (Except.ok standard : Except ParseError Node).toOption.bind (Node.view? SourceUnit) = some program' := hv'
    rw [hbind]
    exact congrArg SourceUnit.elements hsame.symm

/-- The places of the helper that refer to `this`: its own value if there is one, and the object that it makes. -/
def helperReferences : List Reference := [.this, .body [] [.body [] [.this]]]

/-- **The helper captures nothing**, if lines end as lines do. -/
theorem Node.AreHelper.references (h : Node.AreHelper layout ns) (hend : ∃ e : LineEnding, layout.newLine = e.text) :
    Node.capturesFrom 0 ns = [] ∧ ns.flatMap Node.references = helperReferences := by
  obtain ⟨hsame, hcaptures⟩ := references_of_outlines (i := 0) (h.outlines hend)
  rw [hsame, hcaptures]
  decide +kernel

/-- What the helper is put in front of, where it is asked for, holds its own statements behind those of the helper. -/
theorem helped_after {W : Registry} {program : SourceUnit} {asked : Bool} (hnext : s.next = W.next) (hknown : n.Known W)
    (hv : n.view? SourceUnit = some program)
    (h : asked = false ∧ m = n ∧ s' = s ∨ asked = true ∧ n.withExtendsHelper layout s = .ok m s') :
    ∃ (W' : Registry) (front : List Node), s'.next = W'.next ∧ m.Known W' ∧
      m.view? SourceUnit = some { program with elements := front ++ program.elements } ∧
      if asked then Node.AreHelper layout front else front = [] := by
  rcases h with ⟨rfl, rfl, rfl⟩ | ⟨rfl, h⟩
  · exact ⟨W, [], hnext, hknown, hv, rfl⟩
  rcases Node.withExtendsHelper_eq_ok h with ⟨hnone, -, -⟩ | ⟨program', helper, v, j, hv', hread, hw, rfl, rfl⟩
  · cases hv.symm.trans hnone
  · cases hv.symm.trans hv'
    rw [hnext] at hread
    obtain ⟨W₁, h₁, rfl, hhelper⟩ := Registry.held_parse hread
    obtain ⟨W₂, h₂, hnext₂, hafter⟩ := SourceUnit.known_after (hknown.up (by order)) hhelper.known hv hw
    exact ⟨W₂, v.elements, hnext₂.symm, hafter, Node.view?_mk_toSlots _ _, helper, _, _, v, hread, hw, rfl⟩

/-! ## What comes out -/

/-- What the rules make of a program looks like its draft, and whether a class with a base was lowered is what the draft
says. -/
theorem drafted_lowerByRules {W : Registry} (hprogram : IsProgram text i k tree) (hheld : tree.Held W)
    (h : tree.lowerByRules layout ⟨W.next, .initial⟩ = .ok m s) :
    ∃ (W' : Registry) (m' : Node) (marks : Marks) (program : SourceUnit),
      Draft.ofTree tree.outline false = some (m', marks) ∧ s.next = W'.next ∧ s.own.derived = marks.derived ∧ m.Known W' ∧
        m.view? SourceUnit = some program ∧ m.outline = m'.outline := by
  have hfollows := hheld.follows_lowerByRules hprogram.kind layout .initial false
  rw [h] at hfollows
  generalize hd : Draft.ofTree tree.outline false = d at hfollows
  cases hfollows with
  | ok hW hs hshows hown =>
    have hview := congrArg Option.isSome (view?_of_outline_eq (α := SourceUnit) hshows.outline)
    rw [Option.isSome_map, Option.isSome_map, Draft.notes_ofTree_view hprogram.kind _ _ hd] at hview
    obtain ⟨program, hv⟩ := Option.isSome_iff_exists.1 hview
    exact ⟨_, _, _, program, rfl, hs, hown ▸ Bool.false_or _, hshows.known, hv, hshows.outline⟩

/-- **What is made of a tree of the dialect** is what the rules make of it, behind the helper if that is asked for and a
class with a base was lowered. -/
theorem parts_lowerSpecific (hparse : parseFrom text i = (.ok tree, k)) (hnext : k ≤ next)
    (h : tree.lowerSpecific o ⟨next, .initial⟩ = .ok u s') :
    ∃ m' marks program result front own, Draft.ofTree tree.outline false = some (m', marks) ∧
      m'.view? SourceUnit = some program ∧ u.view? SourceUnit = some result ∧ result.elements = front ++ own ∧
      (if o.emitHelpers && marks.derived then Node.AreHelper o.layout front else front = []) ∧
      own.map Node.outline = program.elements.map Node.outline ∧
      result.endOfFile.outline = program.endOfFile.outline := by
  obtain ⟨lowered, s₁, helped, s₂, hrules, hhelped, hunique⟩ := Node.lowerSpecific_eq_ok h
  obtain ⟨W, rfl, hheld⟩ := held_of_parse hparse hnext
  obtain ⟨W₁, m', marks, program, hdraft, hs₁, hderived, hknown, hv, hlook⟩ :=
    drafted_lowerByRules (parseFrom_isProgram hparse).2 hheld hrules
  obtain ⟨W₂, front, hs₂, hknown₂, hwhole, hfront⟩ := helped_after hs₁ hknown hv hhelped
  obtain ⟨W₃, -, -, m, hm, hshows⟩ := records_uniqueTokens hknown₂
  rw [← hs₂, hunique] at hm
  cases hm
  -- Three trees look alike: what the draft makes, what the rules make, and what is left once the tokens are told
  -- apart.
  have hdrafted := view?_of_outline_eq (α := SourceUnit) hlook
  rw [hv, Option.map_some] at hdrafted
  obtain ⟨program', hv', hsame'⟩ := Option.map_eq_some_iff.1 hdrafted.symm
  have hprogram : program.elements.map Node.outline = program'.elements.map Node.outline :=
    congrArg SourceUnit.elements hsame'.symm
  have hend : program.endOfFile.outline = program'.endOfFile.outline := congrArg SourceUnit.endOfFile hsame'.symm
  have hview := view?_of_outline_eq (α := SourceUnit) hshows.outline
  rw [hwhole, Option.map_some] at hview
  obtain ⟨result, hu, hsame⟩ := Option.map_eq_some_iff.1 hview
  have houtlines : result.elements.map Node.outline = front.map Node.outline ++ program.elements.map Node.outline := by
    rw [← List.map_append]
    exact congrArg SourceUnit.elements hsame
  obtain ⟨front', own, hsplit, hfront', hown⟩ := List.map_eq_append_iff.1 houtlines
  refine ⟨m', marks, program', result, front', own, hdraft, hv', hu, hsplit, ?_, hown.trans hprogram,
    (congrArg SourceUnit.endOfFile hsame).trans hend⟩
  rw [← hderived]
  split
  · rename_i hasked
    rw [if_pos hasked] at hfront
    exact hfront.congr hfront'
  · rename_i hasked
    rw [if_neg hasked] at hfront
    rw [hfront] at hfront'
    exact List.map_eq_nil_iff.1 hfront'

/-- What is made of a tree of the dialect is the scope that is written down of it, behind the helper if that is asked for. -/
theorem captures_lowerSpecific (hparse : parseFrom text i = (.ok tree, k)) (hnext : k ≤ next)
    (hunnamed : ∀ t ∈ tree.tokens, t.isCapture = false) (h : tree.lowerSpecific o ⟨next, .initial⟩ = .ok u s') :
    ∃ result front own, u.view? SourceUnit = some result ∧ result.elements = front ++ own ∧
      (if o.emitHelpers && tree.account.marks.derived then Node.AreHelper o.layout front else front = []) ∧
      Reference.ofBody (Node.capturesFrom 0 own) (own.flatMap Node.references) = (tree.account.scope 0).references := by
  have hprogram := (parseFrom_isProgram hparse).2
  obtain ⟨m', marks, program, result, front, own, hdraft, hv, hu, hsplit, hfront, hown, -⟩ :=
    parts_lowerSpecific hparse hnext h
  have hscope := Draft.notes_ofTree hprogram.kind (Node.unnamed_outline hprogram.wellFormed hunnamed) _ _ hdraft
  have hderived : marks.derived = tree.account.marks.derived := congrArg (fun a => a.marks.derived) hscope
  obtain ⟨hreads, hcaptures⟩ := references_of_outlines (i := 0) hown
  refine ⟨result, front, own, hu, hsplit, hderived ▸ hfront, ?_⟩
  rw [hreads, hcaptures, ← Node.references_of_viewProgram hv]
  exact congrArg Account.references hscope

/-- **`this` is captured exactly where it has to be.**  Of a program in which no name is `_this`, either nothing is lowered,
and then it has no arrow function; or each of its scopes refers to `this` as is written down of it, the helper apart, which
stands in front where it is asked for and a class has a base. -/
theorem lower_captures (text : List Char) (o : LoweringOptions) (tree u : Node) (i k next : ObjectId)
    (hparse : parseFrom text i = (.ok tree, k)) (hnext : k ≤ next)
    (hunnamed : ∀ t ∈ tree.tokens, t.isCapture = false) (hlower : (tree.lower o next).1 = .ok u) :
    if tree.isSpecific then ∃ result front own, u.view? SourceUnit = some result ∧ result.elements = front ++ own ∧
      (if o.emitHelpers && tree.account.marks.derived then Node.AreHelper o.layout front else front = []) ∧
      ((∃ e : LineEnding, o.layout.newLine = e.text) → Node.capturesFrom 0 front = []) ∧
      Reference.ofBody (Node.capturesFrom 0 own) (own.flatMap Node.references) = (tree.account.scope 0).references
    else u = tree ∧ tree.Every (fun n => n.isDialectForm = false) := by
  rcases Node.lower_eq_ok hlower with ⟨hspecific, s, hrun⟩ | ⟨hspecific, rfl⟩
  · rw [if_pos hspecific]
    obtain ⟨result, front, own, hu, hsplit, hfront, hown⟩ := captures_lowerSpecific hparse hnext hunnamed hrun
    refine ⟨result, front, own, hu, hsplit, hfront, fun hend => ?_, hown⟩
    split at hfront
    · exact (hfront.references hend).1
    · rw [hfront]
      rfl
  · rw [if_neg (Bool.eq_false_iff.1 hspecific)]
    exact ⟨rfl, Node.isSpecific_eq_false_iff.1 hspecific⟩

/-- A class with a base, whose constructor captures `this` for a call of a method of the base class in an arrow function,
behind the helper; a method of it captures nothing. -/
theorem lower_captures_constructor : ∃ tree k u result front own,
    parseFrom ("class A extends B \x7b constructor() \x7b super(); g(() => super.m(this)); \x7d " ++
      "h() \x7b return this; \x7d \x7d").toList 0 = (.ok tree, k) ∧
    (∀ t ∈ tree.tokens, t.isCapture = false) ∧
    (tree.lower { LoweringOptions.standard with emitHelpers := true } k).1 = .ok u ∧
    u.view? SourceUnit = some result ∧ result.elements = front ++ own ∧ Node.AreHelper LayoutOptions.standard front ∧
    Node.capturesFrom 0 front = [] ∧ Reference.ofBody (Node.capturesFrom 0 own) (own.flatMap Node.references) =
      [.body [] [.body []
        [.body [0] [.capture, .this, .this, .body [] [.captured, .captured]], .body [] [.this]]]] := by
  have hok : lowersInto { LoweringOptions.standard with emitHelpers := true }
      (fun tree _ => tree.tokens.all (fun t => !t.isCapture) && tree.isSpecific && tree.account.marks.derived &&
        decide ((tree.account.scope 0).references = [.body [] [.body []
          [.body [0] [.capture, .this, .this, .body [] [.captured, .captured]], .body [] [.this]]]]))
      ("class A extends B \x7b constructor() \x7b super(); g(() => super.m(this)); \x7d " ++
        "h() \x7b return this; \x7d \x7d").toList = true := by decide +kernel
  obtain ⟨tree, k, u, hparse, hlower, htest⟩ := exists_of_lowersInto _ _ _ hok
  simp only [Bool.and_eq_true, decide_eq_true_eq, List.all_eq_true, Bool.not_eq_true'] at htest
  obtain ⟨⟨⟨hunnamed, hspecific⟩, hderived⟩, hscope⟩ := htest
  have hcaptures := lower_captures _ _ tree u 0 k k hparse le_rfl hunnamed hlower
  rw [if_pos hspecific] at hcaptures
  obtain ⟨result, front, own, hu, hsplit, hfront, hnone, hown⟩ := hcaptures
  rw [hderived] at hfront
  exact ⟨tree, k, u, result, front, own, hparse, hunnamed, hlower, hu, hsplit, hfront, hnone ⟨.lf, rfl⟩, hown.trans hscope⟩

end Downlevel
