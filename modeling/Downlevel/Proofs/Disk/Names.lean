import Mathlib.Data.List.Basic
import Downlevel.Disk.FilePath
/-!
# Proofs.Disk.Names — the names that paths end with

The pieces of a path are cut at its slashes and nowhere else, so joined and changed paths have the pieces they are put
together of.  The name a path ends with is told by its steps (`fileName?_eq`): spellings of one path end with one name.
-/
namespace Downlevel

namespace FilePath

/-! ## Pieces -/

theorem piecesOf_ne_nil (t : List Char) : piecesOf t ≠ [] := by
  cases t with
  | nil => exact List.cons_ne_nil _ _
  | cons c cs =>
    unfold piecesOf
    split
    · exact List.cons_ne_nil _ _
    · split <;> exact List.cons_ne_nil _ _

theorem piecesOf_slash_cons (cs : List Char) : piecesOf ('/' :: cs) = [] :: piecesOf cs := by
  obtain ⟨piece, rest, h⟩ := List.exists_cons_of_ne_nil (piecesOf_ne_nil cs)
  simp only [piecesOf, h, if_true]

theorem piecesOf_cons_of_ne {c : Char} (hc : c ≠ '/') {cs piece : List Char} {rest : List (List Char)}
    (h : piecesOf cs = piece :: rest) : piecesOf (c :: cs) = (c :: piece) :: rest := by
  simp only [piecesOf, h, if_neg hc]

theorem slash_not_mem {t piece : List Char} (h : piece ∈ piecesOf t) : '/' ∉ piece := by
  induction t generalizing piece with
  | nil =>
    rw [List.mem_singleton.1 h]
    exact List.not_mem_nil
  | cons c cs ih =>
    by_cases hc : c = '/'
    · rw [hc, piecesOf_slash_cons] at h
      obtain rfl | h := List.mem_cons.1 h
      · exact List.not_mem_nil
      · exact ih h
    · obtain ⟨first, rest, hcs⟩ := List.exists_cons_of_ne_nil (piecesOf_ne_nil cs)
      rw [piecesOf_cons_of_ne hc hcs] at h
      obtain rfl | h := List.mem_cons.1 h
      · exact fun hmem => (List.mem_cons.1 hmem).elim (fun heq => hc heq.symm) (ih (hcs ▸ List.mem_cons_self))
      · exact ih (hcs ▸ List.mem_cons_of_mem _ h)

theorem piecesOf_of_not_mem {t : List Char} (h : '/' ∉ t) : piecesOf t = [t] := by
  induction t with
  | nil => rfl
  | cons c cs ih =>
    rw [List.mem_cons, not_or] at h
    exact piecesOf_cons_of_ne (Ne.symm h.1) (ih h.2)

theorem piecesOf_slash (before behind : List Char) :
    piecesOf (before ++ '/' :: behind) = piecesOf before ++ piecesOf behind := by
  induction before with
  | nil => exact piecesOf_slash_cons behind
  | cons c cs ih =>
    rw [List.cons_append]
    by_cases hc : c = '/'
    · rw [hc, piecesOf_slash_cons, piecesOf_slash_cons, ih, List.cons_append]
    · obtain ⟨first, rest, hcs⟩ := List.exists_cons_of_ne_nil (piecesOf_ne_nil cs)
      rw [hcs, List.cons_append] at ih
      rw [piecesOf_cons_of_ne hc ih, piecesOf_cons_of_ne hc hcs, List.cons_append]

theorem pieces_ofPieces {pieces : List (List Char)} (hne : pieces ≠ []) (h : ∀ piece ∈ pieces, '/' ∉ piece) :
    (ofPieces pieces).pieces = pieces := by
  induction pieces with
  | nil => exact absurd rfl hne
  | cons first rest ih =>
    have hfirst : '/' ∉ first := h first List.mem_cons_self
    cases rest with
    | nil => exact piecesOf_of_not_mem hfirst
    | cons second rest =>
      have hrest := ih (List.cons_ne_nil _ _) fun piece hp => h piece (List.mem_cons_of_mem _ hp)
      calc piecesOf (first ++ ['/'] ++ Text.join ['/'] (second :: rest))
          = piecesOf (first ++ '/' :: Text.join ['/'] (second :: rest)) := by
            rw [List.append_assoc, List.singleton_append]
        _ = first :: second :: rest := by
            rw [piecesOf_slash, piecesOf_of_not_mem hfirst]
            exact congrArg _ hrest

/-- A path starts at the top of the disk when its first piece is blank and there are more. -/
theorem isAbsolute_iff {p : FilePath} {first : List Char} {rest : List (List Char)} (h : p.pieces = first :: rest) :
    p.isAbsolute = true ↔ first = [] ∧ rest ≠ [] := by
  unfold pieces at h
  unfold isAbsolute
  cases htext : p.text with
  | nil =>
    rw [htext] at h
    obtain ⟨rfl, rfl⟩ := List.cons.inj h
    exact ⟨nofun, fun h => absurd rfl h.2⟩
  | cons c cs =>
    rw [List.head?_cons, beq_iff_eq, Option.some_inj]
    rw [htext] at h
    by_cases hc : c = '/'
    · rw [hc, piecesOf_slash_cons] at h
      obtain ⟨rfl, rfl⟩ := List.cons.inj h
      exact ⟨fun _ => ⟨rfl, piecesOf_ne_nil cs⟩, fun _ => hc⟩
    · obtain ⟨piece, others, hcs⟩ := List.exists_cons_of_ne_nil (piecesOf_ne_nil cs)
      rw [piecesOf_cons_of_ne hc hcs] at h
      obtain ⟨rfl, rfl⟩ := List.cons.inj h
      exact ⟨fun heq => absurd heq hc, fun h => absurd h.1 (List.cons_ne_nil _ _)⟩

/-- What is joined to a path brings its pieces behind others. -/
theorem pieces_join (base p : FilePath) : ∃ before, (base.join p).pieces = before ++ p.pieces := by
  unfold join
  split
  · exact ⟨[], rfl⟩
  split
  · rename_i h
    obtain h | h := h
    · exact ⟨[], by rw [pieces, h]; rfl⟩
    · obtain ⟨front, hfront⟩ := List.getLast?_eq_some_iff.1 h
      refine ⟨piecesOf front, ?_⟩
      rw [pieces, hfront, List.append_assoc, List.singleton_append]
      exact piecesOf_slash front p.text
  · exact ⟨base.pieces, piecesOf_slash base.text p.text⟩

/-! ## Steps -/

def isName (piece : List Char) : Bool := !isIdle piece && piece != ['.', '.']

theorem isName_iff {piece : List Char} : isName piece = true ↔ isIdle piece = false ∧ piece ≠ ['.', '.'] := by
  rw [isName, Bool.and_eq_true, Bool.not_eq_true', bne_iff_ne]

theorem ofPiece?_of_isIdle {piece : List Char} (h : isIdle piece = true) : PathStep.ofPiece? piece = none := by
  rw [isIdle, Bool.or_eq_true, beq_iff_eq, beq_iff_eq] at h
  exact if_pos h

theorem ofPiece?_eq {piece : List Char} (h : isIdle piece = false) :
    PathStep.ofPiece? piece = if piece = ['.', '.'] then some .up else some (.name piece) := by
  rw [isIdle, Bool.or_eq_false_iff, beq_eq_false_iff_ne, beq_eq_false_iff_ne] at h
  exact if_neg (not_or.2 h)

theorem filterMap_of_isIdle {pieces : List (List Char)} (h : ∀ piece ∈ pieces, isIdle piece = true) :
    pieces.filterMap PathStep.ofPiece? = [] :=
  List.filterMap_eq_nil_iff.2 fun piece hp => ofPiece?_of_isIdle (h piece hp)

/-- The last step of a path is that of its last piece that says something. -/
theorem getLast?_steps {p : FilePath} {before behind : List (List Char)} {piece : List Char}
    (h : p.pieces = before ++ piece :: behind) (hpiece : isIdle piece = false)
    (hbehind : ∀ x ∈ behind, isIdle x = true) : p.steps.getLast? = PathStep.ofPiece? piece := by
  obtain ⟨step, hstep⟩ : ∃ step, PathStep.ofPiece? piece = some step := by
    rw [ofPiece?_eq hpiece]
    split <;> exact ⟨_, rfl⟩
  cases before with
  | nil =>
    have habsolute : ¬ p.isAbsolute = true := fun ha => by
      rw [((isAbsolute_iff h).1 ha).1] at hpiece
      exact absurd hpiece (by decide)
    have hhere : piece ≠ ['.'] := by
      rintro rfl
      exact absurd hpiece (by decide)
    simp only [steps, h, List.nil_append, filterMap_of_isIdle hbehind, if_neg habsolute, if_neg hhere, hstep]
    rfl
  | cons first more =>
    have hrest : (more ++ piece :: behind).filterMap PathStep.ofPiece? =
        more.filterMap PathStep.ofPiece? ++ [step] := by
      rw [List.filterMap_append, List.filterMap_cons, hstep, filterMap_of_isIdle hbehind]
    have hlast : ∀ front : List PathStep,
        (front ++ (more.filterMap PathStep.ofPiece? ++ [step])).getLast? = some step := fun front => by
      rw [← List.append_assoc, List.getLast?_append, List.getLast?_singleton, Option.some_or]
    simp only [steps, h, List.cons_append, hrest, hstep]
    split
    · exact hlast [.root]
    split
    · exact hlast [.here]
    · exact hlast _

/-- A path whose pieces all say nothing ends with no name and does not go up. -/
theorem getLast?_steps_of_isIdle {p : FilePath} (h : ∀ piece ∈ p.pieces, isIdle piece = true) :
    p.steps.getLast? = none ∨ p.steps.getLast? = some .root ∨ p.steps.getLast? = some .here := by
  obtain ⟨first, rest, hp⟩ := List.exists_cons_of_ne_nil (piecesOf_ne_nil p.text)
  have hpieces : p.pieces = first :: rest := hp
  rw [hpieces] at h
  obtain ⟨hfirst, hrest⟩ := List.forall_mem_cons.1 h
  simp only [steps, hpieces, filterMap_of_isIdle hrest, ofPiece?_of_isIdle hfirst]
  split
  · exact .inr (.inl rfl)
  split
  · exact .inr (.inr rfl)
  · exact .inl rfl

/-! ## The last name -/

/-- Either all pieces say nothing, or there is a last one that says something. -/
theorem idle_or_last (pieces : List (List Char)) : (∀ piece ∈ pieces, isIdle piece = true) ∨
    ∃ before last behind, pieces = before ++ last :: behind ∧ isIdle last = false ∧
      ∀ piece ∈ behind, isIdle piece = true := by
  induction pieces with
  | nil => exact .inl nofun
  | cons piece rest ih =>
    obtain hidle | ⟨before, last, behind, rfl, hlast, hbehind⟩ := ih
    · cases hpiece : isIdle piece with
      | true => exact .inl (List.forall_mem_cons.2 ⟨hpiece, hidle⟩)
      | false => exact .inr ⟨[], piece, rest, rfl, hpiece, hidle⟩
    · exact .inr ⟨piece :: before, last, behind, rfl, hlast, hbehind⟩

theorem splitName?_of_isIdle {p : FilePath} (h : ∀ piece ∈ p.pieces, isIdle piece = true) : p.splitName? = none := by
  have hnil : p.pieces.reverse.dropWhile isIdle = [] := by
    rw [← List.append_nil p.pieces.reverse,
      List.dropWhile_append_of_pos fun piece hp => h piece (List.mem_reverse.1 hp)]
    rfl
  rw [splitName?, trimmed, hnil]
  rfl

theorem splitName?_eq {p : FilePath} {before behind : List (List Char)} {last : List Char}
    (h : p.pieces = before ++ last :: behind) (hlast : isIdle last = false)
    (hbehind : ∀ piece ∈ behind, isIdle piece = true) :
    p.splitName? = if last = ['.', '.'] then none else some (before, last) := by
  have hrest : p.pieces.reverse.dropWhile isIdle = last :: before.reverse := by
    rw [h, List.reverse_append, List.reverse_cons, List.append_assoc, List.singleton_append,
      List.dropWhile_append_of_pos (fun piece hp => hbehind piece (List.mem_reverse.1 hp)),
      List.dropWhile_cons_of_neg (by rw [hlast]; exact Bool.false_ne_true)]
  simp only [splitName?, trimmed, List.reverse_reverse, hrest]

/-- A path ends with a name when that stands behind some pieces and only idle pieces stand behind it. -/
theorem splitName?_eq_some {p : FilePath} {before : List (List Char)} {name : List Char} :
    p.splitName? = some (before, name) ↔ isName name = true ∧
      ∃ behind, p.pieces = before ++ name :: behind ∧ ∀ piece ∈ behind, isIdle piece = true := by
  constructor
  · intro h
    obtain hidle | ⟨front, last, behind, hpieces, hlast, hbehind⟩ := idle_or_last p.pieces
    · rw [splitName?_of_isIdle hidle] at h
      cases h
    · rw [splitName?_eq hpieces hlast hbehind] at h
      split at h
      · cases h
      · rename_i hup
        cases h
        exact ⟨isName_iff.2 ⟨hlast, hup⟩, behind, hpieces, hbehind⟩
  · rintro ⟨hname, behind, hpieces, hbehind⟩
    obtain ⟨hidle, hup⟩ := isName_iff.1 hname
    rw [splitName?_eq hpieces hidle hbehind, if_neg hup]

theorem fileName?_eq_some {p : FilePath} {name : List Char} :
    p.fileName? = some name ↔ ∃ before, p.splitName? = some (before, name) := by
  rw [fileName?, Option.map_eq_some_iff, Prod.exists]
  exact exists_congr fun before => exists_eq_right

/-- **The name a path ends with is told by its last step.** -/
theorem fileName?_eq_some_iff_getLast? {p : FilePath} {name : List Char} :
    p.fileName? = some name ↔ p.steps.getLast? = some (.name name) := by
  obtain hidle | ⟨before, last, behind, hpieces, hlast, hbehind⟩ := idle_or_last p.pieces
  · rw [fileName?, splitName?_of_isIdle hidle]
    refine ⟨nofun, fun h => ?_⟩
    obtain hend | hend | hend := getLast?_steps_of_isIdle hidle <;> (rw [hend] at h; cases h)
  · rw [fileName?, splitName?_eq hpieces hlast hbehind, getLast?_steps hpieces hlast hbehind, ofPiece?_eq hlast]
    split
    · exact ⟨nofun, nofun⟩
    · rw [Option.map_some, Option.some_inj, Option.some_inj, PathStep.name.injEq]

/-- All spellings of a path end with one name. -/
theorem fileName?_of_same {p q : FilePath} (h : p.same q = true) : p.fileName? = q.fileName? := by
  refine Option.ext fun name => ?_
  rw [fileName?_eq_some_iff_getLast?, fileName?_eq_some_iff_getLast?, beq_iff_eq.1 h]

theorem fileName?_join (base : FilePath) {p : FilePath} {name : List Char} (h : p.fileName? = some name) :
    (base.join p).fileName? = some name := by
  obtain ⟨before, hsplit⟩ := fileName?_eq_some.1 h
  obtain ⟨hname, behind, hpieces, hbehind⟩ := splitName?_eq_some.1 hsplit
  obtain ⟨front, hjoin⟩ := pieces_join base p
  refine fileName?_eq_some.2 ⟨front ++ before, splitName?_eq_some.2 ⟨hname, behind, ?_, hbehind⟩⟩
  rw [hjoin, hpieces, List.append_assoc]

theorem isName_of_two_lt_length {piece : List Char} (h : 2 < piece.length) : isName piece = true := by
  have hne : ∀ other : List Char, other.length ≤ 2 → piece ≠ other := by
    rintro other hother rfl
    exact absurd hother (Nat.not_le.2 h)
  rw [isName_iff, isIdle, Bool.or_eq_false_iff, beq_eq_false_iff_ne, beq_eq_false_iff_ne]
  exact ⟨⟨hne [] (by decide), hne ['.'] (by decide)⟩, hne ['.', '.'] (by decide)⟩

theorem stem_eq (name : List Char) : stem name =
    if (name.reverse.dropWhile (· != '.')).tail = [] then name
    else (name.reverse.dropWhile (· != '.')).tail.reverse := by
  simp only [stem, List.reverse_eq_nil_iff]

theorem stem_ne_nil {name : List Char} (h : name ≠ []) : stem name ≠ [] := by
  rw [stem_eq]
  split
  · exact h
  · rename_i hne
    exact fun hnil => hne (List.reverse_eq_nil_iff.1 hnil)

theorem mem_of_mem_stem {name : List Char} {c : Char} (h : c ∈ stem name) : c ∈ name := by
  rw [stem_eq] at h
  split at h
  · exact h
  · exact List.mem_reverse.1 ((List.dropWhile_suffix _).mem (List.mem_of_mem_tail (List.mem_reverse.1 h)))

theorem stem_append {front extension : List Char} (hfront : front ≠ []) (hdot : '.' ∉ extension) :
    stem (front ++ '.' :: extension) = front := by
  have hextension : ∀ c ∈ extension.reverse, (c != '.') = true := by
    intro c hc
    refine bne_iff_ne.2 ?_
    rintro rfl
    exact hdot (List.mem_reverse.1 hc)
  have hrest : (front ++ '.' :: extension).reverse.dropWhile (· != '.') = '.' :: front.reverse := by
    rw [List.reverse_append, List.reverse_cons, List.append_assoc, List.singleton_append,
      List.dropWhile_append_of_pos hextension, List.dropWhile_cons_of_neg (by decide)]
  rw [stem_eq, hrest, List.tail_cons, if_neg fun hnil => hfront (List.reverse_eq_nil_iff.1 hnil), List.reverse_reverse]

theorem isName_stem_append (name : List Char) {extension : List Char} (hlong : 2 ≤ extension.length) :
    isName (stem name ++ '.' :: extension) = true := by
  refine isName_of_two_lt_length ?_
  rw [List.length_append, List.length_cons]
  omega

/-- A path with another extension ends with the stem of its name and the extension, and no piece stands behind. -/
theorem pieces_withExtension {extension : List Char} (hslash : '/' ∉ extension) {p : FilePath}
    {before : List (List Char)} {name : List Char} (h : p.splitName? = some (before, name)) :
    (p.withExtension extension).pieces = before ++ [stem name ++ '.' :: extension] := by
  obtain ⟨-, behind, hpieces, -⟩ := splitName?_eq_some.1 h
  have hwhole : ∀ piece ∈ before ++ name :: behind, '/' ∉ piece := fun piece hp => slash_not_mem (hpieces ▸ hp)
  have hnew : '/' ∉ stem name ++ '.' :: extension := by
    rw [List.mem_append, List.mem_cons]
    rintro (hmem | hdot | hmem)
    · exact hwhole name (List.mem_append_right _ List.mem_cons_self) (mem_of_mem_stem hmem)
    · exact absurd hdot (by decide)
    · exact hslash hmem
  rw [withExtension, h]
  refine pieces_ofPieces (List.append_ne_nil_of_right_ne_nil _ (List.cons_ne_nil _ _)) fun piece hp => ?_
  obtain hp | hp := List.mem_append.1 hp
  · exact hwhole piece (List.mem_append_left _ hp)
  · rw [List.mem_singleton.1 hp]
    exact hnew

theorem fileName?_withExtension {extension : List Char} (hslash : '/' ∉ extension) (hlong : 2 ≤ extension.length)
    {p : FilePath} {name : List Char} (h : p.fileName? = some name) :
    (p.withExtension extension).fileName? = some (stem name ++ '.' :: extension) := by
  obtain ⟨before, hsplit⟩ := fileName?_eq_some.1 h
  refine fileName?_eq_some.2 ⟨before, splitName?_eq_some.2 ⟨isName_stem_append name hlong, [], ?_, nofun⟩⟩
  exact pieces_withExtension hslash hsplit

/-- Idle pieces at the end of a path say nothing. -/
theorem same_of_pieces {p q : FilePath} {before behind : List (List Char)} {name : List Char}
    (hname : isName name = true) (hp : p.pieces = before ++ name :: behind)
    (hbehind : ∀ piece ∈ behind, isIdle piece = true) (hq : q.pieces = before ++ [name]) : p.same q = true := by
  refine beq_iff_eq.2 ?_
  cases before with
  | nil =>
    have hnamed : name ≠ [] := by
      rintro rfl
      exact absurd hname (by decide)
    rw [List.nil_append] at hp hq
    have habsolute : p.isAbsolute = q.isAbsolute := by
      rw [Bool.eq_iff_iff, isAbsolute_iff hp, isAbsolute_iff hq]
      exact iff_of_false (fun h => hnamed h.1) (fun h => hnamed h.1)
    simp only [steps, hp, hq, habsolute, filterMap_of_isIdle hbehind, List.filterMap_nil]
  | cons first more =>
    have hrest : (more ++ name :: behind).filterMap PathStep.ofPiece? =
        (more ++ [name]).filterMap PathStep.ofPiece? := by
      rw [← List.singleton_append, ← List.append_assoc, List.filterMap_append, filterMap_of_isIdle hbehind,
        List.append_nil]
    rw [List.cons_append] at hp hq
    have habsolute : p.isAbsolute = q.isAbsolute := by
      rw [Bool.eq_iff_iff, isAbsolute_iff hp, isAbsolute_iff hq]
      exact and_congr_right fun _ => iff_of_true (List.append_ne_nil_of_right_ne_nil _ (List.cons_ne_nil _ _))
        (List.append_ne_nil_of_right_ne_nil _ (List.cons_ne_nil _ _))
    simp only [steps, hp, hq, habsolute, hrest]

/-- **A path is spelled anew by giving it the extension that it has**, and only by giving it that one. -/
theorem same_withExtension_iff {extension : List Char} (hslash : '/' ∉ extension) (hdot : '.' ∉ extension)
    (hlong : 2 ≤ extension.length) {p : FilePath} {name : List Char} (h : p.fileName? = some name) :
    p.same (p.withExtension extension) = true ↔ ∃ front, front ≠ [] ∧ name = front ++ '.' :: extension := by
  obtain ⟨before, hsplit⟩ := fileName?_eq_some.1 h
  obtain ⟨hname, behind, hpieces, hbehind⟩ := splitName?_eq_some.1 hsplit
  have hnew := pieces_withExtension hslash hsplit
  constructor
  · intro hsame
    have hnames : some name = some (stem name ++ '.' :: extension) :=
      h.symm.trans ((fileName?_of_same hsame).trans (fileName?_withExtension hslash hlong h))
    refine ⟨stem name, stem_ne_nil ?_, Option.some_inj.1 hnames⟩
    rintro rfl
    exact absurd hname (by decide)
  · rintro ⟨front, hfront, rfl⟩
    rw [stem_append hfront hdot] at hnew
    exact same_of_pieces hname hpieces hbehind hnew

end FilePath

end Downlevel
