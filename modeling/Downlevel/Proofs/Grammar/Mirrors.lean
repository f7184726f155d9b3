import Downlevel.Proofs.Grammar.Alike
import Downlevel.Proofs.Grammar.Reads
/-!
# Proofs.Grammar.Mirrors — tokens, rows of slots and lists that are read alike

One fact for each way of putting readers together: if the parts mirror each other, so does the whole.
-/
namespace Downlevel.Parser

open Reading

variable {α β γ δ : Type} {k : Nat} {P : TokenKind → Prop}

/-! ## Failing -/

theorem mirrors_fault {Post : α → β → Reading → Reading → Prop} (f : ParseFault) :
    Mirrors P k Post (fault f) (fault f) := fun _ _ hdepth _ _ => .error hdepth rfl

theorem fault_expected {r r' : Reading} (h : r.Resembles r') (what : Expectation) :
    (r.expected what).fault = (r'.expected what).fault := by
  unfold Reading.expected Reading.errorHere
  dsimp only
  rw [h.kind, h.text]

theorem mirrors_expected {Post : α → β → Reading → Reading → Prop} (what : Expectation) :
    Mirrors P k Post (expected what) (expected what) := fun _ _ hdepth hs _ =>
  .error hdepth (fault_expected hs.resembles what)

/-! ## Weaker facts -/

namespace Mirrors

variable {f : α → γ} {p p' : Parser α}

theorem steps_anywhere (h : Steps Anywhere k f p p') : Steps P k f p p' := h.before (fun _ _ => trivial)

/-- What consumes a token wherever it is read need not do so. -/
theorem stays (h : ∀ m, m < k → Steps Anywhere m f p p') : Stays k f p p' := by
  cases k with
  | zero => exact fun _ _ _ hs _ => hs.elim
  | succ k => exact (h k (Nat.lt_succ_self k)).mono (fun _ _ _ _ hab => ⟨hab.1, hab.2.up (Nat.le_succ k)⟩)

theorem grows_stays {p p' : Parser (Option α)} (h : Grows P k f p p') :
    Mirrors P (k + 1) (Read (Option.map f) (k + 1)) p p' := h.mono (fun _ _ _ _ hab => by
  cases hab with
  | none hr => exact ⟨rfl, hr⟩
  | some hab hr => exact ⟨congrArg some hab, hr.up (Nat.le_succ k)⟩)

/-- What was read is changed by a function. -/
theorem mapRead {j : Nat} {g : β → δ} {h : α → β} (hp : Mirrors P k (Read f j) p p')
    (hh : ∀ a b, f a = f b → g (h a) = g (h b)) : Mirrors P k (Read g j) (h <$> p) (h <$> p') := by
  show Mirrors P k (Read g j) (p >>= fun a => Pure.pure (h a)) (p' >>= fun a => Pure.pure (h a))
  exact hp.bind (fun a b hab => .pure (fun _ _ hr _ => ⟨hh a b hab, hr⟩))

theorem pureRead {a b : α} (hab : f a = f b) : Mirrors P k (Read f k) (Pure.pure a) (Pure.pure b) :=
  .pure (fun _ _ hr _ => ⟨hab, hr⟩)

end Mirrors

/-! ## Single tokens -/

theorem outline_fresh {x y : Lexeme} (hk : x.kind = y.kind) (ht : x.text = y.text) (hv : x.value = y.value)
    (i j : ObjectId) : (Token.mk i x).outline = (Token.mk j y).outline := by
  show Token.mk 0 (.realized x.kind .empty x.text x.value .empty) =
    Token.mk 0 (.realized y.kind .empty y.text y.value .empty)
  rw [hk, ht, hv]

/-- **Taking a token that is not the end leads to places that are alike.** -/
theorem steps_take (hP : ∀ κ, P κ → κ ≠ .endOfFile) : Steps P k Token.outline take take := by
  intro s s' hdepth hs hkind
  rw [take_eq, take_eq]
  have hr := hs.resembles
  have hnext := hs.2.1 (hP _ hkind)
  generalize hx : s.own.next = x at hnext
  generalize hx' : s'.own.next = x' at hnext
  cases hnext with
  | error he => exact .error hdepth he
  | ok hq =>
    refine .ok ?_ ⟨outline_fresh hr.kind hr.text hr.value _ _, hq⟩
    have hkeep : ∀ {r q : Reading}, r.next = .ok q → q.depth = r.depth := fun {r q} h => by
      unfold Reading.next Reading.ofScanned at h
      split at h
      · cases h
      · cases h
        rfl
    rw [hkeep hx, hkeep hx', hdepth]

theorem steps_takeKind {κ : TokenKind} (hκ : κ ≠ .endOfFile) : Steps (· = κ) k Token.outline take take :=
  steps_take (fun _ h => h ▸ hκ)

/-- A word taken as a name. -/
theorem steps_takeName (hP : ∀ κ, P κ → κ ≠ .endOfFile) :
    Steps P k Token.outline (do (← take).toName) (do (← take).toName) := by
  refine (steps_take hP).bind (fun t u htu => ?_)
  obtain ⟨i, x⟩ := t
  obtain ⟨j, y⟩ := u
  have hx : x.kind = y.kind := congrArg Token.kind htu
  have ht : x.text = y.text := congrArg Token.text htu
  have hv : x.value = y.value := congrArg Token.value htu
  intro s s' hdepth hs _
  rw [toName_eq, toName_eq]
  show Outcomes _ (if x.kind.isKeyword = true then _ else _) (if y.kind.isKeyword = true then _ else _)
  rw [← hx]
  split
  · refine .ok hdepth ⟨?_, hs⟩
    exact outline_fresh (x := x.asName) (y := y.asName) rfl ht (congrArg TokenValue.identifier ht) _ _
  · exact .ok hdepth ⟨htu, hs⟩

theorem steps_token (κ : TokenKind) (hκ : κ ≠ .endOfFile) : Steps P k Token.outline (token κ) (token κ) :=
  .ifSees κ (steps_takeKind hκ) (mirrors_expected _)

theorem grows_token? (κ : TokenKind) (hκ : κ ≠ .endOfFile) : Grows P k Token.outline (token? κ) (token? κ) := by
  refine .ifSees κ ?_ (.pure (fun _ _ hr _ => .none hr))
  refine (steps_takeKind hκ).bind (fun t u htu => ?_)
  exact .pure (fun _ _ hr _ => .some htu hr)

theorem steps_identifier : Steps P k Token.outline identifier identifier :=
  .ifSees .identifier (steps_takeKind nofun) (mirrors_expected _)

theorem steps_memberName : Steps P k Token.outline memberName memberName := by
  refine .look (fun r r' hr hP => ?_)
  rw [← hr.resembles.kind]
  refine .ite Iff.rfl (fun hword => ?_) (fun _ => mirrors_expected _)
  refine steps_takeName (fun κ hκ hend => ?_)
  rw [← hκ, hend] at hword
  cases hword

theorem steps_propertyName : Steps P k Token.outline propertyName propertyName := by
  refine .look (fun r r' hr hP => ?_)
  rw [← blind_isPropertyName r r' hr.resembles]
  refine .ite Iff.rfl (fun hword => ?_) (fun _ => mirrors_expected _)
  refine steps_takeName (fun κ hκ hend => ?_)
  unfold Reading.isPropertyName at hword
  rw [← hκ, hend] at hword
  cases hword

theorem stays_emptySemicolon : Mirrors P k (Read Token.outline k) emptySemicolon emptySemicolon :=
  fun _ _ hdepth hs _ => .ok hdepth ⟨rfl, hs⟩

theorem stays_semicolon : Stays k Token.outline semicolon semicolon := by
  refine .look (fun r r' hr hP => ?_)
  rw [← hr.resembles.kind, ← blind_mayEndStatement r r' hr.resembles]
  refine .ite Iff.rfl (fun hκ => ?_) (fun _ => .ite Iff.rfl (fun _ => stays_emptySemicolon)
    (fun _ => mirrors_expected _))
  cases k with
  | zero => exact hr.elim
  | succ k =>
    refine (steps_take (fun κ h => ?_)).mono (fun _ _ _ _ hab => ⟨hab.1, hab.2.up (Nat.le_succ k)⟩)
    rw [h, hκ]
    exact nofun

/-- A slash is cut anew alike. -/
theorem mirrors_rescan (hP : ∀ κ, P κ → AtSlash κ) {f f' : Unit → Parser α}
    {Post : α → α → Reading → Reading → Prop}
    (hf : Mirrors (· = .regularExpression) (k + 1) Post (f ()) (f' ())) :
    Mirrors P (k + 1) Post (rescan >>= f) (rescan >>= f') := by
  intro s s' hdepth hs hkind
  have hcut : ∀ {g : Unit → Parser α} {s : Supplied Reading} {q : Reading}, s.own.asRegularExpression = .ok q →
      (rescan >>= g) s = g () ⟨s.next, q⟩ := by
    intro g s q hq
    show ((Work.ofExcept s.own.asRegularExpression >>= Work.setOwn) >>= g) s = _
    rw [hq]
    rfl
  have hfails : ∀ {g : Unit → Parser α} {s : Supplied Reading} {e : ParseError}, s.own.asRegularExpression = .error e →
      (rescan >>= g) s = .error e s := by
    intro g s e he
    show ((Work.ofExcept s.own.asRegularExpression >>= Work.setOwn) >>= g) s = _
    rw [he]
    rfl
  have hboth := hs.asRegularExpression (hP _ hkind)
  have hkeep : ∀ {r q : Reading}, r.asRegularExpression = .ok q → q.depth = r.depth := fun {r q} h => by
    unfold Reading.asRegularExpression Reading.ofScanned at h
    split at h
    · cases h
    · cases h
      rfl
  generalize hx : s.own.asRegularExpression = x at hboth
  generalize hx' : s'.own.asRegularExpression = x' at hboth
  cases hboth with
  | error he =>
    rw [hfails hx, hfails hx']
    exact .error hdepth he
  | ok hq =>
    rw [hcut hx, hcut hx']
    exact hf ⟨_, _⟩ ⟨_, _⟩ ((hkeep hx).trans (hdepth.trans (hkeep hx').symm)) hq.1 hq.2

/-! ## Nesting and going back -/

namespace Mirrors

variable {Post : α → β → Reading → Reading → Prop}

/-- The count of levels is no part of what is known of the places. -/
theorem leaving {f : α → γ} {j : Nat} {p p' : Parser α} (h : Mirrors P k (Read f j) p p') :
    Mirrors P k (Read f j) (leaving p) (leaving p') := by
  intro s s' hdepth hs hkind
  have hout := h s s' hdepth hs hkind
  unfold Parser.leaving Work.andThen
  generalize p s = x at hout
  generalize p' s' = x' at hout
  cases hout with
  | ok hd hab => exact .ok (congrArg (· - 1) hd) ⟨hab.1, hab.2.atDepth _ _⟩
  | error hd he => exact .error (congrArg (· - 1) hd) he

/-- A level is entered on both sides, or neither can be. -/
theorem enter {f : Unit → Parser α} {f' : Unit → Parser β} (h : Mirrors P k Post (f ()) (f' ())) :
    Mirrors P k Post (enter >>= f) (enter >>= f') := by
  intro s s' hdepth hs hkind
  have henter : ∀ {ε : Type} (g : Unit → Parser ε) (s : Supplied Reading), (Parser.enter >>= g) s =
      if maxDepth < s.own.depth + 1 then fault .tooDeep ⟨s.next, s.own.atDepth (s.own.depth + 1)⟩
      else g () ⟨s.next, s.own.atDepth (s.own.depth + 1)⟩ := by
    intro ε g s
    show ((if maxDepth < s.own.depth + 1 then fault .tooDeep else Pure.pure () : Parser Unit) >>= g)
      ⟨s.next, s.own.atDepth (s.own.depth + 1)⟩ = _
    split <;> rfl
  rw [henter, henter, ← hdepth]
  split
  · exact .error rfl rfl
  · exact h ⟨_, _⟩ ⟨_, _⟩ rfl (hs.atDepth _ _) hkind

theorem nested {f : α → γ} {j : Nat} {p p' : Parser α} (h : Mirrors P k (Read f j) p p') :
    Mirrors P k (Read f j) (nested p) (nested p') := .enter h.leaving

/-- **What is tried is given up on both sides or on neither.** -/
theorem attempt {f : α → γ} {p p' : Parser α} (h : Steps P k f p p') {accept : Reading → Bool} (haccept : Blind accept) :
    Grows P k f (attempt p accept) (attempt p' accept) := by
  intro s s' hdepth hs hkind
  have hout := h s s' hdepth hs hkind
  unfold Parser.attempt
  generalize p s = x at hout
  generalize p' s' = x' at hout
  cases hout with
  | error hd he => exact .ok hd (.none (hs.atDepth _ _))
  | @ok a b s₁ s₁' hd hab =>
    dsimp only
    rw [← haccept _ _ hab.2.resembles]
    split
    · exact .ok hd (.some hab.1 hab.2)
    · exact .ok hd (.none (hs.atDepth _ _))

end Mirrors

/-! ## Rows of slots -/

section Parts

variable {p p' : Part} {q q' : Parser Node} {ps ps' : List Part} {before before' : List Slot}

theorem steps_tokenSlot {t t' : Parser Token} (h : Steps P k Token.outline t t') :
    Steps P k Slot.outline (Slot.token <$> t) (Slot.token <$> t') := h.mapRead (fun _ _ hab => congrArg Slot.token hab)

theorem steps_word (w : Keyword) : Steps P k Slot.outline (word w) (word w) := steps_tokenSlot (steps_token _ nofun)

theorem steps_mark (m : Punctuation) : Steps P k Slot.outline (mark m) (mark m) :=
  steps_tokenSlot (steps_token _ nofun)

theorem steps_current (hP : ∀ κ, P κ → κ ≠ .endOfFile) : Steps P k Slot.outline current current :=
  steps_tokenSlot (steps_take hP)

theorem steps_currentKind {κ : TokenKind} (hκ : κ ≠ .endOfFile) : Steps (· = κ) k Slot.outline current current :=
  steps_current (fun _ h => h ▸ hκ)

theorem steps_name : Steps P k Slot.outline name name := steps_tokenSlot steps_identifier

theorem steps_member : Steps P k Slot.outline member member := steps_tokenSlot steps_memberName

theorem steps_property : Steps P k Slot.outline property property := steps_tokenSlot steps_propertyName

theorem stays_statementEnd : Stays k Slot.outline statementEnd statementEnd :=
  stays_semicolon.mapRead (fun _ _ hab => congrArg Slot.token hab)

theorem stays_optional (κ : TokenKind) (hκ : κ ≠ .endOfFile) : Stays k Slot.outline (optional κ) (optional κ) := by
  cases k with
  | zero => exact fun _ _ _ hs _ => hs.elim
  | succ k =>
    refine (grows_token? κ hκ).grows_stays.mapRead (fun a b hab => ?_)
    rw [Slot.outline_ofToken?, Slot.outline_ofToken?, hab]

theorem stays_optionalMark (m : Punctuation) : Stays k Slot.outline (optionalMark m) (optionalMark m) :=
  stays_optional _ nofun

theorem stays_nothing : Mirrors P k (Read Slot.outline k) nothing nothing := .pureRead rfl

theorem steps_inner (h : Steps P k Node.outline q q') : Steps P k Slot.outline (inner q) (inner q') :=
  h.mapRead (fun _ _ hab => congrArg Slot.node hab)

/-- A node that is read where a test of the place holds. -/
theorem stays_innerIf {test : Reading → Bool} (ht : Blind test) (h : ∀ m, m < k → Steps Anywhere m Node.outline q q') :
    Stays k Slot.outline (innerIf test q) (innerIf test q') := by
  refine .look (fun r r' hr _ => ?_)
  rw [← ht r r' hr.resembles]
  refine .ite Iff.rfl (fun _ => ?_) (fun _ => stays_nothing)
  exact (Mirrors.stays (fun m hm => steps_inner (h m hm))).before (fun _ _ => trivial)

/-- The current token is consumed where a test of the place holds. -/
theorem stays_currentIf {test : Reading → Bool} (h : ∀ r r', Alike k r r' → test r = test r')
    (hk : ∀ r, test r = true → r.kind ≠ .endOfFile) :
    Stays k Slot.outline (do if test (← here) then current else nothing)
      (do if test (← here) then current else nothing) := by
  refine .look (fun r r' hr _ => ?_)
  rw [← h r r' hr]
  refine .ite Iff.rfl (fun htest => ?_) (fun _ => stays_nothing)
  cases k with
  | zero => exact hr.elim
  | succ k =>
    exact (steps_currentKind (hk r htest)).mono (fun _ _ _ _ hab => ⟨hab.1, hab.2.up (Nat.le_succ k)⟩)

/-- What a row of slots looks like. -/
abbrev rowOutline : List Slot → List Slot := List.map Slot.outline

namespace Mirrors

theorem nil : Stays k rowOutline (parts []) (parts []) := .pureRead rfl

/-- A part in front of others. -/
theorem cons {i j : Nat} (h : Mirrors P i (Read Slot.outline j) p p')
    {n : Nat} (hs : Mirrors Anywhere j (Read rowOutline n) (parts ps) (parts ps')) :
    Mirrors P i (Read rowOutline n) (parts (p :: ps)) (parts (p' :: ps')) := by
  refine h.bind (fun a b hab => hs.bind (fun as bs habs => .pureRead ?_))
  show a.outline :: as.map Slot.outline = b.outline :: bs.map Slot.outline
  rw [hab, show as.map Slot.outline = bs.map Slot.outline from habs]

end Mirrors

theorem outline_node (kind : NodeKind) {slots slots' : List Slot} (h : rowOutline slots = rowOutline slots')
    (i j : ObjectId) : (Node.mk i kind slots).outline = (Node.mk j kind slots').outline := by
  rw [Node.outline_mk, Node.outline_mk]
  exact congrArg _ h

/-- A node is made of slots that look the same. -/
theorem mirrors_fresh {kind : NodeKind} {slots slots' : List Slot} (h : rowOutline slots = rowOutline slots') :
    Mirrors P k (Read Node.outline k) (Node.fresh kind slots : Fresh Node) (Node.fresh kind slots' : Fresh Node) :=
  fun _ _ hdepth hs _ => .ok hdepth ⟨outline_node kind h _ _, hs⟩

/-- **A node that is read slot by slot.** -/
theorem mirrors_nodeAfter {i : Nat} {kind : NodeKind} (hbefore : rowOutline before = rowOutline before')
    (h : Mirrors P i (Read rowOutline k) (parts ps) (parts ps')) :
    Mirrors P i (Read Node.outline k) (nodeAfter kind before ps) (nodeAfter kind before' ps') :=
  h.bind (fun as bs hab => mirrors_fresh (by
    show (before ++ as).map _ = (before' ++ bs).map _
    rw [List.map_append, List.map_append]
    exact congrArg₂ _ hbefore hab))

theorem mirrors_node {i : Nat} {kind : NodeKind} (h : Mirrors P i (Read rowOutline k) (parts ps) (parts ps')) :
    Mirrors P i (Read Node.outline k) (node kind ps) (node kind ps') := mirrors_nodeAfter rfl h

theorem stays_omitted : Mirrors P k (Read Node.outline k) omitted omitted := mirrors_fresh rfl

theorem rowOutline_node {n n' : Node} (h : n.outline = n'.outline) : rowOutline [.node n] = rowOutline [.node n'] :=
  congrArg (fun m => [Slot.node m]) h

end Parts

/-! ## Lists -/

section Lists

variable {element element' : Parser Node} {close : Punctuation}

/-- What items of a separated list look like. -/
abbrev itemsOutline (items : List Node × List Token) : List Node × List Token :=
  (items.1.map Node.outline, items.2.map Token.outline)

theorem itemsOutline_cons {n n' : Node} {t t' : Token} {rest rest' : List Node × List Token}
    (hn : n.outline = n'.outline) (ht : t.outline = t'.outline) (h : itemsOutline rest = itemsOutline rest') :
    itemsOutline (separatedCons n t rest) = itemsOutline (separatedCons n' t' rest') := by
  obtain ⟨hns, hts⟩ := Prod.ext_iff.1 h
  exact Prod.ext (congrArg₂ List.cons hn hns) (congrArg₂ List.cons ht hts)

/-- **Members up to a place, in more turns than tokens are left.** -/
theorem stays_membersUntil {stop : Reading → Bool} (hstop : Blind stop) :
    ∀ {k turns turns' : Nat}, k < turns → k < turns' → (∀ m, m < k → Steps Anywhere m Node.outline element element') →
      Stays k (List.map Node.outline) (membersUntil stop element turns) (membersUntil stop element' turns')
  | 0, _, _, _, _, _ => fun _ _ _ hs _ => hs.elim
  | k + 1, turns + 1, turns' + 1, ht, ht', h => by
    refine .look (fun r r' hr _ => ?_)
    rw [← hstop r r' hr.resembles]
    refine .ite Iff.rfl (fun _ => .pureRead rfl) (fun _ => ?_)
    refine (h k (Nat.lt_succ_self k)).steps_anywhere.bind (fun n n' hn => ?_)
    have hrest := stays_membersUntil hstop (Nat.lt_of_succ_lt_succ ht) (Nat.lt_of_succ_lt_succ ht')
      (fun m hm => h m (Nat.lt_succ_of_lt hm))
    refine hrest.bind (fun ns ns' hns => .pure (fun _ _ hr _ => ⟨?_, hr.up (Nat.le_succ k)⟩))
    exact congrArg₂ List.cons hn hns

theorem stays_list {p p' : Parser (List Node)} (h : Stays k (List.map Node.outline) p p') :
    Stays k Slot.outline (Slot.list <$> p) (Slot.list <$> p') := h.mapRead (fun a b hab => by
  rw [Slot.outline_list, Slot.outline_list, hab])

theorem stays_separated {p p' : Parser (List Node × List Token)} (h : Mirrors P k (Read itemsOutline k) p p') :
    Mirrors P k (Read Slot.outline k) (do let (ns, ts) ← p; return .separated ns ts)
      (do let (ns, ts) ← p'; return .separated ns ts) :=
  h.bind (fun a b hab => .pureRead (by
    have hns : a.1.map Node.outline = b.1.map Node.outline := congrArg Prod.fst hab
    have hts : a.2.map Token.outline = b.2.map Token.outline := congrArg Prod.snd hab
    rw [Slot.outline_separated, Slot.outline_separated, hns, hts]))

/-- What stands behind members that look alike is read alike. -/
theorem stays_behindMember {more more' : Parser (List Node × List Token)} (hn : n.outline = n'.outline)
    (h : Stays k itemsOutline more more') :
    Stays (k + 1) itemsOutline (behindMember n more) (behindMember n' more') := by
  refine (grows_token? (.punctuation .comma) nofun).bindGrown (.pureRead ?_) (fun t t' htt => ?_)
  · show ([n.outline], _) = ([n'.outline], _)
    rw [hn]
  · exact h.bind (fun _ _ hab => .pure (fun _ _ hr _ => ⟨itemsOutline_cons hn htt hab, hr.up (Nat.le_succ k)⟩))

/-- **Members with commas in between, in more turns than tokens are left.** -/
theorem stays_commaListUpTo :
    ∀ {k turns turns' : Nat}, k < turns → k < turns' → (∀ m, m < k → Steps Anywhere m Node.outline element element') →
      Stays k itemsOutline (commaListUpTo element turns) (commaListUpTo element' turns')
  | 0, _, _, _, _, _ => fun _ _ _ hs _ => hs.elim
  | k + 1, turns + 1, turns' + 1, ht, ht', h => by
    refine (h k (Nat.lt_succ_self k)).bind (fun n n' hn => ?_)
    cases k with
    | zero => exact fun _ _ _ hs _ => hs.elim
    | succ k =>
      have hrest := stays_commaListUpTo (Nat.lt_of_succ_lt (Nat.lt_of_succ_lt_succ ht))
        (Nat.lt_of_succ_lt (Nat.lt_of_succ_lt_succ ht')) (fun m hm => h m (by omega))
      exact (stays_behindMember hn hrest).mono (fun _ _ _ _ hab => ⟨hab.1, hab.2.up (Nat.le_succ _)⟩)

/-- **Members up to a closing mark, in more turns than tokens are left.** -/
theorem stays_delimitedUpTo (trailing : Bool) :
    ∀ {k turns turns' : Nat}, k < turns → k < turns' → (∀ m, m < k → Steps Anywhere m Node.outline element element') →
      Stays k itemsOutline (delimitedUpTo close trailing element turns) (delimitedUpTo close trailing element' turns')
  | 0, _, _, _, _, _ => fun _ _ _ hs _ => hs.elim
  | k + 1, turns + 1, turns' + 1, ht, ht', h => by
    refine (h k (Nat.lt_succ_self k)).bind (fun n n' hn => ?_)
    cases k with
    | zero => exact fun _ _ _ hs _ => hs.elim
    | succ k =>
      refine (grows_token? (.punctuation .comma) nofun).bindGrown (.pure (fun _ _ hr _ => ⟨?_, hr.up (Nat.le_succ _)⟩)) (fun t t' htt => ?_)
      · show ([n.outline], _) = ([n'.outline], _)
        rw [hn]
      · refine .ifSees (.punctuation close) (.ite Iff.rfl (fun _ => ?_) (fun _ => mirrors_expected _)) ?_
        · refine stays_omitted.bind (fun o o' ho => .pure (fun _ _ hr _ => ⟨?_, hr.up (by omega)⟩))
          show ([n.outline, o.outline], [t.outline]) = ([n'.outline, o'.outline], [t'.outline])
          rw [hn, ho, htt]
        · have hrest := stays_delimitedUpTo trailing (Nat.lt_of_succ_lt (Nat.lt_of_succ_lt_succ ht))
            (Nat.lt_of_succ_lt (Nat.lt_of_succ_lt_succ ht')) (fun m hm => h m (by omega))
          exact hrest.bind (fun a b hab => .pure (fun _ _ hr _ => ⟨itemsOutline_cons hn htt hab, hr.up (by omega)⟩))

/-- **A node grows on both sides as often, in more turns than tokens are left.** -/
theorem stays_growUpTo {step step' : Node → Parser (Option Node)} :
    ∀ {k turns turns' : Nat}, k < turns → k < turns' →
      (∀ m, m < k → ∀ n n' : Node, n.outline = n'.outline → Grows Anywhere m Node.outline (step n) (step' n')) →
        ∀ n n' : Node, n.outline = n'.outline →
          Stays k Node.outline (growUpTo step turns n) (growUpTo step' turns' n')
  | 0, _, _, _, _, _, _, _, _ => fun _ _ _ hs _ => hs.elim
  | k + 1, turns + 1, turns' + 1, ht, ht', h, n, n', hn => by
    refine (h k (Nat.lt_succ_self k) n n' hn).bindGrown (.pureRead hn) (fun m m' hm => ?_)
    have hrest := stays_growUpTo (Nat.lt_of_succ_lt_succ ht) (Nat.lt_of_succ_lt_succ ht')
      (fun i hi => h i (Nat.lt_succ_of_lt hi)) m m' hm
    exact hrest.mono (fun _ _ _ _ hab => ⟨hab.1, hab.2.up (Nat.le_succ k)⟩)

/-- Something was read. -/
theorem grows_some {i : Nat} {f : α → γ} {p p' : Parser α} (h : Mirrors P i (Read f k) p p') :
    Mirrors P i (Grown f k) (some <$> p) (some <$> p') :=
  h.bind (fun _ _ hab => .pure (fun _ _ hr _ => .some hab hr))

/-- Nothing was read. -/
theorem grows_none {f : α → γ} : Grows P k f (return none) (return none) := .pure (fun _ _ hr _ => .none hr)

end Lists

end Downlevel.Parser
