import Downlevel.Grammar.Program
import Downlevel.Proofs.Grammar.Rules
import Downlevel.Proofs.Tree.Checked
import Downlevel.Proofs.Tree.EdgeTokens
/-!
# Proofs.Grammar.Fidelity — a parsed tree prints the text it was read from

The rules of the grammar are sound at every depth of recursion (`sound_descent`), so a text that is read as a program
is the text of its tree, and the tree is well-formed with every token object at one place (`parseFrom_isProgram`).
-/
namespace Downlevel

namespace Parser

theorem reads_goal {d : Descent} (hd : Sound d) : ∀ g : Goal, ReadsNode (goal d g) g.among
  | .type => reads_typeNode hd
  | .assignment allowIn => reads_assignment hd allowIn
  | .unary => reads_unary hd
  | .binary above allowIn => reads_binary hd above allowIn
  | .creation => reads_creation hd
  | .statement => reads_statement hd
  | .moduleElement => reads_moduleElement hd

/-- **Every level of recursion is sound if the one below it is**, and the lowest reads nothing. -/
theorem reads_goalUpTo (loop : Nat) : ∀ (levels : Nat) (g : Goal), ReadsNode (goalUpTo loop levels g) g.among
  | 0, _ => reads_fault _
  | levels + 1, g => reads_goal (d := ⟨loop, goalUpTo loop levels⟩) (reads_goalUpTo loop levels) g

theorem sound_descent (loop levels : Nat) : Sound (descent loop levels) := reads_goalUpTo loop levels

/-- Members are read until the place passes the test. -/
theorem stop_of_membersUntil {stop : Reading → Bool} {element : Parser Node} : ∀ (turns : Nat)
    {s s' : Supplied Reading} {ns : List Node}, membersUntil stop element turns s = .ok ns s' → stop s'.own = true
  | 0, s, s', ns, h => by cases h
  | turns + 1, s, s', ns, h => by
    obtain ⟨r, s₁, h₁, h₂⟩ := Work.bind_eq_ok h
    cases h₁
    split at h₂
    · cases h₂; assumption
    · obtain ⟨n, s₂, _, h₃⟩ := Work.bind_eq_ok h₂
      obtain ⟨ms, s₃, h₄, h₅⟩ := Work.bind_eq_ok h₃
      cases h₅
      exact stop_of_membersUntil turns h₄

/-- A program is the module elements of a text and a token for its end. -/
theorem program_eq_ok {d : Descent} {s s' : Supplied Reading} {n : Node} (h : program d s = .ok n s') :
    ∃ (ns : List Node) (s₁ : Supplied Reading),
      membersUntil (fun r => r.kind == .endOfFile) (d.parse .moduleElement) d.loop s = .ok ns s₁ ∧
      n = .mk (s₁.next + 1) .sourceUnit [.list ns, .token ⟨s₁.next, s₁.own.current⟩] ∧ s'.next = s₁.next + 2 := by
  obtain ⟨slots, s₂, hslots, hnode⟩ := Work.bind_eq_ok h
  obtain ⟨slot, s₁, hslot, hrest⟩ := Work.bind_eq_ok hslots
  obtain ⟨ns, s₃, hns, hlist⟩ := Work.bind_eq_ok hslot
  cases hlist
  cases hrest
  cases hnode
  exact ⟨ns, s₁, hns, rfl, rfl⟩

end Parser

/-- The tree of a program that prints a text, all of its objects numbered from `i` on and before `k`. -/
structure IsProgram (text : List Char) (i k : ObjectId) (n : Node) : Prop where
  kind : n.kind = .sourceUnit
  wellFormed : n.WellFormed
  fullText : n.fullText = text
  lineBreaks : n.tokens.flatMap Token.lineBreaks = Text.lineBreaks text
  distinct : (n.tokens.map Token.id).Nodup
  tokens : ∀ t ∈ n.tokens, i ≤ t.id ∧ t.id < k
  nodes : n.Every (fun m => i ≤ m.id ∧ m.id < k)
  apart : (n.all.map Node.id).Nodup

theorem Made.nodup_tokens {ts : List Made} (h : (ts.map Made.id).Nodup) : ((Made.tokens ts).map Token.id).Nodup := by
  induction ts with
  | nil => exact List.nodup_nil
  | cons x ts ih =>
    rw [List.map_cons, List.nodup_cons] at h
    cases x with
    | node id => exact ih h.2
    | token t =>
      rw [Made.tokens_token, List.map_cons, List.nodup_cons]
      refine ⟨fun hmem => h.1 ?_, ih h.2⟩
      obtain ⟨u, hu, hid⟩ := List.mem_map.1 hmem
      exact List.mem_map.2 ⟨.token u, Made.mem_tokens.1 hu, hid⟩

theorem Made.nodup_of_subperm {ts us : List Made} (h : ts.Subperm us) (hus : (us.map Made.id).Nodup) :
    (ts.map Made.id).Nodup := by
  obtain ⟨l, hperm, hsub⟩ := h
  exact (hperm.map Made.id).nodup_iff.1 (hus.sublist (hsub.map Made.id))

/-- **A program is read to the end of its text**: the token for the end is behind all the others and has the rest of the
text as its trivia. -/
theorem Parser.program_ok {d : Descent} (hd : Sound d) {s s' : Supplied Reading} {n : Node} (hs : s.own.Whole)
    (h : program d s = .ok n s') : s.next ≤ s'.next ∧ IsProgram s.own.here s.next s'.next n := by
  obtain ⟨ns, s₁, hns, rfl, hnext⟩ := program_eq_ok h
  obtain ⟨ts, hadv, hlist⟩ := (reads_membersUntil _ (hd .moduleElement) _).ok hs hns
  have hend : s₁.own.kind = .endOfFile := by simpa using stop_of_membersUntil _ hns
  have hslots : AreSlots (NodeKind.sorts .sourceUnit) [.list ns, .token ⟨s₁.next, s₁.own.current⟩]
      (ts ++ [.token ⟨s₁.next, s₁.own.current⟩]) := .cons hlist (.one (.token _))
  obtain ⟨htokens, _, hwf, hmade⟩ := hslots.node (c := .only .sourceUnit) (s₁.next + 1) rfl
  have hbounds : ∀ x ∈ ts ++ [Made.token ⟨s₁.next, s₁.own.current⟩] ++ [.node (s₁.next + 1)],
      s.next ≤ x.id ∧ x.id < s'.next := by
    intro x hx
    rw [hnext]
    rcases List.mem_append.1 hx with hx | hx
    · rcases List.mem_append.1 hx with hx | hx
      · exact ⟨(hadv.made x hx).1, Nat.lt_add_right 2 (hadv.made x hx).2⟩
      · rw [List.mem_singleton.1 hx]
        exact ⟨hadv.next_le, Nat.lt_add_of_pos_right (Nat.succ_pos 1)⟩
    · rw [List.mem_singleton.1 hx]
      exact ⟨Nat.le_succ_of_le hadv.next_le, Nat.lt_succ_self _⟩
  -- The last two objects, the token for the end and the tree itself, are newer than all others.
  have hdistinct : ((ts ++ [Made.token ⟨s₁.next, s₁.own.current⟩] ++ [Made.node (s₁.next + 1)]).map
      Made.id).Nodup := by
    rw [List.append_assoc, List.map_append, List.nodup_append]
    refine ⟨hadv.distinct, by simp [Made.id], fun i hi j hj hij => ?_⟩
    obtain ⟨x, hx, rfl⟩ := List.mem_map.1 hi
    have hlt : x.id < s₁.next := (hadv.made x hx).2
    have hj : j = s₁.next ∨ j = s₁.next + 1 := by simpa [Made.id] using hj
    rcases hj with rfl | rfl
    · exact absurd hij (Nat.ne_of_lt hlt)
    · exact absurd hij (Nat.ne_of_lt (Nat.lt_succ_of_lt hlt))
  refine ⟨hnext ▸ Nat.le_add_right_of_le hadv.next_le, rfl, hwf, ?_, ?_, ?_, ?_, ?_, ?_⟩
  · rw [Node.fullText, htokens, hadv.text, hadv.whole.text, hadv.whole.rest_eq_nil hend]
    simp [Token.texts, Token.fullText]
  · rw [htokens, hadv.lineBreaks, hadv.whole.lineBreaks, hadv.whole.rest_eq_nil hend]
    simp [Token.lineBreaks, Text.lineBreaks]
  · exact htokens ▸ Made.nodup_tokens hdistinct
  · exact fun t ht => hbounds _ (Made.mem_tokens.1 (htokens ▸ ht))
  · exact fun m hm => hbounds (.node m.id) (hmade.subset (List.mem_map.2 ⟨m, hm, rfl⟩))
  · have hids := Made.nodup_of_subperm hmade hdistinct
    rwa [Node.objects, List.map_map] at hids

/-- A text that is read as a program is cut into tokens from its start on. -/
theorem parseFrom_eq_ok {text : List Char} {tree : Node} {i k : ObjectId} (h : parseFrom text i = (.ok tree, k)) :
    ∃ (r : Reading) (s' : Supplied Reading), Reading.ofText text = .ok r ∧ s'.next = k ∧
      Parser.program (Parser.descent (loopsFor text) (levelsFor text)) ⟨i, r⟩ = .ok tree s' := by
  unfold parseFrom at h
  split at h
  · cases h
  · rename_i r hr
    refine ⟨r, ?_⟩
    unfold Work.runFrom at h
    cases hrun : Parser.program (Parser.descent (loopsFor text) (levelsFor text)) ⟨i, r⟩ with
    | error e s' => rw [hrun] at h; cases h
    | ok n s' => rw [hrun] at h; cases h; exact ⟨s', hr, rfl, rfl⟩

/-- **What a text is read as**: a well-formed tree that prints the text, with no token object at two places and every
object as new as the numbers that were left for it. -/
theorem parseFrom_isProgram {text : List Char} {tree : Node} {i k : ObjectId} (h : parseFrom text i = (.ok tree, k)) :
    i ≤ k ∧ IsProgram text i k tree := by
  obtain ⟨r, s', hr, rfl, hprogram⟩ := parseFrom_eq_ok h
  obtain ⟨hwhole, hhere⟩ := Reading.ofText_whole hr
  rw [← hhere]
  exact Parser.program_ok (Parser.sound_descent _ _) hwhole hprogram

/-- The items of the lists of a tree that was read are told apart, so a new token at an edge of it changes that edge
only. -/
theorem IsProgram.keepsApart {text : List Char} {i k : ObjectId} {n : Node} (h : IsProgram text i k n) (edge : Edge) :
    n.KeepsApart edge := Node.keepsApart_of_nodup h.apart h.distinct edge

theorem parse_isProgram {text : List Char} {tree : Node} (h : parse text = .ok tree) :
    ∃ k, parseFrom text 0 = (.ok tree, k) ∧ IsProgram text 0 k tree := by
  have hrun : parseFrom text 0 = (.ok tree, (parseFrom text 0).2) := Prod.ext h rfl
  exact ⟨_, hrun, (parseFrom_isProgram hrun).2⟩

/-- **Parsing keeps every byte.**  Whatever was looked at ahead, tried as an arrow function and given up, cut anew as a
regular expression or left out as a semicolon: the tree of a text prints that text, is as wide as it, passes the check
of its invariants and has no token object at two places. -/
theorem parse_fullFidelity (text : List Char) (tree : Node) (h : parse text = .ok tree) :
    tree.fullText = text ∧ tree.fullWidth = Text.width text ∧ tree.checkInvariants = .ok () ∧
      (tree.tokens.map Token.id).Nodup := by
  obtain ⟨k, -, hprogram⟩ := parse_isProgram h
  exact ⟨hprogram.fullText, by rw [Node.fullWidth_eq, hprogram.fullText],
    Node.checkInvariants_eq_ok hprogram.wellFormed hprogram.distinct, hprogram.distinct⟩

/-- A regular expression, an arrow function, a parenthesis that is tried as one and a semicolon that is left out. -/
theorem parse_fullFidelity_rewound : ∃ tree, parse "y = /b/g; f = (a) => (a)\n".toList = .ok tree ∧
    tree.fullText = "y = /b/g; f = (a) => (a)\n".toList ∧
      tree.fullWidth = Text.width "y = /b/g; f = (a) => (a)\n".toList ∧ tree.checkInvariants = .ok () ∧
        (tree.tokens.map Token.id).Nodup := by
  have hok : (parse "y = /b/g; f = (a) => (a)\n".toList).isOk = true := by decide +kernel
  cases h : parse "y = /b/g; f = (a) => (a)\n".toList with
  | error e => rw [h] at hok; cases hok
  | ok tree => exact ⟨tree, rfl, parse_fullFidelity _ tree h⟩

end Downlevel
