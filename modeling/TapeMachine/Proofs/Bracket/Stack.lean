import TapeMachine.Bracket.Matcher
import TapeMachine.Proofs.Bracket.Pair

/-!
# The stack finds the pairs

The matcher walks through a program once, and after each byte two things hold (`Matcher.Correct`):

* its stack is the list of the brackets that are open at this point, the innermost first, with a
  balanced stretch after each of them (`Program.Opened`);
* its pairs are the pairs of the program that have been closed so far.

At the end of the program this says that `Program.partner?` is the other half of a pair, so that the
matcher and the two scans agree about every bracket.

The invariant has to hold of unbalanced programs too, where the stack may be empty when a bracket
closes. An empty stack then means more than that nothing has been pushed: it means that nothing in
front is open, so that a scan to the left would fail (`Program.Opened`, in its first case).
-/

namespace TapeMachine

namespace Program

variable {p : Program} {i j pos start other : Nat} {outer opened : List Nat}

/-! ## The stack

`Opened` says what the list of open brackets means at a position. It goes by recursion on the list,
as each bracket but the innermost is open where the next one stands. -/

/-- The brackets that are open at a position, the innermost first. When the list is empty, nothing
at all is open; otherwise what is between the innermost one and here is balanced, and the others are
open where it stands. -/
def Opened (p : Program) : List Nat → Nat → Prop
  | [], pos => p.NeverOpens 0 pos
  | start :: outer, pos =>
    p.instruction? start = some .beginLoop ∧ p.BalancedBetween (start + 1) pos ∧
      Opened p outer start

theorem opened_zero (p : Program) : p.Opened [] 0 := neverOpens_zero p (Int.le_refl 0)

/-- A balanced stretch leaves open what was open. Only the innermost bracket sees the stretch, or,
if there is none, the beginning of the program. -/
theorem Opened.append (h : p.Opened opened i) (hbal : p.BalancedBetween i j) :
    p.Opened opened j := by
  cases opened with
  | nil =>
    intro k hkj
    rcases Nat.le_total k i with hki | hik
    · rw [← excess_add p hki hbal.le, hbal.total, Int.add_zero]
      exact h k hki
    · -- inside the stretch its beginning has opened no less than its end closes
      have hsplit := excess_add p hik hkj
      have hbelow := hbal.never_below k hik hkj
      rw [hbal.total] at hsplit
      omega
  | cons start outer =>
    obtain ⟨ho, hinside, houter⟩ := h
    exact ⟨ho, hinside.trans hbal, houter⟩

/-- An opening bracket goes on top. -/
theorem Opened.push (h : p.Opened opened pos) (ho : p.instruction? pos = some .beginLoop) :
    p.Opened (pos :: opened) (pos + 1) :=
  ⟨ho, BalancedBetween.refl p (pos + 1), h⟩

/-- A closing bracket closes the topmost, which is therefore its partner. -/
theorem Opened.paired (h : p.Opened (start :: outer) pos)
    (hc : p.instruction? pos = some .endLoop) : p.Paired start pos :=
  ⟨h.1, hc, h.2.1⟩

/-- Behind the pair that it closes, the brackets further out are open as before. -/
theorem Opened.pop (h : p.Opened (start :: outer) pos)
    (hc : p.instruction? pos = some .endLoop) : p.Opened outer (pos + 1) :=
  h.2.2.append (h.paired hc).balancedBetween

/-- When nothing is open, a closing bracket changes nothing. This is the step at which an unbalanced
program differs from a balanced one. -/
theorem Opened.skip (h : p.Opened [] pos) (hc : p.instruction? pos = some .endLoop) :
    p.Opened [] (pos + 1) := by
  have hmore : p.NeverOpens 1 pos := NeverOpens.mono Int.one_nonneg h
  refine NeverOpens.of_succ (Int.le_refl 0) ?_ hmore
  rw [bracketAt_endLoop hc]
  rfl

end Program

/-! ## The pairs

With the stack correct at each position, the pairs that have been made so far are those that end
before it. -/

namespace Matcher

open Program

variable {p : Program} {m : Matcher} {pos start stop other : Nat}

/-- What is true of the matcher when it has come to a position. -/
structure Correct (p : Program) (pos : Nat) (m : Matcher) : Prop where
  /-- the stack holds the brackets that are open here -/
  opened : p.Opened m.opened pos
  /-- the pairs are those that end before -/
  mem_pairs : ∀ start stop, (start, stop) ∈ m.pairs ↔ stop < pos ∧ p.Paired start stop

theorem correct_zero (p : Program) : Correct p 0 {} where
  opened := opened_zero p
  mem_pairs := by simp

/-- A position at which no pair ends adds none. Three of the four ways to take an instruction need
this: only the bracket that closes something does not. -/
theorem mem_pairs_succ_of_not_paired {pairs : List (Nat × Nat)}
    (hm : ∀ start stop, (start, stop) ∈ pairs ↔ stop < pos ∧ p.Paired start stop)
    (hn : ∀ start, ¬ p.Paired start pos) (start stop : Nat) :
    (start, stop) ∈ pairs ↔ stop < pos + 1 ∧ p.Paired start stop := by
  rw [hm start stop]
  refine ⟨?_, ?_⟩
  · rintro ⟨hlt, hpair⟩
    exact ⟨Nat.lt_succ_of_lt hlt, hpair⟩
  · rintro ⟨hlt, hpair⟩
    rcases Nat.eq_or_lt_of_le (Nat.le_of_lt_succ hlt) with rfl | hlt'
    · exact absurd hpair (hn start)
    · exact ⟨hlt', hpair⟩

/-- A byte that is no bracket can be passed over. -/
theorem Correct.pass (hm : Correct p pos m) (hb : p.instruction? pos ≠ some .beginLoop)
    (he : p.instruction? pos ≠ some .endLoop) : Correct p (pos + 1) m where
  opened := hm.opened.append (BalancedBetween.of_byte (bracketAt_of_ne hb he))
  mem_pairs := mem_pairs_succ_of_not_paired hm.mem_pairs fun _ hpair => he hpair.closes

/-- **One instruction** of the program keeps the matcher correct. The cases are the brackets, with
the stack empty or not where one closes; all other instructions are passed over. -/
theorem Correct.feed {i : Instruction} (hm : Correct p pos m) (hi : p.instruction? pos = some i) :
    Correct p (pos + 1) (m.feed (pos, i)) := by
  obtain ⟨opened, pairs⟩ := m
  cases i with
  | beginLoop =>
    refine ⟨hm.opened.push hi, mem_pairs_succ_of_not_paired hm.mem_pairs ?_⟩
    intro start hpair
    cases hi.symm.trans hpair.closes
  | endLoop =>
    cases opened with
    | nil =>
      refine ⟨hm.opened.skip hi, mem_pairs_succ_of_not_paired hm.mem_pairs ?_⟩
      intro start hpair
      -- a pair would have its opening bracket on the stack, which is empty
      exact hpair.not_neverOpens hm.opened
    | cons start outer =>
      -- the bracket is the partner of the one on top of the stack
      have hpair := hm.opened.paired hi
      refine ⟨hm.opened.pop hi, ?_⟩
      intro start' stop
      rw [Matcher.feed, List.mem_cons, Prod.mk.injEq, hm.mem_pairs start' stop]
      refine ⟨?_, ?_⟩
      · rintro (⟨rfl, rfl⟩ | ⟨hlt, hpair'⟩)
        · exact ⟨Nat.lt_succ_self _, hpair⟩
        · exact ⟨Nat.lt_succ_of_lt hlt, hpair'⟩
      · rintro ⟨hlt, hpair'⟩
        rcases Nat.eq_or_lt_of_le (Nat.le_of_lt_succ hlt) with rfl | hlt'
        · exact Or.inl ⟨hpair'.start_unique hpair, rfl⟩
        · exact Or.inr ⟨hlt', hpair'⟩
  | increment => exact hm.pass (by simp [hi]) (by simp [hi])
  | decrement => exact hm.pass (by simp [hi]) (by simp [hi])
  | right => exact hm.pass (by simp [hi]) (by simp [hi])
  | left => exact hm.pass (by simp [hi]) (by simp [hi])
  | input => exact hm.pass (by simp [hi]) (by simp [hi])
  | output => exact hm.pass (by simp [hi]) (by simp [hi])

/-- **The whole walk.** The matcher is correct wherever it has come to. The induction is on the
position and not on the list of instructions, because the invariant speaks of comments as well. -/
theorem correct_foldl (p : Program) (pos : Nat) :
    Correct p pos
      (((List.range pos).filterMap fun q => (p.instruction? q).map (q, ·)).foldl feed {}) := by
  induction pos with
  | zero => exact correct_zero p
  | succ pos ih =>
    rw [List.range_succ, List.filterMap_append, List.foldl_append]
    cases hi : p.instruction? pos with
    | none =>
      simp only [List.filterMap_cons, List.filterMap_nil, hi, Option.map_none, List.foldl_nil]
      exact ih.pass (by simp [hi]) (by simp [hi])
    | some i =>
      simp only [List.filterMap_cons, List.filterMap_nil, hi, Option.map_some, List.foldl_cons,
        List.foldl_nil]
      exact ih.feed hi

end Matcher

namespace Program

open Matcher

variable {p : Program} {pos start stop other other' : Nat}

/-- The pairs of the matcher are the pairs of the program. -/
theorem mem_pairs_matcher_iff : (start, stop) ∈ p.matcher.pairs ↔ p.Paired start stop := by
  refine Iff.trans ((correct_foldl p p.size).mem_pairs start stop) ?_
  refine ⟨?_, ?_⟩
  · rintro ⟨-, hpair⟩
    exact hpair
  · intro hpair
    exact ⟨lt_size_of_instruction? hpair.closes, hpair⟩

theorem other_unique (h : p.Paired pos other ∨ p.Paired other pos)
    (h' : p.Paired pos other' ∨ p.Paired other' pos) : other = other' := by
  rcases h with h | h <;> rcases h' with h' | h'
  · exact h.stop_unique h'
  · cases h.opens.symm.trans h'.closes
  · cases h.closes.symm.trans h'.opens
  · exact h.start_unique h'

/-- **The partner** of a bracket is the other half of its pair. The list of pairs is searched for
the first that has the position as one of its ends; that it does not matter which is found first is
`other_unique`. -/
theorem partner?_eq_some_iff :
    p.partner? pos = some other ↔ p.Paired pos other ∨ p.Paired other pos := by
  have hsound : ∀ {x}, p.partner? pos = some x → p.Paired pos x ∨ p.Paired x pos := by
    intro x hx
    obtain ⟨⟨start, stop⟩, hmem, hval⟩ := List.exists_of_findSome?_eq_some hx
    have hpair := mem_pairs_matcher_iff.mp hmem
    change (if start = pos then some stop else if stop = pos then some start else none) = some x
      at hval
    by_cases hstart : start = pos
    · rw [if_pos hstart, Option.some.injEq] at hval
      rw [← hval, ← hstart]
      exact Or.inl hpair
    · rw [if_neg hstart] at hval
      by_cases hstop : stop = pos
      · rw [if_pos hstop, Option.some.injEq] at hval
        rw [← hval, ← hstop]
        exact Or.inr hpair
      · rw [if_neg hstop] at hval
        cases hval
  refine ⟨hsound, ?_⟩
  intro h
  cases hx : p.partner? pos with
  | some x => rw [other_unique h (hsound hx)]
  | none =>
    -- the pair is in the list, so the search cannot come back with nothing
    have hnone := List.findSome?_eq_none_iff.mp hx
    rcases h with h | h
    · have := hnone _ (mem_pairs_matcher_iff.mpr h)
      simp at this
    · have := hnone _ (mem_pairs_matcher_iff.mpr h)
      simp only [ite_true] at this
      split at this <;> cases this

theorem Paired.partner?_start (h : p.Paired start stop) : p.partner? start = some stop :=
  partner?_eq_some_iff.mpr (Or.inl h)

theorem Paired.partner?_stop (h : p.Paired start stop) : p.partner? stop = some start :=
  partner?_eq_some_iff.mpr (Or.inr h)

/-- The partner of an opening bracket closes it. -/
theorem partner?_beginLoop (ho : p.instruction? pos = some .beginLoop) :
    p.partner? pos = some other ↔ p.Paired pos other := by
  rw [partner?_eq_some_iff, or_iff_left]
  intro hpair
  cases ho.symm.trans hpair.closes

/-- The partner of a closing bracket opens it. -/
theorem partner?_endLoop (hc : p.instruction? pos = some .endLoop) :
    p.partner? pos = some other ↔ p.Paired other pos := by
  rw [partner?_eq_some_iff, or_iff_right]
  intro hpair
  cases hc.symm.trans hpair.opens

theorem partner?_eq_none_iff :
    p.partner? pos = none ↔ ∀ other, ¬ p.Paired pos other ∧ ¬ p.Paired other pos := by
  rw [Option.eq_none_iff_forall_ne_some]
  simp only [ne_eq, partner?_eq_some_iff, not_or]

theorem partner?_of_size_le (h : p.size ≤ pos) : p.partner? pos = none := by
  refine partner?_eq_none_iff.mpr fun other => ⟨?_, ?_⟩
  · intro hpair
    exact Nat.not_lt_of_le h (lt_size_of_instruction? hpair.opens)
  · intro hpair
    exact Nat.not_lt_of_le h (lt_size_of_instruction? hpair.closes)

/-! ## Scans and stack

Both have been compared to pairs, and so they agree with each other. If the scan fails, there is no
pair, and the stack has found none. -/

theorem partner?_eq_none_of_neverCloses (ho : p.instruction? pos = some .beginLoop)
    (h : p.NeverCloses 0 (pos + 1)) : p.partner? pos = none := by
  refine partner?_eq_none_iff.mpr fun other => ⟨?_, ?_⟩
  · intro hpair
    exact hpair.not_neverCloses h
  · intro hpair
    cases ho.symm.trans hpair.closes

theorem partner?_eq_none_of_neverOpens (hc : p.instruction? pos = some .endLoop)
    (h : p.NeverOpens 0 pos) : p.partner? pos = none := by
  refine partner?_eq_none_iff.mpr fun other => ⟨?_, ?_⟩
  · intro hpair
    cases hc.symm.trans hpair.opens
  · intro hpair
    exact hpair.not_neverOpens h

/-- From an opening bracket, the scan to the right finds what the stack has found. -/
theorem matchForward_eq_partner? (ho : p.instruction? pos = some .beginLoop) :
    p.matchForward pos =
      match p.partner? pos with
      | some other => .ok other
      | none => .error ⟨pos, .forward⟩ := by
  obtain ⟨stop, hpair, heq⟩ | ⟨hn, heq⟩ := matchForward_cases ho
  · rw [heq, hpair.partner?_start]
  · rw [heq, partner?_eq_none_of_neverCloses ho hn]

/-- From a closing bracket, the scan to the left finds what the stack has found. -/
theorem matchBackward_eq_partner? (hc : p.instruction? pos = some .endLoop) :
    p.matchBackward pos =
      match p.partner? pos with
      | some other => .ok other
      | none => .error ⟨pos, .backward⟩ := by
  obtain ⟨start, hpair, heq⟩ | ⟨hn, heq⟩ := matchBackward_cases hc
  · rw [heq, hpair.partner?_stop]
  · rw [heq, partner?_eq_none_of_neverOpens hc hn]

/-- **Scans and stack agree.** In every program, balanced or not, the scan that starts at a bracket
answers with the partner that the stack has given this bracket. If the stack has given it none, the
scan reports the position of the bracket and the direction it took. -/
theorem scans_agree_with_matcher (p : Program) (pos : Nat) :
    (p.instruction? pos = some .beginLoop →
      p.matchForward pos =
        match p.partner? pos with
        | some other => .ok other
        | none => .error ⟨pos, .forward⟩) ∧
    (p.instruction? pos = some .endLoop →
      p.matchBackward pos =
        match p.partner? pos with
        | some other => .ok other
        | none => .error ⟨pos, .backward⟩) :=
  ⟨matchForward_eq_partner?, matchBackward_eq_partner?⟩

/-- The brackets of `]+[[x]`: the first two have no partner, the last two have each other. -/
theorem scans_agree_with_matcher_unbalanced :
    (instruction? #[93, 43, 91, 91, 120, 93] 0 = some .endLoop ∧
      matchBackward #[93, 43, 91, 91, 120, 93] 0 = .error ⟨0, .backward⟩) ∧
    (instruction? #[93, 43, 91, 91, 120, 93] 2 = some .beginLoop ∧
      matchForward #[93, 43, 91, 91, 120, 93] 2 = .error ⟨2, .forward⟩) ∧
    (instruction? #[93, 43, 91, 91, 120, 93] 3 = some .beginLoop ∧
      matchForward #[93, 43, 91, 91, 120, 93] 3 = .ok 5) ∧
    instruction? #[93, 43, 91, 91, 120, 93] 5 = some .endLoop ∧
      matchBackward #[93, 43, 91, 91, 120, 93] 5 = .ok 3 :=
  ⟨⟨by decide, (scans_agree_with_matcher _ 0).2 (by decide)⟩,
    ⟨by decide, (scans_agree_with_matcher _ 2).1 (by decide)⟩,
    ⟨by decide, (scans_agree_with_matcher _ 3).1 (by decide)⟩,
    by decide, (scans_agree_with_matcher _ 5).2 (by decide)⟩

end Program

end TapeMachine
