import TapeMachine.Proofs.Bracket.Stack

/-!
# Pairs under another numbering

The matcher looks at the brackets of a program and never at the distances between them
(`matcher_eq_foldl_brackets`). If the brackets of one program are those of another under a numbering
`f`, it does the same with both, and its stacks and pairs differ only by `f`
(`Matcher.foldl_feed_map`). So the pairs of the one are the pairs of the other
(`paired_iff_of_brackets_eq_map`), and a position has its partner in the new place if `f` puts no
other bracket there (`partner?_of_brackets_eq_map`).

This is where the one-pass matcher pays off. With scans, a comparison of two programs of different
length would have to be made for each distance that a scan walks; the matcher makes it once, for the
list of the brackets. Taking the comments out of a program and exchanging instructions that are no
brackets are both numberings in this sense.
-/

namespace TapeMachine

/-- Whether the instruction begins or ends a loop. -/
def Instruction.isBracket : Instruction → Bool
  | beginLoop | endLoop => true
  | increment | decrement | right | left | input | output => false

namespace Matcher

variable {f : Nat → Nat}

/-- All but brackets are passed over. -/
theorem feed_of_not_isBracket (m : Matcher) (pos : Nat) {i : Instruction} (h : ¬ i.isBracket) :
    m.feed (pos, i) = m := by
  cases i with
  | beginLoop => exact absurd rfl h
  | endLoop => exact absurd rfl h
  | increment => rfl
  | decrement => rfl
  | right => rfl
  | left => rfl
  | input => rfl
  | output => rfl

/-- The matcher with all its positions taken through `f`. Nothing is asked of `f` here, since the
matcher never compares positions. -/
def map (f : Nat → Nat) (m : Matcher) : Matcher := ⟨m.opened.map f, m.pairs.map (Prod.map f f)⟩

/-- To take an instruction is to take it under the numbering, since no position is looked at. -/
theorem feed_map (m : Matcher) (pos : Nat) (i : Instruction) :
    (m.map f).feed (f pos, i) = (m.feed (pos, i)).map f := by
  obtain ⟨opened, pairs⟩ := m
  cases i with
  | beginLoop => rfl
  | endLoop => cases opened <;> rfl
  | increment => rfl
  | decrement => rfl
  | right => rfl
  | left => rfl
  | input => rfl
  | output => rfl

/-- **The whole walk** is the same under the numbering. -/
theorem foldl_feed_map (l : List (Nat × Instruction)) (m : Matcher) :
    (l.map (Prod.map f id)).foldl feed (m.map f) = (l.foldl feed m).map f := by
  induction l generalizing m with
  | nil => rfl
  | cons entry l ih =>
    obtain ⟨pos, i⟩ := entry
    rw [List.map_cons, List.foldl_cons, List.foldl_cons, Prod.map_apply, id, feed_map, ih]

end Matcher

namespace Program

open Matcher

variable {p q : Program} {f : Nat → Nat} {pos start stop : Nat}

/-- The brackets of the program in order, each with its position. -/
def brackets (p : Program) : List (Nat × Instruction) :=
  p.instructions.filter fun entry => entry.2.isBracket

theorem matcher_eq_foldl_brackets (p : Program) : p.matcher = p.brackets.foldl feed {} := by
  have hpass : ∀ (l : List (Nat × Instruction)) (m : Matcher),
      l.foldl feed m = (l.filter fun entry => entry.2.isBracket).foldl feed m := by
    intro l
    induction l with
    | nil => exact fun _ => rfl
    | cons entry l ih =>
      intro m
      obtain ⟨pos, i⟩ := entry
      rw [List.foldl_cons, List.filter_cons]
      split
      · rw [List.foldl_cons, ih]
      · next h => rw [feed_of_not_isBracket m pos h, ih]
  exact hpass p.instructions {}

theorem brackets_congr (hsize : q.size = p.size)
    (h : ∀ pos, (q.instruction? pos).filter Instruction.isBracket =
      (p.instruction? pos).filter Instruction.isBracket) : q.brackets = p.brackets := by
  have hmap : ∀ (pos : Nat) (o : Option Instruction),
      (o.map (pos, ·)).filter (fun entry => entry.2.isBracket) =
        (o.filter Instruction.isBracket).map (pos, ·) :=
    fun pos o => Option.filter_map
  rw [brackets, brackets, instructions, instructions, List.filter_filterMap, List.filter_filterMap,
    hsize]
  simp only [hmap, h]

theorem matcher_of_brackets_eq_map (h : q.brackets = p.brackets.map (Prod.map f id)) :
    q.matcher = p.matcher.map f := by
  rw [matcher_eq_foldl_brackets, matcher_eq_foldl_brackets, h]
  exact foldl_feed_map p.brackets {}

/-- **Pairs** are those of the other program, in their new places. -/
theorem paired_iff_of_brackets_eq_map (h : q.brackets = p.brackets.map (Prod.map f id)) :
    q.Paired start stop ↔ ∃ start' stop', p.Paired start' stop' ∧ f start' = start ∧
      f stop' = stop := by
  rw [← mem_pairs_matcher_iff, matcher_of_brackets_eq_map h, Matcher.map, List.mem_map]
  simp only [Prod.exists, Prod.map_apply, Prod.mk.injEq, mem_pairs_matcher_iff]

/-- **Partners** are those of the other program, in their new places. Here two brackets must not
come to stand in one place, or the position would not tell which of them is meant. Other positions
may. -/
theorem partner?_of_brackets_eq_map (h : q.brackets = p.brackets.map (Prod.map f id))
    (hinj : ∀ {j x}, p.instruction? j = some x → x.isBracket → f j = f pos → j = pos) :
    q.partner? (f pos) = (p.partner? pos).map f := by
  refine Option.ext fun other => ?_
  rw [partner?_eq_some_iff, paired_iff_of_brackets_eq_map h, paired_iff_of_brackets_eq_map h,
    Option.map_eq_some_iff]
  refine ⟨?_, ?_⟩
  · rintro (⟨start, stop, hpair, hstart, rfl⟩ | ⟨start, stop, hpair, rfl, hstop⟩)
    · obtain rfl := hinj hpair.opens rfl hstart
      exact ⟨stop, hpair.partner?_start, rfl⟩
    · obtain rfl := hinj hpair.closes rfl hstop
      exact ⟨start, hpair.partner?_stop, rfl⟩
  · rintro ⟨other, hother, rfl⟩
    rcases partner?_eq_some_iff.mp hother with hpair | hpair
    · exact Or.inl ⟨pos, other, hpair, rfl, rfl⟩
    · exact Or.inr ⟨other, pos, hpair, rfl, rfl⟩

/-- If all instructions are those of the other program, so are the brackets. -/
theorem brackets_of_instructions_eq_map
    (h : q.instructions = p.instructions.map (Prod.map f id)) :
    q.brackets = p.brackets.map (Prod.map f id) := by
  rw [brackets, h, List.filter_map]
  rfl

end Program

end TapeMachine
