import Mathlib.Logic.Relation
import Mathlib.Tactic.ByContra
import TapeMachine.Cell.Width
import TapeMachine.Input
import TapeMachine.Output
import TapeMachine.Proofs.Engine.Rule

/-!
# How a run ends

A run completes instructions one after another (`Program.Reaches`) until it takes a last step that
does not complete one (`ends_iff_reaches`). From this come the two main results:

* every run ends at the end of the program or at the instruction that failed, which can be tried
  again on the engine that is left (`ends_iff_stops`);
* brackets without a partner are reported by some run exactly if the program is not balanced
  (`balanced_iff_not_ends_unmatchedBracket`).

For the first, the pointer is followed along the run: an instruction is completed inside the program
and leads at most to its end (`Completes.instructionPointer_le`), so a run that began inside can
only stop well at the end itself. For the second, an engine is put in front of a bracket that has no
partner, with a cell that makes the jump due.
-/

namespace TapeMachine.Program

variable {κ : Type} {w : Nat} [Console κ w] {p : Program} {s t u : Config κ w}
  {failure : Failure} {outcome : Outcome} {k k' : κ}

/-! ## Completed instructions one after another

A run is a number of steps and then an outcome. Here the two are taken apart: states that are
reached by completed instructions, and the last step. -/

/-- Completing instructions one after another leads from one state to another. No number of steps is
kept here; `reaches_iff_run` gives one where it is needed. -/
def Reaches (p : Program) : Config κ w → Config κ w → Prop :=
  Relation.ReflTransGen p.Completes

theorem reaches_of_run {n : Nat} (h : run p n s = .running t) : p.Reaches s t := by
  induction n generalizing s with
  | zero =>
    cases h
    exact .refl
  | succ n ih =>
    rw [run_succ] at h
    cases hs : p.step s with
    | running s' =>
      rw [hs] at h
      exact .head (step_eq_running_iff.mp hs) (ih h)
    | ended outcome s' =>
      rw [hs] at h
      cases h

/-- Completed instructions are the steps of a run that goes on. -/
theorem reaches_iff_run : p.Reaches s t ↔ ∃ n, run p n s = .running t := by
  refine ⟨?_, ?_⟩
  · intro h
    induction h with
    | refl => exact ⟨0, rfl⟩
    | @tail t u _ hstep ih =>
      obtain ⟨n, hn⟩ := ih
      refine ⟨n + 1, ?_⟩
      rw [run_add, hn]
      exact hstep.run_succ 0
  · rintro ⟨n, hn⟩
    exact reaches_of_run hn

/-- A run ends in the same way from every state that it reaches. -/
theorem Reaches.ends_iff (h : p.Reaches s t) : p.Ends s outcome u ↔ p.Ends t outcome u := by
  induction h with
  | refl => exact Iff.rfl
  | tail _ hstep ih => exact ih.trans hstep.ends_iff

/-- The further a run has come, the fewer steps it takes to its end. This is what an induction on
the number of steps needs, when a case of it takes more than one of them. -/
theorem Reaches.exists_run_le (h : p.Reaches s t) {n : Nat} (hn : p.run n s = .ended outcome u) :
    ∃ m ≤ n, p.run m t = .ended outcome u := by
  induction h with
  | refl => exact ⟨n, Nat.le_refl n, hn⟩
  | tail _ hstep ih =>
    obtain ⟨m, hle, hm⟩ := ih
    cases m with
    | zero => cases hm
    | succ m =>
      rw [hstep.run_succ] at hm
      exact ⟨m, Nat.le_of_succ_le hle, hm⟩

/-- A run that comes again and again to states of one kind has no end. Each round completes an
instruction at least, so an ending would come closer with each round for ever. -/
theorem not_ends_of_progress {S : Config κ w → Prop}
    (hS : ∀ s, S s → ∃ t s', p.Reaches s t ∧ p.Completes t s' ∧ S s') (hs : S s) :
    ¬ p.Ends s outcome u := by
  rintro ⟨n, hn⟩
  -- on the steps that are left, of which a round takes at least one
  induction n using Nat.strongRecOn generalizing s with
  | ind n ih =>
    obtain ⟨t, s', hreach, hstep, hs'⟩ := hS s hs
    obtain ⟨m, hle, hm⟩ := hreach.exists_run_le hn
    cases m with
    | zero => cases hm
    | succ m =>
      rw [hstep.run_succ] at hm
      exact ih m hle hs' hm

/-- **The last step.** A run ends with the first step that completes nothing. -/
theorem ends_iff_reaches :
    p.Ends s outcome t ↔ ∃ c, p.Reaches s c ∧ p.step c = .ended outcome t := by
  refine ⟨?_, ?_⟩
  · rintro ⟨n, hn⟩
    -- on the number of steps; the first one is completed unless it is the last
    induction n generalizing s with
    | zero => cases hn
    | succ n ih =>
      rw [run_succ] at hn
      cases hs : p.step s with
      | running s' =>
        rw [hs] at hn
        obtain ⟨c, hreach, hlast⟩ := ih hn
        exact ⟨c, .head (step_eq_running_iff.mp hs) hreach, hlast⟩
      | ended outcome' s' =>
        rw [hs] at hn
        cases hn
        exact ⟨s, .refl, hs⟩
  · rintro ⟨c, hreach, hlast⟩
    exact hreach.ends_iff.mpr (ends_of_step hlast)

/-- A run that has no ending goes on for any number of steps. There is no third way for a run to be.
-/
theorem forall_not_ends_iff :
    (∀ outcome u, ¬ p.Ends s outcome u) ↔ ∀ n, ∃ u, p.run n s = .running u := by
  refine ⟨?_, ?_⟩
  · intro hnot n
    cases hn : p.run n s with
    | running u => exact ⟨u, rfl⟩
    | ended outcome u => exact absurd ⟨n, hn⟩ (hnot outcome u)
  · rintro hgo outcome u ⟨n, hn⟩
    obtain ⟨u', hu'⟩ := hgo n
    cases hu'.symm.trans hn

/-! ## The instruction pointer

A run may begin behind the end of the program, where an earlier one has left the engine. Then it
is over at once and the pointer stays. Hence the maximum in what follows. -/

/-- A partner is a bracket itself, so behind it there still is at most the end of the program. -/
theorem partner?_lt_size {pos other : Nat} (h : p.partner? pos = some other) : other < p.size := by
  rcases partner?_eq_some_iff.mp h with hpair | hpair
  · exact lt_size_of_instruction? hpair.closes
  · exact lt_size_of_instruction? hpair.opens

/-- Instructions are completed inside the program, and none leads further than to its end. -/
theorem Completes.instructionPointer_le (h : p.Completes s t) :
    s.engine.instructionPointer < p.size ∧ t.engine.instructionPointer ≤ p.size := by
  cases h with
  | comment byte none =>
    have hlt := (Array.getElem?_eq_some_iff.mp byte).1
    exact ⟨hlt, hlt⟩
  | skip instr zero partner =>
    exact ⟨lt_size_of_instruction? instr, partner?_lt_size partner⟩
  | again instr nonzero partner =>
    exact ⟨lt_size_of_instruction? instr, partner?_lt_size partner⟩
  | increment instr => exact ⟨lt_size_of_instruction? instr, lt_size_of_instruction? instr⟩
  | decrement instr => exact ⟨lt_size_of_instruction? instr, lt_size_of_instruction? instr⟩
  | right instr => exact ⟨lt_size_of_instruction? instr, lt_size_of_instruction? instr⟩
  | left instr => exact ⟨lt_size_of_instruction? instr, lt_size_of_instruction? instr⟩
  | enter instr => exact ⟨lt_size_of_instruction? instr, lt_size_of_instruction? instr⟩
  | leave instr => exact ⟨lt_size_of_instruction? instr, lt_size_of_instruction? instr⟩
  | input instr => exact ⟨lt_size_of_instruction? instr, lt_size_of_instruction? instr⟩
  | output instr => exact ⟨lt_size_of_instruction? instr, lt_size_of_instruction? instr⟩

/-- Only an instruction of the program can fail. So an engine that a failed run has left has
something to try again. -/
theorem Fails.instructionPointer_lt (h : p.Fails s failure k) :
    s.engine.instructionPointer < p.size := by
  cases h with
  | unclosed instr => exact lt_size_of_instruction? instr
  | unopened instr => exact lt_size_of_instruction? instr
  | flush instr => exact lt_size_of_instruction? instr
  | read instr => exact lt_size_of_instruction? instr
  | write instr => exact lt_size_of_instruction? instr

/-- A run that has moved at all began inside the program and has not left it. -/
theorem Reaches.eq_or_le (h : p.Reaches s t) :
    s = t ∨ (s.engine.instructionPointer < p.size ∧ t.engine.instructionPointer ≤ p.size) := by
  induction h with
  | refl => exact Or.inl rfl
  | tail _ hstep ih =>
    -- the last instruction was inside the program, and all before it were too
    obtain ⟨hlt, hle⟩ := hstep.instructionPointer_le
    rcases ih with rfl | ⟨hs, -⟩
    · exact Or.inr ⟨hlt, hle⟩
    · exact Or.inr ⟨hs, hle⟩

/-- A run that has come to the end has come no further, unless it began there. -/
theorem Reaches.size_le_iff (h : p.Reaches s t) :
    p.size ≤ t.engine.instructionPointer ↔
      t.engine.instructionPointer = max s.engine.instructionPointer p.size := by
  rcases h.eq_or_le with rfl | ⟨hlt, hle⟩
  · omega
  · omega

/-! ## The ending -/

/-- What running a program does first, from a state that an earlier run has left: it completes the
instruction there and goes on, or fails at it and leaves the engine as it was. -/
def Retries (p : Program) (s : Config κ w) : Prop :=
  (∃ t, p.Completes s t ∧ ∀ outcome u, p.Ends s outcome u ↔ p.Ends t outcome u) ∨
    ∃ failure k, p.Fails s failure k ∧ p.Ends s (.error failure) ⟨s.engine, k⟩

theorem retries (h : s.engine.instructionPointer < p.size) : p.Retries s := by
  obtain ⟨t, ht⟩ | ⟨failure, k, hf⟩ := completes_or_fails h
  · exact Or.inl ⟨t, ht, fun _ _ => ht.ends_iff⟩
  · exact Or.inr ⟨failure, k, hf, hf.ends⟩

/-- A bracket without a partner has none, whatever the console. Neither the test of the cell nor the
search for the partner asks it anything. -/
theorem Fails.of_unmatchedBracket {κ' : Type} [Console κ' w] {e : Engine w}
    {bracket : UnmatchedBracket} (h : p.Fails ⟨e, k⟩ (.unmatchedBracket bracket) k') (l : κ') :
    p.Fails ⟨e, l⟩ (.unmatchedBracket bracket) l := by
  cases h with
  | unclosed instr zero partner => exact .unclosed instr zero partner
  | unopened instr nonzero partner => exact .unopened instr nonzero partner

theorem ends_ok_iff :
    p.Ends s (.ok ()) t ↔
      p.Reaches s t ∧
        t.engine.instructionPointer = max s.engine.instructionPointer p.size := by
  rw [ends_iff_reaches]
  refine ⟨?_, ?_⟩
  · rintro ⟨c, hreach, hlast⟩
    obtain ⟨hge, rfl⟩ := step_eq_ok_iff.mp hlast
    exact ⟨hreach, hreach.size_le_iff.mp hge⟩
  · rintro ⟨hreach, hmax⟩
    exact ⟨t, hreach, step_eq_ok_iff.mpr ⟨hreach.size_le_iff.mpr hmax, rfl⟩⟩

/-- The failures. The console may be another one before the failed instruction, which has asked it
for something; the engine is the same before and after. -/
theorem ends_error_iff :
    p.Ends s (.error failure) t ↔
      ∃ k, p.Reaches s ⟨t.engine, k⟩ ∧ p.Fails ⟨t.engine, k⟩ failure t.console := by
  rw [ends_iff_reaches]
  refine ⟨?_, ?_⟩
  · rintro ⟨⟨engine, k⟩, hreach, hlast⟩
    obtain ⟨hf, rfl⟩ := step_eq_error_iff.mp hlast
    exact ⟨k, hreach, hf⟩
  · rintro ⟨k, hreach, hf⟩
    exact ⟨_, hreach, step_eq_error_iff.mpr ⟨hf, rfl⟩⟩

/-- A bracket without a partner asks nothing of the console. -/
theorem Ends.fails_of_unmatchedBracket {bracket : UnmatchedBracket}
    (h : p.Ends s (.error (.unmatchedBracket bracket)) t) :
    p.Reaches s t ∧ p.Fails t (.unmatchedBracket bracket) t.console := by
  obtain ⟨k, hreach, hf⟩ := ends_error_iff.mp h
  obtain ⟨e, l⟩ := t
  cases hf with
  | unclosed instr zero partner => exact ⟨hreach, .unclosed instr zero partner⟩
  | unopened instr nonzero partner => exact ⟨hreach, .unopened instr nonzero partner⟩

/-- A bracket without a partner is reported where the run has stopped. -/
theorem Ends.position_eq {bracket : UnmatchedBracket}
    (h : p.Ends s (.error (.unmatchedBracket bracket)) t) :
    bracket.position = t.engine.instructionPointer := by
  cases h.fails_of_unmatchedBracket.2 with
  | unclosed => rfl
  | unopened => rfl

/-- **Every ending.** A run ends well exactly if completed instructions lead to the end of the
program, or to where it began if that is beyond. It fails exactly if completed instructions lead to
one inside the program that fails, and the engine is then as the last completed one has left it.

Running the program again on the engine that a failed run has left takes up that instruction, with
whatever console there is now. A bracket without a partner is then reported again. -/
theorem ends_iff_stops (p : Program) (s t : Config κ w) (outcome : Outcome) :
    (p.Ends s outcome t ↔
      match outcome with
      | .ok () =>
        p.Reaches s t ∧ t.engine.instructionPointer = max s.engine.instructionPointer p.size
      | .error failure =>
        ∃ k, p.Reaches s ⟨t.engine, k⟩ ∧ t.engine.instructionPointer < p.size ∧
          p.Fails ⟨t.engine, k⟩ failure t.console) ∧
    (∀ failure, p.Ends s (.error failure) t → ∀ k : κ, p.Retries ⟨t.engine, k⟩) ∧
    ∀ bracket, p.Ends s (.error (.unmatchedBracket bracket)) t →
      ∀ k : κ, p.Ends ⟨t.engine, k⟩ (.error (.unmatchedBracket bracket)) ⟨t.engine, k⟩ := by
  refine ⟨?_, ?_, ?_⟩
  · cases outcome with
    | ok _ => exact ends_ok_iff
    | error failure =>
      rw [ends_error_iff]
      refine ⟨?_, ?_⟩
      · rintro ⟨k, hreach, hf⟩
        exact ⟨k, hreach, hf.instructionPointer_lt, hf⟩
      · rintro ⟨k, hreach, -, hf⟩
        exact ⟨k, hreach, hf⟩
  · intro failure h k
    obtain ⟨k', -, hf⟩ := ends_error_iff.mp h
    exact retries hf.instructionPointer_lt
  · intro bracket h k
    obtain ⟨k', -, hf⟩ := ends_error_iff.mp h
    exact (hf.of_unmatchedBracket k).ends

/-! ## Brackets without a partner

A program that is not balanced has a bracket without a partner. Whether a run comes to it depends on
the program; an engine can be put in front of it in any case. -/

/-- In a balanced program no bracket fails. -/
theorem Balanced.not_fails (h : p.Balanced) {bracket : UnmatchedBracket} :
    ¬ p.Fails s (.unmatchedBracket bracket) k := by
  intro hf
  cases hf with
  | unclosed instr _ partner =>
    obtain ⟨stop, hpair⟩ := h.exists_stop instr
    cases hpair.partner?_start.symm.trans partner
  | unopened instr _ partner =>
    obtain ⟨start, hpair⟩ := h.exists_start instr
    cases hpair.partner?_stop.symm.trans partner

/-- If no bracket fails on any engine, every bracket has a partner. The engine is free to choose, so
it can be put in front of any bracket with a cell that makes it jump. -/
theorem balanced_of_not_fails (hw : 0 < w) (k : κ)
    (h : ∀ (e : Engine w) (bracket : UnmatchedBracket),
      ¬ p.Fails ⟨e, k⟩ (.unmatchedBracket bracket) k) : p.Balanced := by
  refine balanced_iff_paired.mpr ⟨?_, ?_⟩
  · intro start ho
    cases hp : p.partner? start with
    | some stop => exact ⟨stop, (partner?_beginLoop ho).mp hp⟩
    | none =>
      -- on a zero cell the loop would have to be skipped, and a blank tape has one everywhere
      exact absurd (.unclosed ho (Tape.get_blank 0) hp) (h ⟨Tape.blank, 0, start⟩ _)
  · intro stop hc
    cases hp : p.partner? stop with
    | some start => exact ⟨start, (partner?_endLoop hc).mp hp⟩
    | none =>
      -- on a cell that is not zero it would have to be run again; a single one on the tape does,
      -- provided that cells can hold it
      have hone : (Tape.blank.set 0 1 : Tape w).get 0 ≠ 0 := by
        rw [Tape.get_set_self]
        exact Cell.one_ne_zero hw
      exact absurd (.unopened hc hone hp) (h ⟨Tape.blank.set 0 1, 0, stop⟩ _)

/-- **Unmatched brackets.** A program is balanced exactly if none of its runs, on a machine of any
width, from any state and with any console, ends at a bracket without a partner. If it is not
balanced, such a run exists for every width and every console. -/
theorem balanced_iff_not_ends_unmatchedBracket (p : Program) :
    (p.Balanced ↔
      ∀ (size : WordSize) (κ : Type) [Console κ size.bits] (s t : Config κ size.bits)
        (bracket : UnmatchedBracket), ¬ p.Ends s (.error (.unmatchedBracket bracket)) t) ∧
    (¬ p.Balanced →
      ∀ (size : WordSize) (κ : Type) [Console κ size.bits] (k : κ),
        ∃ (e : Engine size.bits) (bracket : UnmatchedBracket),
          p.Ends ⟨e, k⟩ (.error (.unmatchedBracket bracket)) ⟨e, k⟩) := by
  have hfails : ¬ p.Balanced → ∀ (size : WordSize) (κ : Type) [Console κ size.bits] (k : κ),
      ∃ (e : Engine size.bits) (bracket : UnmatchedBracket),
        p.Ends ⟨e, k⟩ (.error (.unmatchedBracket bracket)) ⟨e, k⟩ := by
    intro hnot size κ _ k
    by_contra hnone
    refine hnot (balanced_of_not_fails size.bits_pos k fun e bracket hf => ?_)
    exact hnone ⟨e, bracket, hf.ends⟩
  refine ⟨⟨?_, ?_⟩, hfails⟩
  · intro h size κ _ s t bracket hends
    obtain ⟨k, -, hf⟩ := ends_error_iff.mp hends
    exact h.not_fails hf
  · intro h
    by_contra hnot
    -- the console does not matter; this one has nothing to read
    obtain ⟨e, bracket, hends⟩ := hfails hnot .byte
      (Queue WordSize.byte.bits × Collector WordSize.byte.bits) ⟨⟨[]⟩, ⟨#[]⟩⟩
    exact h .byte _ _ _ bracket hends

end TapeMachine.Program
