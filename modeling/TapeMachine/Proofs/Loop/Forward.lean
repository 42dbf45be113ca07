import Mathlib.Order.Bounds.Defs
import TapeMachine.Proofs.Retry.Bytes

/-!
# Programs that only go forward

A loop that is nowhere closed is not repeated, and it cannot be skipped. So a program without a
closing bracket goes through its bytes one after another (`Completes.instructionPointer_eq_succ`),
until it comes to its end or to an instruction that fails. If the console answers, that can only be
the first loop that has to be skipped (`ends_unmatchedBracket_iff`, `forward_runs_end`).

After `n` steps the instruction pointer is `n` further, which settles everything about how long a
run takes: it would be behind the program before it could go on for ever. Nothing is assumed of the
console for this. Only that a run does not fail for another reason needs one that always answers.
-/

namespace TapeMachine

namespace Program

variable {κ : Type} {w : Nat} [Console κ w] {p : Program} {s t : Config κ w} {n : Nat} {k : κ}
  {bracket : UnmatchedBracket}

/-- The run has come to a loop that it has to skip. -/
structure SkipDue (p : Program) (s : Config κ w) : Prop where
  /-- a loop begins -/
  instr : p.instruction? s.engine.instructionPointer = some .beginLoop
  /-- on a zero cell -/
  zero : s.engine.currentCell = 0

section Forward

variable (h : Instruction.endLoop.toByte ∉ p)
include h

/-! ## One step

Without closing brackets there are no pairs, so no jump can be completed. -/

theorem instruction?_ne_endLoop (pos : Nat) : p.instruction? pos ≠ some .endLoop := by
  intro hi
  obtain ⟨b, hb, hi⟩ := exists_byte_of_instruction? hi
  rw [Instruction.ofByte?_eq_some_iff] at hi
  exact h (hi ▸ Array.mem_of_getElem? hb)

/-- No bracket has a partner, since one of the two would be a closing one. -/
theorem partner?_eq_none_of_forward (pos : Nat) : p.partner? pos = none := by
  cases hp : p.partner? pos with
  | none => rfl
  | some other =>
    rcases partner?_eq_some_iff.mp hp with hpair | hpair
    · exact absurd hpair.closes (instruction?_ne_endLoop h _)
    · exact absurd hpair.closes (instruction?_ne_endLoop h _)

/-- **Forward.** Every completed instruction leads to the next position. The two that would jump
need a partner. -/
theorem Completes.instructionPointer_eq_succ (hc : p.Completes s t) :
    t.engine.instructionPointer = s.engine.instructionPointer + 1 := by
  cases hc with
  | skip instr zero partner => cases (partner?_eq_none_of_forward h _).symm.trans partner
  | again instr => exact absurd instr (instruction?_ne_endLoop h _)
  | _ => rfl

/-- What fails for want of a partner is a loop that has to be skipped, and every such loop fails. -/
theorem fails_unmatchedBracket_iff :
    p.Fails s (.unmatchedBracket bracket) k ↔
      p.SkipDue s ∧ bracket = ⟨s.engine.instructionPointer, .forward⟩ ∧ k = s.console := by
  refine ⟨fun hf => ?_, ?_⟩
  · cases hf with
    | unclosed instr zero => exact ⟨⟨instr, zero⟩, rfl, rfl⟩
    | unopened instr => exact absurd instr (instruction?_ne_endLoop h _)
  · rintro ⟨hdue, rfl, rfl⟩
    exact .unclosed hdue.instr hdue.zero (partner?_eq_none_of_forward h _)

/-! ## Runs

The pointer counts the steps. Everything else follows from where it is. -/

/-- A run that goes on has taken one byte with every step. The induction is on the steps behind the
first. -/
theorem instructionPointer_of_run (hrun : p.run n s = .running t) :
    t.engine.instructionPointer = s.engine.instructionPointer + n := by
  induction n generalizing s with
  | zero =>
    cases hrun
    rfl
  | succ n ih =>
    rw [run_succ] at hrun
    cases hs : p.step s with
    | running s' =>
      rw [hs] at hrun
      have hnext := (step_eq_running_iff.mp hs).instructionPointer_eq_succ h
      rw [ih hrun, hnext, Nat.add_assoc, Nat.add_comm 1 n]
    | ended outcome s' =>
      rw [hs] at hrun
      cases hrun

/-- A run that goes on is inside the program or where it began, so there is no run that goes on for
ever. -/
theorem exists_ends_of_forward (s : Config κ w) : ∃ outcome t, p.Ends s outcome t := by
  by_contra hnot
  simp only [not_exists] at hnot
  -- after more steps than there are bytes it would be behind them
  obtain ⟨t, ht⟩ := forall_not_ends_iff.mp hnot (p.size + 1)
  have hip := instructionPointer_of_run h ht
  rcases (reaches_of_run ht).eq_or_le with rfl | ⟨-, hle⟩
  · omega
  · omega

/-- **How long.** A run that ends well has taken all the bytes that there are from where it began,
and a run that fails has left some of them. -/
theorem exists_run_of_forward (s : Config κ w) :
    ∃ n c outcome t, p.run n s = .running c ∧ p.step c = .ended outcome t ∧
      match outcome with
      | .ok () => n = p.size - s.engine.instructionPointer
      | .error _ => n < p.size - s.engine.instructionPointer := by
  obtain ⟨outcome, t, hends⟩ := exists_ends_of_forward h s
  obtain ⟨c, hreach, hlast⟩ := ends_iff_reaches.mp hends
  obtain ⟨n, hn⟩ := reaches_iff_run.mp hreach
  -- the pointer counts the steps that have been completed
  have hip := instructionPointer_of_run h hn
  refine ⟨n, c, outcome, t, hn, hlast, ?_⟩
  cases outcome with
  | ok _ =>
    have hmax := hreach.size_le_iff.mp (step_eq_ok_iff.mp hlast).1
    change n = _
    omega
  | error failure =>
    have hlt := (step_eq_error_iff.mp hlast).1.instructionPointer_lt
    change c.engine.instructionPointer < p.size at hlt
    change n < _
    omega

/-- **Loops that have to be skipped.** A run stops at the one that it comes to. -/
theorem ends_unmatchedBracket_iff :
    p.Ends s (.error (.unmatchedBracket bracket)) t ↔
      p.Reaches s t ∧ p.SkipDue t ∧ bracket = ⟨t.engine.instructionPointer, .forward⟩ := by
  refine ⟨fun hends => ?_, ?_⟩
  · obtain ⟨hreach, hf⟩ := hends.fails_of_unmatchedBracket
    obtain ⟨hdue, hbracket, -⟩ := (fails_unmatchedBracket_iff h).mp hf
    exact ⟨hreach, hdue, hbracket⟩
  · rintro ⟨hreach, hdue, rfl⟩
    exact hreach.ends_iff.mpr ((fails_unmatchedBracket_iff h).mpr ⟨hdue, rfl, rfl⟩).ends

/-- There is no other one to which it comes, since the run would have ended there. -/
theorem Ends.isLeast_skipDue (hends : p.Ends s (.error (.unmatchedBracket bracket)) t) :
    IsLeast {pos | ∃ c, p.Reaches s c ∧ p.SkipDue c ∧ c.engine.instructionPointer = pos}
      bracket.position := by
  obtain ⟨hreach, hdue, rfl⟩ := (ends_unmatchedBracket_iff h).mp hends
  refine ⟨⟨t, hreach, hdue, rfl⟩, ?_⟩
  rintro pos ⟨c, hreach', hdue', rfl⟩
  obtain ⟨-, rfl⟩ := hends.unique ((ends_unmatchedBracket_iff h).mpr ⟨hreach', hdue', rfl⟩)
  exact Nat.le_refl _

/-- **Forward only.** A program without a closing bracket goes through its bytes one after another,
whatever the width of the cells, the engine and the console.

* Every run ends. If it ends well, it has completed all bytes from where it began, and none if it
  began at the end or beyond; if it fails, it has completed fewer of them.
* After as many steps it is as many positions further.
* It ends at a bracket without a partner exactly if it comes to a loop that it has to skip, and this
  is where it ends: the partner was looked for to the right, and there was no such loop before.
* Between a stream that is only ever interrupted or at its end and a device that never fails, it
  ends well or at such a loop. -/
theorem forward_runs_end :
    (∀ (κ : Type) [Console κ w] (s : Config κ w),
      (∃ n c outcome t, p.run n s = .running c ∧ p.step c = .ended outcome t ∧
        match outcome with
        | .ok () => n = p.size - s.engine.instructionPointer
        | .error _ => n < p.size - s.engine.instructionPointer) ∧
      (∀ n c, p.run n s = .running c →
        c.engine.instructionPointer = s.engine.instructionPointer + n) ∧
      (∀ bracket t, p.Ends s (.error (.unmatchedBracket bracket)) t ↔
        p.Reaches s t ∧ p.SkipDue t ∧ bracket = ⟨t.engine.instructionPointer, .forward⟩) ∧
      ∀ bracket t, p.Ends s (.error (.unmatchedBracket bracket)) t →
        IsLeast {pos | ∃ c, p.Reaches s c ∧ p.SkipDue c ∧ c.engine.instructionPointer = pos}
          bracket.position) ∧
    ∀ (e : Engine w) (input : Stream) (written : Array UInt8),
      (∀ error, .failure error ∈ input → error.isInterrupted) →
      ∃ outcome t,
        p.Ends (κ := ByteReader × ByteWriter) ⟨e, ⟨input⟩, ⟨written, [], []⟩⟩ outcome t ∧
          (outcome = .ok () ∨ ∃ pos, outcome = .error (.unmatchedBracket ⟨pos, .forward⟩)) := by
  refine ⟨fun κ _ s => ⟨exists_run_of_forward h s, fun n c => instructionPointer_of_run h,
    fun bracket t => ends_unmatchedBracket_iff h, fun bracket t => Ends.isLeast_skipDue h⟩, ?_⟩
  intro e input written hinput
  obtain ⟨outcome, t, hends⟩ :=
    exists_ends_of_forward (κ := ByteReader × ByteWriter) h ⟨e, ⟨input⟩, ⟨written, [], []⟩⟩
  -- the console never fails, so a failure is that of a bracket
  have hanswered := hends.ne_console_of_bytes (Stream.failures_eq_zero hinput) rfl
  refine ⟨outcome, t, hends, ?_⟩
  cases outcome with
  | ok _ => exact Or.inl rfl
  | error failure =>
    cases failure with
    | console f => exact absurd rfl (hanswered f)
    | unmatchedBracket bracket =>
      obtain ⟨-, -, rfl⟩ := (ends_unmatchedBracket_iff h).mp hends
      exact Or.inr ⟨_, rfl⟩

end Forward

/-- `,[-[` reads a one after an interruption, enters its first loop, counts down and would have to
skip the second loop. -/
theorem forward_runs_end_skipping :
    Instruction.endLoop.toByte ∉ (#[44, 91, 45, 91] : Program) ∧
      (∀ error, .failure error ∈ ([.failure (.plain .interrupted), .data [1]] : Stream) →
        error.isInterrupted) ∧
      ∃ t, Ends (κ := ByteReader × ByteWriter) (w := 8) #[44, 91, 45, 91]
        ⟨.initial, ⟨[.failure (.plain .interrupted), .data [1]]⟩, ⟨#[], [], []⟩⟩
        (.error (.unmatchedBracket ⟨3, .forward⟩)) t := by
  let one : Tape 8 := Tape.blank.set 0 1
  let zero : Tape 8 := one.set 0 (one.get 0 - 1)
  let left : ByteReader × ByteWriter := (⟨[.data []]⟩, ⟨#[], [], []⟩)
  have hprogram : Instruction.endLoop.toByte ∉ (#[44, 91, 45, 91] : Program) :=
    mt Array.mem_toList_iff.mpr (by decide)
  have hinput : ∀ error,
      .failure error ∈ ([.failure (.plain .interrupted), .data [1]] : Stream) →
        error.isInterrupted := by simp [IoError.isInterrupted, IoError.kind]
  have hone : one.get 0 = 1 := Tape.get_set_self _ _ _
  have hread : Completes (κ := ByteReader × ByteWriter) #[44, 91, 45, 91]
      ⟨.initial, ⟨[.failure (.plain .interrupted), .data [1]]⟩, ⟨#[], [], []⟩⟩
      ⟨⟨one, 0, 1⟩, left⟩ := .input (by decide) rfl rfl
  have henter : Completes #[44, 91, 45, 91] ⟨⟨one, 0, 1⟩, left⟩ ⟨⟨one, 0, 2⟩, left⟩ :=
    .enter (by decide) (by rw [hone]; decide)
  have hcount : Completes #[44, 91, 45, 91] ⟨⟨one, 0, 2⟩, left⟩ ⟨⟨zero, 0, 3⟩, left⟩ :=
    .decrement (by decide)
  have hreach : Reaches #[44, 91, 45, 91] _ _ := .head hread (.head henter (.head hcount .refl))
  have hdue : SkipDue #[44, 91, 45, 91]
      (⟨⟨zero, 0, 3⟩, left⟩ : Config (ByteReader × ByteWriter) 8) :=
    ⟨by decide, (Tape.get_set_self _ _ _).trans (by rw [hone]; rfl)⟩
  obtain ⟨hruns, hbytes⟩ := forward_runs_end (w := 8) hprogram
  obtain ⟨-, -, hskip, -⟩ := hruns (ByteReader × ByteWriter) _
  have hstops := (hskip _ _).mpr ⟨hreach, hdue, rfl⟩
  obtain ⟨outcome, t, hends, -⟩ := hbytes .initial _ #[] hinput
  obtain ⟨rfl, -⟩ := hends.unique hstops
  exact ⟨hprogram, hinput, t, hends⟩

end Program

end TapeMachine
