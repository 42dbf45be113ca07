import TapeMachine.Engine.Basic

/-!
# One step of a run

A step takes the byte under the instruction pointer. Either the instruction is completed and the
pointer has moved on, or the run is over and nothing but the console has changed. Brackets look for
their partners only when a jump is due, and a jump ends one past the partner, so going back to the
start of a loop does not test the cell again.

`Program.step` is the step; the lemmas after it say what it does for each kind of byte. They are the
only ones that open its definition. The rules of the machine are derived from them, and everything
later from the rules.
-/

namespace TapeMachine

namespace Program

variable {κ : Type} {w : Nat}

/-- One byte of the program. A completed instruction moves the instruction pointer one on, after a
jump from the partner of the bracket; a failed one leaves the engine as it was. -/
@[inline] def step [Console κ w] (p : Program) : Config κ w → Progress (Config κ w)
  | ⟨⟨tape, mp, ip⟩, k⟩ =>
    match p[ip]? with
    | none => .ended (.ok ()) ⟨⟨tape, mp, ip⟩, k⟩
    | some b =>
      match Instruction.ofByte? b with
      | none => .completed tape mp ip k
      | some .increment => .completed (tape.increment mp) mp ip k
      | some .decrement => .completed (tape.decrement mp) mp ip k
      | some .right => .completed tape (mp + 1) ip k
      | some .left => .completed tape (mp - 1) ip k
      | some .beginLoop =>
        if (tape.get mp).isZero then
          match p.matchForward ip with
          | .ok partner => .completed tape mp partner k
          | .error e => .failed tape mp ip k (.unmatchedBracket e)
        else .completed tape mp ip k
      | some .endLoop =>
        if (tape.get mp).isZero then .completed tape mp ip k
        else
          match p.matchBackward ip with
          | .ok partner => .completed tape mp partner k
          | .error e => .failed tape mp ip k (.unmatchedBracket e)
      | some .input =>
        match Console.flush w k with
        | (.error f, k) => .failed tape mp ip k (.console f)
        | (.ok (), k) =>
          match Console.read k with
          | (.error f, k) => .failed tape mp ip k (.console f)
          | (.ok c, k) => .completed (tape.set mp c) mp ip k
      | some .output =>
        match Console.write (tape.get mp) k with
        | (.error f, k) => .failed tape mp ip k (.console f)
        | (.ok (), k) => .completed tape mp ip k

/-! ## One step, by the byte under the instruction pointer -/

section Step

variable [Console κ w] {p : Program} {tape : Tape w} {mp : Addr} {ip : Nat} {k : κ}

/-- **The end.** At or past the end of the program the run is over. -/
theorem step_of_size_le (h : p.size ≤ ip) :
    p.step ⟨⟨tape, mp, ip⟩, k⟩ = .ended (.ok ()) ⟨⟨tape, mp, ip⟩, k⟩ := by
  simp [step, Array.getElem?_eq_none h]

/-- **Comments** only take up a position. -/
theorem step_comment {b : UInt8} (hb : p[ip]? = some b) (h : Instruction.ofByte? b = none) :
    p.step ⟨⟨tape, mp, ip⟩, k⟩ = .running ⟨⟨tape, mp, ip + 1⟩, k⟩ := by
  simp [step, hb, h, Progress.completed]

/-- The byte of an instruction that stands in the program. `step` looks the byte up first and only
then asks what it means, so the lemmas below need the two apart. -/
theorem exists_byte_of_instruction? {i : Instruction} (h : p.instruction? ip = some i) :
    ∃ b, p[ip]? = some b ∧ Instruction.ofByte? b = some i :=
  Option.bind_eq_some_iff.mp h

/-- **Counting** changes the current cell in place, and nothing else. -/
theorem step_increment (h : p.instruction? ip = some .increment) :
    p.step ⟨⟨tape, mp, ip⟩, k⟩ = .running ⟨⟨tape.increment mp, mp, ip + 1⟩, k⟩ := by
  obtain ⟨b, hb, hi⟩ := exists_byte_of_instruction? h
  simp [step, hb, hi, Progress.completed]

theorem step_decrement (h : p.instruction? ip = some .decrement) :
    p.step ⟨⟨tape, mp, ip⟩, k⟩ = .running ⟨⟨tape.decrement mp, mp, ip + 1⟩, k⟩ := by
  obtain ⟨b, hb, hi⟩ := exists_byte_of_instruction? h
  simp [step, hb, hi, Progress.completed]

/-- **Moving** changes the memory pointer, and nothing else. Both ends of the tape lead to the
other. -/
theorem step_right (h : p.instruction? ip = some .right) :
    p.step ⟨⟨tape, mp, ip⟩, k⟩ = .running ⟨⟨tape, mp + 1, ip + 1⟩, k⟩ := by
  obtain ⟨b, hb, hi⟩ := exists_byte_of_instruction? h
  simp [step, hb, hi, Progress.completed]

theorem step_left (h : p.instruction? ip = some .left) :
    p.step ⟨⟨tape, mp, ip⟩, k⟩ = .running ⟨⟨tape, mp - 1, ip + 1⟩, k⟩ := by
  obtain ⟨b, hb, hi⟩ := exists_byte_of_instruction? h
  simp [step, hb, hi, Progress.completed]

/-- **Entering a loop.** A loop on a cell that is not zero is entered without looking for its
end. -/
theorem step_beginLoop_of_ne (h : p.instruction? ip = some .beginLoop) (hc : tape.get mp ≠ 0) :
    p.step ⟨⟨tape, mp, ip⟩, k⟩ = .running ⟨⟨tape, mp, ip + 1⟩, k⟩ := by
  obtain ⟨b, hb, hi⟩ := exists_byte_of_instruction? h
  have hz : (tape.get mp).isZero = false := (Cell.isZero_eq_false_iff _).mpr hc
  simp [step, hb, hi, hz, Progress.completed]

/-- **Skipping a loop.** A loop on a zero cell goes on after its end, if it has one. -/
theorem step_beginLoop_of_eq (h : p.instruction? ip = some .beginLoop) (hc : tape.get mp = 0) :
    p.step ⟨⟨tape, mp, ip⟩, k⟩ =
      match p.matchForward ip with
      | .ok partner => .running ⟨⟨tape, mp, partner + 1⟩, k⟩
      | .error e => .ended (.error (.unmatchedBracket e)) ⟨⟨tape, mp, ip⟩, k⟩ := by
  obtain ⟨b, hb, hi⟩ := exists_byte_of_instruction? h
  have hz : (tape.get mp).isZero = true := (Cell.isZero_iff _).mpr hc
  -- the two completions of the branches unfold to the records of the statement
  simp [step, hb, hi, hz, Progress.completed, Progress.failed]

/-- **Leaving a loop.** At the end of a loop on a zero cell the program goes on. -/
theorem step_endLoop_of_eq (h : p.instruction? ip = some .endLoop) (hc : tape.get mp = 0) :
    p.step ⟨⟨tape, mp, ip⟩, k⟩ = .running ⟨⟨tape, mp, ip + 1⟩, k⟩ := by
  obtain ⟨b, hb, hi⟩ := exists_byte_of_instruction? h
  have hz : (tape.get mp).isZero = true := (Cell.isZero_iff _).mpr hc
  simp [step, hb, hi, hz, Progress.completed]

/-- **Repeating a loop.** At the end of a loop on any other cell its body runs again, if it has a
beginning; the beginning itself is not looked at again. -/
theorem step_endLoop_of_ne (h : p.instruction? ip = some .endLoop) (hc : tape.get mp ≠ 0) :
    p.step ⟨⟨tape, mp, ip⟩, k⟩ =
      match p.matchBackward ip with
      | .ok partner => .running ⟨⟨tape, mp, partner + 1⟩, k⟩
      | .error e => .ended (.error (.unmatchedBracket e)) ⟨⟨tape, mp, ip⟩, k⟩ := by
  obtain ⟨b, hb, hi⟩ := exists_byte_of_instruction? h
  have hz : (tape.get mp).isZero = false := (Cell.isZero_eq_false_iff _).mpr hc
  simp [step, hb, hi, hz, Progress.completed, Progress.failed]

/-- **Input** flushes the console and then reads from it; nothing is read if the flush fails. -/
theorem step_input (h : p.instruction? ip = some .input) :
    p.step ⟨⟨tape, mp, ip⟩, k⟩ =
      match Console.flush w k with
      | (.error f, k) => .ended (.error (.console f)) ⟨⟨tape, mp, ip⟩, k⟩
      | (.ok (), k) =>
        match Console.read k with
        | (.error f, k) => .ended (.error (.console f)) ⟨⟨tape, mp, ip⟩, k⟩
        | (.ok c, k) => .running ⟨⟨tape.set mp c, mp, ip + 1⟩, k⟩ := by
  obtain ⟨b, hb, hi⟩ := exists_byte_of_instruction? h
  simp [step, hb, hi, Progress.completed, Progress.failed]

/-- **Output** writes the whole current cell. -/
theorem step_output (h : p.instruction? ip = some .output) :
    p.step ⟨⟨tape, mp, ip⟩, k⟩ =
      match Console.write (tape.get mp) k with
      | (.error f, k) => .ended (.error (.console f)) ⟨⟨tape, mp, ip⟩, k⟩
      | (.ok (), k) => .running ⟨⟨tape, mp, ip + 1⟩, k⟩ := by
  obtain ⟨b, hb, hi⟩ := exists_byte_of_instruction? h
  simp [step, hb, hi, Progress.completed, Progress.failed]

end Step

end Program

end TapeMachine
