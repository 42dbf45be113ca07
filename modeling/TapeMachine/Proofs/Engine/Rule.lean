import TapeMachine.Engine.Run
import TapeMachine.Proofs.Bracket.Numbering

/-!
# The rules of the machine

What a byte of a program does, as a list of rules: one for each way in which an instruction can be
completed (`Program.Completes`) and one for each way in which it can fail (`Program.Fails`). The
rules know nothing of scans. Where a jump leads is told by the partner that the stack gives to a
bracket, and an instruction that fails leaves the engine alone.

`Program.step` follows these rules and no others: every rule is a step (`Completes.step`,
`Fails.step`), and inside the program there is always a rule that applies (`completes_or_fails`).
So the two can be exchanged: `step_eq_running_iff`, `step_eq_error_iff`, `step_eq_ok_iff`. Whatever
holds of every instruction is shown by cases on the rule, with the facts that the rule is about as
hypotheses, and never by splitting `step` again.

The four instructions that count or move follow one common rule (`Completes.straight`).
-/

namespace TapeMachine

namespace Instruction

/-- Whether the instruction only counts or moves. -/
def isStraight : Instruction → Bool
  | increment | decrement | right | left => true
  | beginLoop | endLoop | input | output => false

theorem isBracket_of_isStraight {i : Instruction} (h : i.isStraight) : i.isBracket = false := by
  cases i with
  | beginLoop => cases h
  | endLoop => cases h
  | _ => rfl

/-- What counting makes of the current cell. Instructions that do not count leave it as it is, so
that one formula covers the four that count or move. -/
def counted {w : Nat} : Instruction → Cell w → Cell w
  | increment, c => c + 1
  | decrement, c => c - 1
  | right, c | left, c | beginLoop, c | endLoop, c | input, c | output, c => c

/-- Where moving leads from an address. Instructions that do not move stay there. -/
def moved : Instruction → Addr → Addr
  | right, a => a + 1
  | left, a => a - 1
  | increment, a | decrement, a | beginLoop, a | endLoop, a | input, a | output, a => a

end Instruction

namespace Program

variable {κ : Type} {w : Nat} [Console κ w]

/-- An instruction, or a comment, is completed. A constructor names what has been looked up: the
instruction, the test of the cell, the partner, the answers of the console. -/
inductive Completes (p : Program) : Config κ w → Config κ w → Prop where
  /-- comments only take up a position -/
  | comment {tape : Tape w} {mp : Addr} {ip : Nat} {k : κ} {b : UInt8} (byte : p[ip]? = some b)
      (none : Instruction.ofByte? b = none) :
      Completes p ⟨⟨tape, mp, ip⟩, k⟩ ⟨⟨tape, mp, ip + 1⟩, k⟩
  | increment {tape : Tape w} {mp : Addr} {ip : Nat} {k : κ}
      (instr : p.instruction? ip = some .increment) :
      Completes p ⟨⟨tape, mp, ip⟩, k⟩ ⟨⟨tape.set mp (tape.get mp + 1), mp, ip + 1⟩, k⟩
  | decrement {tape : Tape w} {mp : Addr} {ip : Nat} {k : κ}
      (instr : p.instruction? ip = some .decrement) :
      Completes p ⟨⟨tape, mp, ip⟩, k⟩ ⟨⟨tape.set mp (tape.get mp - 1), mp, ip + 1⟩, k⟩
  | right {tape : Tape w} {mp : Addr} {ip : Nat} {k : κ} (instr : p.instruction? ip = some .right) :
      Completes p ⟨⟨tape, mp, ip⟩, k⟩ ⟨⟨tape, mp + 1, ip + 1⟩, k⟩
  | left {tape : Tape w} {mp : Addr} {ip : Nat} {k : κ} (instr : p.instruction? ip = some .left) :
      Completes p ⟨⟨tape, mp, ip⟩, k⟩ ⟨⟨tape, mp - 1, ip + 1⟩, k⟩
  /-- a loop is entered on a cell that is not zero -/
  | enter {tape : Tape w} {mp : Addr} {ip : Nat} {k : κ}
      (instr : p.instruction? ip = some .beginLoop) (nonzero : tape.get mp ≠ 0) :
      Completes p ⟨⟨tape, mp, ip⟩, k⟩ ⟨⟨tape, mp, ip + 1⟩, k⟩
  /-- and skipped on a zero cell -/
  | skip {tape : Tape w} {mp : Addr} {ip stop : Nat} {k : κ}
      (instr : p.instruction? ip = some .beginLoop) (zero : tape.get mp = 0)
      (partner : p.partner? ip = some stop) :
      Completes p ⟨⟨tape, mp, ip⟩, k⟩ ⟨⟨tape, mp, stop + 1⟩, k⟩
  /-- a loop is left on a zero cell -/
  | leave {tape : Tape w} {mp : Addr} {ip : Nat} {k : κ}
      (instr : p.instruction? ip = some .endLoop) (zero : tape.get mp = 0) :
      Completes p ⟨⟨tape, mp, ip⟩, k⟩ ⟨⟨tape, mp, ip + 1⟩, k⟩
  /-- and run again on a cell that is not zero -/
  | again {tape : Tape w} {mp : Addr} {ip start : Nat} {k : κ}
      (instr : p.instruction? ip = some .endLoop) (nonzero : tape.get mp ≠ 0)
      (partner : p.partner? ip = some start) :
      Completes p ⟨⟨tape, mp, ip⟩, k⟩ ⟨⟨tape, mp, start + 1⟩, k⟩
  /-- input flushes, then reads, and keeps what was read -/
  | input {tape : Tape w} {mp : Addr} {ip : Nat} {k k' k'' : κ} {c : Cell w}
      (instr : p.instruction? ip = some .input) (flush : Console.flush w k = (.ok (), k'))
      (read : Console.read k' = (.ok c, k'')) :
      Completes p ⟨⟨tape, mp, ip⟩, k⟩ ⟨⟨tape.set mp c, mp, ip + 1⟩, k''⟩
  /-- output writes the current cell -/
  | output {tape : Tape w} {mp : Addr} {ip : Nat} {k k' : κ}
      (instr : p.instruction? ip = some .output)
      (write : Console.write (tape.get mp) k = (.ok (), k')) :
      Completes p ⟨⟨tape, mp, ip⟩, k⟩ ⟨⟨tape, mp, ip + 1⟩, k'⟩

/-- An instruction fails; the console is left in the last state. -/
inductive Fails (p : Program) : Config κ w → Failure → κ → Prop where
  /-- a loop that should be skipped has no end -/
  | unclosed {tape : Tape w} {mp : Addr} {ip : Nat} {k : κ}
      (instr : p.instruction? ip = some .beginLoop) (zero : tape.get mp = 0)
      (partner : p.partner? ip = none) :
      Fails p ⟨⟨tape, mp, ip⟩, k⟩ (.unmatchedBracket ⟨ip, .forward⟩) k
  /-- a loop that should be run again has no beginning -/
  | unopened {tape : Tape w} {mp : Addr} {ip : Nat} {k : κ}
      (instr : p.instruction? ip = some .endLoop) (nonzero : tape.get mp ≠ 0)
      (partner : p.partner? ip = none) :
      Fails p ⟨⟨tape, mp, ip⟩, k⟩ (.unmatchedBracket ⟨ip, .backward⟩) k
  /-- input cannot flush; nothing has been read then -/
  | flush {tape : Tape w} {mp : Addr} {ip : Nat} {k k' : κ} {f : Fault}
      (instr : p.instruction? ip = some .input) (flush : Console.flush w k = (.error f, k')) :
      Fails p ⟨⟨tape, mp, ip⟩, k⟩ (.console f) k'
  /-- input has flushed, but cannot read -/
  | read {tape : Tape w} {mp : Addr} {ip : Nat} {k k' k'' : κ} {f : Fault}
      (instr : p.instruction? ip = some .input) (flush : Console.flush w k = (.ok (), k'))
      (read : Console.read (w := w) k' = (.error f, k'')) :
      Fails p ⟨⟨tape, mp, ip⟩, k⟩ (.console f) k''
  /-- output cannot write -/
  | write {tape : Tape w} {mp : Addr} {ip : Nat} {k k' : κ} {f : Fault}
      (instr : p.instruction? ip = some .output)
      (write : Console.write (tape.get mp) k = (.error f, k')) :
      Fails p ⟨⟨tape, mp, ip⟩, k⟩ (.console f) k'

variable {p : Program} {s t : Config κ w} {failure : Failure} {outcome : Outcome} {k : κ}

/-! ## Rules are steps

Each rule names all that `step` looks up, so the lemmas about single bytes apply as they stand. Only
for jumps the scan has to be exchanged for the partner. -/

/-- A completed instruction is a step. For a jump, the scan finds the partner that the stack gives.
-/
theorem Completes.step (h : p.Completes s t) : p.step s = .running t := by
  cases h with
  | comment byte none => exact step_comment byte none
  | increment instr => rw [step_increment instr, Tape.increment, Cell.succ_eq_add_one]
  | decrement instr => rw [step_decrement instr, Tape.decrement, Cell.pred_eq_sub_one]
  | right instr => exact step_right instr
  | left instr => exact step_left instr
  | enter instr nonzero => exact step_beginLoop_of_ne instr nonzero
  | skip instr zero partner =>
    rw [step_beginLoop_of_eq instr zero, matchForward_eq_partner? instr, partner]
  | leave instr zero => exact step_endLoop_of_eq instr zero
  | again instr nonzero partner =>
    rw [step_endLoop_of_ne instr nonzero, matchBackward_eq_partner? instr, partner]
  | input instr flush read => simp only [step_input instr, flush, read]
  | output instr write => simp only [step_output instr, write]

/-- **Counting and moving** are completed in any state, and in one way for all four instructions. -/
theorem Completes.straight {i : Instruction} {tape : Tape w} {mp : Addr} {ip : Nat}
    (instr : p.instruction? ip = some i) (hi : i.isStraight) :
    p.Completes ⟨⟨tape, mp, ip⟩, k⟩
      ⟨⟨tape.set mp (i.counted (tape.get mp)), i.moved mp, ip + 1⟩, k⟩ := by
  cases i with
  | increment => exact .increment instr
  | decrement => exact .decrement instr
  | right =>
    rw [Instruction.counted, Tape.set_get_self]
    exact .right instr
  | left =>
    rw [Instruction.counted, Tape.set_get_self]
    exact .left instr
  | beginLoop => cases hi
  | endLoop => cases hi
  | input => cases hi
  | output => cases hi

/-- A failed instruction is a step that ends the run and leaves the engine alone. -/
theorem Fails.step (h : p.Fails s failure k) :
    p.step s = .ended (.error failure) ⟨s.engine, k⟩ := by
  cases h with
  | unclosed instr zero partner =>
    rw [step_beginLoop_of_eq instr zero, matchForward_eq_partner? instr, partner]
  | unopened instr nonzero partner =>
    rw [step_endLoop_of_ne instr nonzero, matchBackward_eq_partner? instr, partner]
  | flush instr flush => simp only [step_input instr, flush]
  | read instr flush read => simp only [step_input instr, flush, read]
  | write instr write => simp only [step_output instr, write]

theorem Completes.run_succ (h : p.Completes s t) (n : Nat) : p.run (n + 1) s = p.run n t := by
  rw [Program.run_succ, h.step]

/-- A completed instruction can be left out of a run without changing how it ends. -/
theorem Completes.ends_iff (h : p.Completes s t) {u : Config κ w} :
    p.Ends s outcome u ↔ p.Ends t outcome u :=
  ends_iff_of_run (h.run_succ 0)

/-- The console only fails instructions that ask it for something. -/
theorem Fails.instruction?_of_console {f : Fault} (h : p.Fails s (.console f) k) :
    p.instruction? s.engine.instructionPointer = some .input ∨
      p.instruction? s.engine.instructionPointer = some .output := by
  cases h with
  | flush instr => exact Or.inl instr
  | read instr => exact Or.inl instr
  | write instr => exact Or.inr instr

theorem Fails.ends (h : p.Fails s failure k) : p.Ends s (.error failure) ⟨s.engine, k⟩ :=
  ends_of_step h.step

/-! ## Steps are rules

A step is a function, and so has one result. The rules cover all that can stand at a position inside
the program, and each has the result of the step. So the result of a step tells the rule. -/

/-- **Progress.** Inside the program there is always a rule that applies: whatever the byte, the
cell, the partner and the answers of the console are. -/
theorem completes_or_fails (h : s.engine.instructionPointer < p.size) :
    (∃ t, p.Completes s t) ∨ ∃ failure k, p.Fails s failure k := by
  obtain ⟨⟨tape, mp, ip⟩, k⟩ := s
  have hb : p[ip]? = some p[ip] := Array.getElem?_eq_getElem h
  cases hi : Instruction.ofByte? p[ip] with
  | none => exact Or.inl ⟨_, .comment hb hi⟩
  | some i =>
    have instr : p.instruction? ip = some i := by rw [instruction?, hb, Option.bind_some, hi]
    cases i with
    | increment => exact Or.inl ⟨_, .increment instr⟩
    | decrement => exact Or.inl ⟨_, .decrement instr⟩
    | right => exact Or.inl ⟨_, .right instr⟩
    | left => exact Or.inl ⟨_, .left instr⟩
    | beginLoop =>
      by_cases hc : tape.get mp = 0
      · cases hp : p.partner? ip with
        | some stop => exact Or.inl ⟨_, .skip instr hc hp⟩
        | none => exact Or.inr ⟨_, _, .unclosed instr hc hp⟩
      · exact Or.inl ⟨_, .enter instr hc⟩
    | endLoop =>
      by_cases hc : tape.get mp = 0
      · exact Or.inl ⟨_, .leave instr hc⟩
      · cases hp : p.partner? ip with
        | some start => exact Or.inl ⟨_, .again instr hc hp⟩
        | none => exact Or.inr ⟨_, _, .unopened instr hc hp⟩
    | input =>
      rcases hf : Console.flush w k with ⟨_ | _, k'⟩
      · exact Or.inr ⟨_, _, .flush instr hf⟩
      · rcases hr : Console.read (w := w) k' with ⟨_ | _, k''⟩
        · exact Or.inr ⟨_, _, .read instr hf hr⟩
        · exact Or.inl ⟨_, .input instr hf hr⟩
    | output =>
      rcases hw : Console.write (tape.get mp) k with ⟨_ | _, k'⟩
      · exact Or.inr ⟨_, _, .write instr hw⟩
      · exact Or.inl ⟨_, .output instr hw⟩

theorem step_of_size_le_instructionPointer (h : p.size ≤ s.engine.instructionPointer) :
    p.step s = .ended (.ok ()) s :=
  step_of_size_le h

theorem ends_of_size_le (h : p.size ≤ s.engine.instructionPointer) : p.Ends s (.ok ()) s :=
  ends_of_step (step_of_size_le_instructionPointer h)

/-- **The step, by its rules.** A step completes an instruction, fails at one, or finds the end.
Later proofs take a step apart with this and nothing else. -/
theorem step_cases (p : Program) (s : Config κ w) :
    (∃ t, p.Completes s t ∧ p.step s = .running t) ∨
    (∃ failure k, p.Fails s failure k ∧ p.step s = .ended (.error failure) ⟨s.engine, k⟩) ∨
    (p.size ≤ s.engine.instructionPointer ∧ p.step s = .ended (.ok ()) s) := by
  -- inside the program a rule applies, and outside it there is nothing to do
  rcases Nat.lt_or_ge s.engine.instructionPointer p.size with hlt | hge
  · obtain ⟨t, ht⟩ | ⟨failure, k, hf⟩ := completes_or_fails hlt
    · exact Or.inl ⟨t, ht, ht.step⟩
    · exact Or.inr (Or.inl ⟨failure, k, hf, hf.step⟩)
  · exact Or.inr (Or.inr ⟨hge, step_of_size_le_instructionPointer hge⟩)

/-- The run goes on exactly by completed instructions. -/
theorem step_eq_running_iff : p.step s = .running t ↔ p.Completes s t := by
  refine ⟨?_, Completes.step⟩
  intro h
  obtain ⟨t', ht, heq⟩ | ⟨failure, k, -, heq⟩ | ⟨-, heq⟩ := step_cases p s
  · cases heq.symm.trans h
    exact ht
  · cases heq.symm.trans h
  · cases heq.symm.trans h

/-- The run fails exactly at failed instructions, and the engine is then as it was before. -/
theorem step_eq_error_iff :
    p.step s = .ended (.error failure) t ↔
      p.Fails s failure t.console ∧ t.engine = s.engine := by
  refine ⟨?_, ?_⟩
  · intro h
    obtain ⟨t', -, heq⟩ | ⟨failure', k, hf, heq⟩ | ⟨-, heq⟩ := step_cases p s
    · cases heq.symm.trans h
    · cases heq.symm.trans h
      exact ⟨hf, rfl⟩
    · cases heq.symm.trans h
  · rintro ⟨hf, he⟩
    rw [hf.step, ← he]

/-- The run ends well exactly behind the program, where the step changes nothing at all. -/
theorem step_eq_ok_iff :
    p.step s = .ended (.ok ()) t ↔ p.size ≤ s.engine.instructionPointer ∧ t = s := by
  refine ⟨?_, ?_⟩
  · intro h
    obtain ⟨t', -, heq⟩ | ⟨failure, k, -, heq⟩ | ⟨hge, heq⟩ := step_cases p s
    · cases heq.symm.trans h
    · cases heq.symm.trans h
    · cases heq.symm.trans h
      exact ⟨hge, rfl⟩
  · rintro ⟨hge, rfl⟩
    exact step_of_size_le_instructionPointer hge

/-- The step that ends a run leaves the engine alone, whether it has failed or found the end. -/
theorem engine_of_step_eq_ended (h : p.step s = .ended outcome t) : t.engine = s.engine := by
  cases outcome with
  | ok _ => rw [(step_eq_ok_iff.mp h).2]
  | error failure => exact (step_eq_error_iff.mp h).2

end Program

end TapeMachine
