/-!
# Programs

A program is a sequence of bytes. Eight of the 256 bytes are instructions; every other byte is a
comment and does nothing but take up a position. Positions are counted in bytes, comments included,
and `Program.instructions` lists the instructions with theirs.

There is no syntax to be checked. Any sequence of bytes is a program, and it is only when it runs
that a bracket without a partner can turn out to be a mistake.
-/

namespace TapeMachine

/-- What a byte of a program can ask for. -/
inductive Instruction where
  /-- add one to the current cell -/
  | increment
  /-- subtract one from the current cell -/
  | decrement
  /-- move one cell right -/
  | right
  /-- move one cell left -/
  | left
  /-- enter a loop, or skip it if the current cell is zero -/
  | beginLoop
  /-- go back to the start of a loop unless the current cell is zero -/
  | endLoop
  /-- read a value into the current cell -/
  | input
  /-- write the value of the current cell -/
  | output
deriving DecidableEq

namespace Instruction

/-- The byte that stands for an instruction. -/
def toByte : Instruction → UInt8
  | increment => '+'.toUInt8
  | decrement => '-'.toUInt8
  | right => '>'.toUInt8
  | left => '<'.toUInt8
  | beginLoop => '['.toUInt8
  | endLoop => ']'.toUInt8
  | input => ','.toUInt8
  | output => '.'.toUInt8

/-- The instruction that a byte stands for, if it is not a comment. -/
def ofByte? (b : UInt8) : Option Instruction :=
  if b = '+'.toUInt8 then some increment
  else if b = '-'.toUInt8 then some decrement
  else if b = '>'.toUInt8 then some right
  else if b = '<'.toUInt8 then some left
  else if b = '['.toUInt8 then some beginLoop
  else if b = ']'.toUInt8 then some endLoop
  else if b = ','.toUInt8 then some input
  else if b = '.'.toUInt8 then some output
  else none

@[simp] theorem ofByte?_toByte (i : Instruction) : ofByte? i.toByte = some i := by
  cases i <;> decide

/-- A byte stands for an instruction exactly when it is that instruction's byte. So different
instructions have different bytes, and to know the instruction at a position is to know the byte. -/
theorem ofByte?_eq_some_iff {b : UInt8} {i : Instruction} : ofByte? b = some i ↔ b = i.toByte := by
  constructor
  · intro h
    unfold ofByte? at h
    repeat' split at h
    all_goals cases h
    all_goals assumption
  · rintro rfl
    exact ofByte?_toByte i

end Instruction

/-- A sequence of bytes, some of them instructions and the others comments. -/
abbrev Program := Array UInt8

namespace Program

/-- The instruction at a position. There is none at a comment, and none outside of the program;
nothing that is said of instructions tells these two apart. -/
@[inline] def instruction? (p : Program) (pos : Nat) : Option Instruction :=
  p[pos]?.bind Instruction.ofByte?

theorem lt_size_of_instruction? {p : Program} {pos : Nat} {i : Instruction}
    (h : p.instruction? pos = some i) : pos < p.size := by
  obtain ⟨b, hb, -⟩ := Option.bind_eq_some_iff.mp h
  exact (Array.getElem?_eq_some_iff.mp hb).1

/-- The instructions of the program in order, each with its position. -/
def instructions (p : Program) : List (Nat × Instruction) :=
  (List.range p.size).filterMap fun pos => (p.instruction? pos).map (pos, ·)

end Program

end TapeMachine
