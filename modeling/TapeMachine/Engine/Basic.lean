import TapeMachine.Bracket
import TapeMachine.Console
import TapeMachine.Tape

/-!
# The engine

An engine is a tape with two pointers: one to the current cell and one into the program. While it
runs it is paired with a console (`Config`), and a run either can go on or is over (`Progress`). It
can fail in two ways: at a bracket without a partner, or because the console does not answer.

The program is not part of the engine. An engine that a run has left can go on with the same program
or be given another (`Engine.rewind`), so everything said about runs is said from any engine, also
one whose instruction pointer is behind the end of the program. The console stands beside the engine
and not inside it, because an instruction that fails leaves the engine as it was but not the
console: what has been flushed or read stays so.
-/

namespace TapeMachine

/-- A tape with its two pointers. -/
structure Engine (w : Nat) where
  /-- the tape -/
  tape : Tape w
  /-- the address of the current cell -/
  memoryPointer : Addr
  /-- the position of the next byte of the program -/
  instructionPointer : Nat
deriving DecidableEq

namespace Engine

variable {w : Nat}

/-- An engine with a blank tape and both pointers at zero. -/
def initial : Engine w := ⟨Tape.blank, 0, 0⟩

/-- The cell under the memory pointer. Every address is on the tape, so there is always one. -/
def currentCell (e : Engine w) : Cell w := e.tape.get e.memoryPointer

/-- The engine ready to run another program from its start on the same tape. The memory pointer
stays where the last program has left it. -/
def rewind (e : Engine w) : Engine w := { e with instructionPointer := 0 }

end Engine

/-- Why a run can fail. -/
inductive Failure where
  /-- a jump was due, but the bracket has no partner -/
  | unmatchedBracket (bracket : UnmatchedBracket)
  /-- the console did not answer a request -/
  | console (fault : Fault)
deriving DecidableEq

/-- The report on a failed run. -/
def Failure.message : Failure → String
  | unmatchedBracket bracket => bracket.message
  | console fault => "Callback failure: " ++ fault.message

/-- How a run ends. -/
abbrev Outcome := Except Failure Unit

/-- An engine and the console it talks to. -/
structure Config (κ : Type) (w : Nat) where
  /-- the engine -/
  engine : Engine w
  /-- the console -/
  console : κ

/-- How far a run has come. -/
inductive Progress (σ : Type) where
  /-- the run can go on from here -/
  | running (state : σ)
  /-- the run is over -/
  | ended (outcome : Outcome) (state : σ)

variable {κ : Type} {w : Nat}

/-- The engine after an instruction, which has put it at a position of the program. The pointer goes
one further, also after a jump: `position` is then the partner, and the run goes on behind it. -/
@[inline] def Progress.completed (tape : Tape w) (memoryPointer : Addr) (position : Nat)
    (console : κ) : Progress (Config κ w) :=
  .running ⟨⟨tape, memoryPointer, position + 1⟩, console⟩

/-- The run after an instruction that could not be completed. The pointer stays at the instruction,
which can be tried again. -/
@[inline] def Progress.failed (tape : Tape w) (memoryPointer : Addr) (position : Nat) (console : κ)
    (failure : Failure) : Progress (Config κ w) :=
  .ended (.error failure) ⟨⟨tape, memoryPointer, position⟩, console⟩

end TapeMachine
