import TapeMachine.Input

/-!
# The input of a program

A program started from the command line reads its input by bytes or by lines, as the options say.
`Reader` is either of the two readers, with one source of cells for both.
-/

namespace TapeMachine.CommandLine

/-- The input of a running program, read by bytes or by lines. -/
inductive Reader where
  | bytes (reader : ByteReader)
  | lines (reader : LineReader)

/-- Reads a stream in the way that the options ask for. -/
def Reader.ofStream (lineInput : Bool) (s : Stream) : Reader :=
  if lineInput then .lines (.ofStream s) else .bytes ⟨s⟩

instance {w : Nat} : Source Reader w where
  read
    | .bytes r => let (answer, r) := r.read; (answer, .bytes r)
    | .lines r => let (answer, r) := r.read; (answer, .lines r)

end TapeMachine.CommandLine
