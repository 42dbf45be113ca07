import TapeMachine.Program
import TapeMachine.Tape

/-!
# Straight code

Code that only counts and moves: no loop, no input, no output. What it does to a machine is told by
two things, how far it moves and by how much it changes the cell at each distance from where it
began. Distances are taken along the ring, so they are addresses.

Both are integers that are read off the text. Code that comes to the same numbers does the same to
every machine, whatever else it looks like.
-/

namespace TapeMachine.Straight

/-- Whether a byte is a comment or only counts or moves. -/
def isStraight (b : UInt8) : Bool :=
  match Instruction.ofByte? b with
  | some .beginLoop | some .endLoop | some .input | some .output => false
  | _ => true

/-- How many more steps to the right than to the left are taken. -/
def displacement : List UInt8 → Int
  | [] => 0
  | b :: bs =>
    match Instruction.ofByte? b with
    | some .right => 1 + displacement bs
    | some .left => -1 + displacement bs
    | _ => displacement bs

/-- By how much the cell at distance `d` is changed by code that begins at distance `here`. Moving
changes where the rest of the code begins. -/
def change (d here : Addr) : List UInt8 → Int
  | [] => 0
  | b :: bs =>
    match Instruction.ofByte? b with
    | some .increment => (if here = d then 1 else 0) + change d here bs
    | some .decrement => (if here = d then -1 else 0) + change d here bs
    | some .right => change d (here + 1) bs
    | some .left => change d (here - 1) bs
    | _ => change d here bs

end TapeMachine.Straight
