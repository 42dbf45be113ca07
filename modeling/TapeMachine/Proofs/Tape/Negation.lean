import TapeMachine.Input
import TapeMachine.Output
import TapeMachine.Proofs.Engine.Image

/-!
# Counting the other way

Up and down are the two directions of one circle: counting up takes the negative of a cell to where
counting down takes the cell itself (`Cell.neg_counted`), and only zero has zero for its negative.
So a machine that is given the negatives of all cells, on the tape and in its input, does the same
with the program in which `+` and `-` are exchanged, and leaves the negatives of what it would leave
(`ends_negated_iff`).

Negation is an image of the machine that every state fits, because brackets only ask whether a cell
is zero. Nothing is assumed of the width. Output is not negated by the machine but by the image: the
collector holds the negatives of what it would hold.
-/

namespace TapeMachine

variable {w : Nat}

/-- Negatives are counted the other way. -/
theorem Cell.neg_counted (i : Instruction) (c : Cell w) :
    -i.counted c = i.negated.counted (-c) := by
  cases i with
  | increment => exact BitVec.neg_add
  | decrement => exact BitVec.neg_sub
  | _ => rfl

/-! ## Negatives of what a machine holds -/

/-- The tape with the negative of every cell, modulo `2 ^ w`. -/
def Tape.negated (t : Tape w) : Tape w := t.map (-·)

/-- The queue with the negative of every cell. -/
def Queue.negated (q : Queue w) : Queue w := ⟨q.cells.map (-·)⟩

/-- The collector with the negative of every cell. -/
def Collector.negated (o : Collector w) : Collector w := ⟨o.cells.map (-·)⟩

/-- The state with the negative of every cell, wherever it is. -/
def Config.negated (s : Config (Queue w × Collector w) w) : Config (Queue w × Collector w) w :=
  ⟨{ s.engine with tape := s.engine.tape.negated }, s.console.1.negated, s.console.2.negated⟩

/-- The machine is seen with the negatives of all cells. -/
def Image.negation (w : Nat) : Image (Queue w × Collector w) (Queue w × Collector w) w w where
  tape := Tape.negated
  address := id
  cell := (-·)
  console := fun k => (k.1.negated, k.2.negated)
  instruction := Instruction.negated

namespace Image

/-- Negatives are counted the other way, moved about as before, and read and written as negatives.
-/
theorem lawful_negation : (negation w).Lawful where
  isStraight := by
    intro i
    cases i <;> rfl
  other := by
    intro i hi
    cases i with
    | increment => exact absurd rfl hi
    | decrement => exact absurd rfl hi
    | _ => rfl
  counted := Cell.neg_counted
  moved := by
    intro i a
    cases i <;> rfl
  flush := fun _ => rfl
  read := by
    rintro ⟨⟨_ | ⟨c, cells⟩⟩, o⟩
    · rfl
    · rfl
  write := by
    rintro c ⟨q, o⟩
    have hpush : o.negated.cells.push (-c) = (o.cells.push c).map (-·) := Array.map_push.symm
    exact congrArg (fun cells => (_, _, Collector.mk cells)) hpush

/-- The negatives are seen in every state, and zero is its own. -/
theorem fits_negation (p : Program) (s : Config (Queue w × Collector w) w) :
    (negation w).Fits p s where
  get := Tape.get_map _ _ _
  set := Tape.map_set _ _ _
  zero := fun _ => BitVec.neg_eq_zero_iff

end Image

/-- **Counting the other way.** Take the negative of every cell of the tape, of the queue that the
input comes from and of what has been collected, and exchange counting up and counting down in the
program. It then ends exactly if it ended before, with the same outcome and at the same pointers,
and what it leaves on the tape, in the queue and in the collector are the negatives of what it left
then. -/
theorem Program.ends_negated_iff (p : Program) (s u' : Config (Queue w × Collector w) w)
    (outcome : Outcome) :
    p.negated.Ends s.negated outcome u' ↔ ∃ u, p.Ends s outcome u ∧ u.negated = u' := by
  have hends : p.negated.Ends ((Image.negation w).config s) outcome u' ↔
      ∃ u, p.Ends s outcome u ∧ (Image.negation w).config u = u' :=
    Image.ends_config_iff Image.lawful_negation (Image.depicts_map _ p)
      fun t _ => Image.fits_negation p t
  exact hends

end TapeMachine
