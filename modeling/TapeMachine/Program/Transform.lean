import TapeMachine.Program

/-!
# Programs made from programs

* `Program.stripped` — the instructions without the comments, and `Program.rank`, the place where a
  position of the program is found among them;
* `Program.negated` — counting up and counting down exchanged;
* `Program.reflected` — left and right exchanged.

Exchanging twice changes nothing, and the instructions stay where they are. Leaving comments out
moves them, but keeps their order; the rank says where to.
-/

namespace TapeMachine

namespace Instruction

/-- Counting up and counting down exchanged. -/
def negated : Instruction → Instruction
  | increment => decrement
  | decrement => increment
  | i => i

/-- Left and right exchanged. -/
def reflected : Instruction → Instruction
  | left => right
  | right => left
  | i => i

@[simp] theorem negated_negated (i : Instruction) : i.negated.negated = i := by cases i <;> rfl

@[simp] theorem reflected_reflected (i : Instruction) : i.reflected.reflected = i := by
  cases i <;> rfl

/-- The byte of another instruction in the place of an instruction; comments stay. -/
def mapByte (f : Instruction → Instruction) (b : UInt8) : UInt8 :=
  match ofByte? b with
  | some i => (f i).toByte
  | none => b

@[simp] theorem ofByte?_mapByte (f : Instruction → Instruction) (b : UInt8) :
    ofByte? (mapByte f b) = (ofByte? b).map f := by
  cases h : ofByte? b <;> simp [mapByte, h]

end Instruction

namespace Program

/-- The instructions of the program without the comments. -/
def stripped (p : Program) : Program := (p.instructions.map fun (_, i) => i.toByte).toArray

/-- How many instructions stand before a position. For an instruction this is its place among all of
them, and for a comment that of the next one. -/
def rank (p : Program) (pos : Nat) : Nat := (p.instructions.filter fun (q, _) => q < pos).length

/-- The program with counting up and counting down exchanged. -/
def negated (p : Program) : Program := p.map (Instruction.mapByte Instruction.negated)

/-- The program with left and right exchanged. -/
def reflected (p : Program) : Program := p.map (Instruction.mapByte Instruction.reflected)

/-- Instructions that are exchanged stay where they are. -/
theorem instruction?_map_mapByte (f : Instruction → Instruction) (p : Program) (pos : Nat) :
    instruction? (p.map (Instruction.mapByte f)) pos = (p.instruction? pos).map f := by
  cases h : p[pos]? <;> simp [instruction?, h]

end Program

end TapeMachine
