import TapeMachine.Engine.Basic

/-!
# Programs as trees

A balanced program read as what its writer means: simple instructions one after another, and loops
that hold such sequences themselves. A tree has a meaning of its own, without an instruction pointer
and without looking for partners:

* `Block.ofProgram?` — the tree of a program, which a program has unless its brackets do not match;
* `Block.Derives` — what running a tree does. A loop does nothing on a zero cell, and otherwise runs
  its body and is run again; a failure of the console ends everything. A tree that runs for ever
  derives nothing.

The reader goes from the end of the program to its beginning. When it comes to a `[`, it has already
read the body and what stands behind the loop, so it never has to look for a partner either. What
matches what is decided by the nesting alone.

The positions of simple instructions are kept in the tree. They play no part in what it does, only
in telling where it has failed.
-/

namespace TapeMachine

/-- A sequence of simple instructions and loops. -/
inductive Block where
  /-- nothing more -/
  | done
  /-- an instruction that is no bracket, with its position in the program, and what follows -/
  | simple (position : Nat) (instruction : Instruction) (rest : Block)
  /-- a loop and what follows it -/
  | loop (body rest : Block)
deriving DecidableEq

namespace Block

/-! ## Reading a program -/

/-- Puts a byte in front of the sequences that follow it, those inside open loops first. A `]`
begins the body of a loop, which is empty so far; a `[` ends it, and then the second sequence is
what follows the loop. If there is no second one, the loop has not been closed. -/
def addByte (pos : Nat) (b : UInt8) (blocks : List Block) : Option (List Block) :=
  match Instruction.ofByte? b, blocks with
  | none, _ => some blocks
  | some .endLoop, _ => some (.done :: blocks)
  | some .beginLoop, body :: rest :: outer => some (.loop body rest :: outer)
  | some .beginLoop, _ => none
  | some i, block :: outer => some (.simple pos i block :: outer)
  | some _, [] => none

/-- The sequences of the bytes from a position on: those inside loops that are only closed there,
and at last the one that is inside no loop. -/
def ofBytes (pos : Nat) : List UInt8 → Option (List Block)
  | [] => some [.done]
  | b :: bytes => (ofBytes (pos + 1) bytes).bind (addByte pos b)

/-- The tree of a program, unless its brackets do not match. There must be one sequence left in the
end: any more would be inside loops that nothing opens. -/
def ofProgram? (p : Program) : Option Block :=
  match ofBytes 0 p.toList with
  | some [block] => some block
  | _ => none

section AddByte

variable {pos : Nat} {b : UInt8} {i : Instruction} {block body rest : Block} {blocks : List Block}

theorem addByte_comment (h : Instruction.ofByte? b = none) :
    addByte pos b blocks = some blocks := by
  simp [addByte, h]

theorem addByte_endLoop (h : Instruction.ofByte? b = some .endLoop) :
    addByte pos b blocks = some (.done :: blocks) := by
  simp [addByte, h]

theorem addByte_beginLoop (h : Instruction.ofByte? b = some .beginLoop) :
    addByte pos b (body :: rest :: blocks) = some (.loop body rest :: blocks) := by
  simp [addByte, h]

theorem addByte_beginLoop_singleton (h : Instruction.ofByte? b = some .beginLoop) :
    addByte pos b [block] = none := by
  simp [addByte, h]

theorem addByte_simple (h : Instruction.ofByte? b = some i) (hb : i ≠ .beginLoop)
    (he : i ≠ .endLoop) :
    addByte pos b (block :: blocks) = some (.simple pos i block :: blocks) := by
  cases i <;> simp_all [addByte]

end AddByte

/-! ## Running a tree -/

/-- What simple instructions work on: an engine without its instruction pointer, and a console. -/
structure Scene (κ : Type) (w : Nat) where
  /-- the tape -/
  tape : Tape w
  /-- the address of the current cell -/
  memoryPointer : Addr
  /-- the console -/
  console : κ

/-- How running a tree ends. -/
inductive Result where
  /-- everything has been run -/
  | completed
  /-- the console did not answer the instruction at a position -/
  | failed (position : Nat) (fault : Fault)
deriving DecidableEq

variable {κ : Type} {w : Nat}

namespace Scene

/-- The cell under the memory pointer. -/
def currentCell (s : Scene κ w) : Cell w := s.tape.get s.memoryPointer

/-- What an instruction that is no bracket does. Brackets are not in trees, so what is said of them
here is never used. -/
def perform [Console κ w] (s : Scene κ w) : Instruction → Except Fault Unit × Scene κ w
  | .increment => (.ok (), { s with tape := s.tape.set s.memoryPointer (s.currentCell + 1) })
  | .decrement => (.ok (), { s with tape := s.tape.set s.memoryPointer (s.currentCell - 1) })
  | .right => (.ok (), { s with memoryPointer := s.memoryPointer + 1 })
  | .left => (.ok (), { s with memoryPointer := s.memoryPointer - 1 })
  | .input =>
    match Console.flush w s.console with
    | (.error f, k) => (.error f, { s with console := k })
    | (.ok (), k) =>
      match Console.read k with
      | (.error f, k) => (.error f, { s with console := k })
      | (.ok c, k) => (.ok (), { s with tape := s.tape.set s.memoryPointer c, console := k })
  | .output =>
    let (answer, k) := Console.write s.currentCell s.console
    (answer, { s with console := k })
  | .beginLoop | .endLoop => (.ok (), s)

end Scene

/-- Running a tree from one scene ends in another with the given result. -/
inductive Derives [Console κ w] : Block → Scene κ w → Result → Scene κ w → Prop where
  | done {s : Scene κ w} : Derives .done s .completed s
  | simple {pos : Nat} {i : Instruction} {rest : Block} {s t u : Scene κ w} {r : Result}
      (performed : s.perform i = (.ok (), t)) (after : Derives rest t r u) :
      Derives (.simple pos i rest) s r u
  | simpleFailed {pos : Nat} {i : Instruction} {rest : Block} {s t : Scene κ w} {f : Fault}
      (performed : s.perform i = (.error f, t)) :
      Derives (.simple pos i rest) s (.failed pos f) t
  | loopSkipped {body rest : Block} {s u : Scene κ w} {r : Result}
      (zero : s.currentCell = 0) (after : Derives rest s r u) :
      Derives (.loop body rest) s r u
  | loopRepeated {body rest : Block} {s t u : Scene κ w} {r : Result}
      (nonzero : s.currentCell ≠ 0) (once : Derives body s .completed t)
      (again : Derives (.loop body rest) t r u) :
      Derives (.loop body rest) s r u
  | loopFailed {body rest : Block} {s t : Scene κ w} {pos : Nat} {f : Fault}
      (nonzero : s.currentCell ≠ 0) (once : Derives body s (.failed pos f) t) :
      Derives (.loop body rest) s (.failed pos f) t

end Block

end TapeMachine
