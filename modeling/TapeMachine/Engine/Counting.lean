import Mathlib.Algebra.Group.Nat.Defs
import TapeMachine.Engine.Step

/-!
# Counting in machine words

The positions and depths of an engine are numbers of any size. A machine has only so many: it counts
in words, and what comes after the largest of them is for the machine to say (`Counting`). Here are
the scans, the step and the run once more, with every number counted in a given way.

* `Counting.wrapping` — words of 64 bits, where zero comes after the largest one;
* `Counting.checked` — the same words, where nothing does: counting on stops the machine;
* `Counting.partner`, `Counting.step`, `Counting.run` — what a machine does with either.

The machine is stopped also by an index outside of the tape, and by a scan that goes on for ever. In
all these cases there is no answer, not even a failure.

The type of the numbers is a parameter, so the two kinds of words share every definition, and so
would words of another size. What a number means is `Counting.value`; nothing else about it is used.
-/

namespace TapeMachine

/-- A way of counting. -/
structure Counting (ν : Type) where
  /-- the number that is meant -/
  value : ν → Nat
  /-- one -/
  one : ν
  /-- the next number -/
  succ : ν → Option ν
  /-- the previous number -/
  pred : ν → Option ν

namespace Direction

/-- The bracket at which a scan in this direction comes into a loop. -/
def entry : Direction → Instruction
  | forward => .beginLoop
  | backward => .endLoop

/-- The bracket at which it comes out of one. -/
def exit : Direction → Instruction
  | forward => .endLoop
  | backward => .beginLoop

end Direction

namespace Tape

variable {w : Nat}

/-- The cell at an index, if the tape is long enough. -/
def cell? (t : Tape w) (i : Nat) : Option (Cell w) := t.cells[i]?

/-- The tape with the cell at an index replaced, if the tape is long enough. -/
def replace? (t : Tape w) (i : Nat) (c : Cell w) : Option (Tape w) :=
  if h : i < length then some ⟨t.cells.set i c h⟩ else none

@[simp] theorem cell?_toNat (t : Tape w) (a : Addr) : t.cell? a.toNat = some (t.get a) :=
  Vector.getElem?_eq_getElem a.toNat_lt

@[simp] theorem replace?_toNat (t : Tape w) (a : Addr) (c : Cell w) :
    t.replace? a.toNat c = some (t.set a c) :=
  dif_pos a.toNat_lt

end Tape

namespace Counting

variable {ν κ : Type} {w : Nat}

/-- Words of 64 bits, where zero comes after the largest one. -/
def wrapping : Counting UInt64 where
  value := UInt64.toNat
  one := 1
  succ n := some (n + 1)
  pred n := some (n - 1)

/-- Words of 64 bits, where nothing comes after the largest one. -/
def checked : Counting UInt64 where
  value := UInt64.toNat
  one := 1
  succ n := if n.toNat + 1 < 2 ^ 64 then some (n + 1) else none
  pred n := if n.toNat = 0 then none else some (n - 1)

/-! ## Scans -/

/-- How far a scan has come. -/
structure Scan (ν : Type) where
  /-- in how many loops it is -/
  depth : ν
  /-- the position that it has looked at last -/
  position : ν

/-- The next position in a direction. There is none before the beginning of the program. -/
def next (a : Counting ν) : Direction → ν → Option (Option ν)
  | .forward, position => (a.succ position).map some
  | .backward, position =>
    if a.value position = 0 then some none else (a.pred position).map some

/-- The depth after a byte. It is counted up and down in words like a position, so it may leave
their range as well. -/
def deepened (a : Counting ν) (d : Direction) (b : UInt8) (depth : ν) : Option ν :=
  if Instruction.ofByte? b = some d.entry then a.succ depth
  else if Instruction.ofByte? b = some d.exit then a.pred depth
  else some depth

/-- One turn of a scan, which looks at the next byte; `some none` says that there is none. -/
def turn (a : Counting ν) (d : Direction) (p : Program) (s : Scan ν) :
    Option (Option (Scan ν)) := do
  match ← a.next d s.position with
  | none => return none
  | some position =>
    match p[a.value position]? with
    | none => return none
    | some b => return some ⟨← a.deepened d b s.depth, position⟩

/-- The turns of a scan until it is in no loop any more. Nothing bounds their number: that a scan
ends has to be shown. -/
def scan (a : Counting ν) (d : Direction) (p : Program) (s : Scan ν) : Option (Option ν) :=
  if a.value s.depth = 0 then return s.position
  else do
    match ← a.turn d p s with
    | none => return none
    | some t => a |>.scan d p t
partial_fixpoint

/-- The partner of a bracket, looked for in a direction. -/
def partner (a : Counting ν) (d : Direction) (p : Program) (start : ν) :
    Option (Except UnmatchedBracket ν) := do
  match ← a.scan d p ⟨a.one, start⟩ with
  | some position => return .ok position
  | none => return .error ⟨a.value start, d⟩

/-! ## Runs -/

/-- An engine that counts its positions in the program in a way of its own, and its console. -/
structure State (ν κ : Type) (w : Nat) where
  /-- the tape -/
  tape : Tape w
  /-- the address of the current cell -/
  memoryPointer : Addr
  /-- the position of the next byte of the program -/
  instructionPointer : ν
  /-- the console -/
  console : κ

/-- The state after an instruction, which has put it at a position of the program. -/
def completed (a : Counting ν) (tape : Tape w) (mp : Addr) (position : ν) (k : κ) :
    Option (Progress (State ν κ w)) := do
  return .running ⟨tape, mp, ← a.succ position, k⟩

/-- The state after a bracket from which the program jumps to its partner. -/
def jump (a : Counting ν) (d : Direction) (p : Program) (s : State ν κ w) :
    Option (Progress (State ν κ w)) := do
  match ← a.partner d p s.instructionPointer with
  | .ok position => a.completed s.tape s.memoryPointer position s.console
  | .error e => return .ended (.error (.unmatchedBracket e)) s

/-- One byte of the program. -/
def step (a : Counting ν) [Console κ w] (p : Program) (s : State ν κ w) :
    Option (Progress (State ν κ w)) :=
  let ⟨tape, mp, ip, k⟩ := s
  match p[a.value ip]? with
  | none => return .ended (.ok ()) s
  | some b =>
    match Instruction.ofByte? b with
    | none => a.completed tape mp ip k
    | some .increment => do
      a.completed (← tape.replace? mp.toNat (← tape.cell? mp.toNat).succ) mp ip k
    | some .decrement => do
      a.completed (← tape.replace? mp.toNat (← tape.cell? mp.toNat).pred) mp ip k
    | some .right => a.completed tape (mp + 1) ip k
    | some .left => a.completed tape (mp - 1) ip k
    | some .beginLoop => do
      if (← tape.cell? mp.toNat).isZero then a.jump .forward p s else a.completed tape mp ip k
    | some .endLoop => do
      if (← tape.cell? mp.toNat).isZero then a.completed tape mp ip k else a.jump .backward p s
    | some .input =>
      match Console.flush w k with
      | (.error f, k) => return .ended (.error (.console f)) ⟨tape, mp, ip, k⟩
      | (.ok (), k) =>
        match Console.read k with
        | (.error f, k) => return .ended (.error (.console f)) ⟨tape, mp, ip, k⟩
        | (.ok c, k) => do a.completed (← tape.replace? mp.toNat c) mp ip k
    | some .output => do
      match Console.write (← tape.cell? mp.toNat) k with
      | (.error f, k) => return .ended (.error (.console f)) ⟨tape, mp, ip, k⟩
      | (.ok (), k) => a.completed tape mp ip k

/-- At most `steps` bytes of the program. -/
def run (a : Counting ν) [Console κ w] (p : Program) :
    (steps : Nat) → State ν κ w → Option (Progress (State ν κ w))
  | 0, s => some (.running s)
  | steps + 1, s => do
    match ← a.step p s with
    | .running t => run a p steps t
    | .ended outcome t => return .ended outcome t

end Counting

end TapeMachine
