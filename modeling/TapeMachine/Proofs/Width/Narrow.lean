import TapeMachine.CommandLine.Reader
import TapeMachine.Machine
import TapeMachine.Output

/-!
# Machines with narrower cells

What is left of a machine when only the lowest `v` bits of every cell are kept: `Tape.narrowed`,
`Engine.narrowed`, `Machine.narrowed`. Counting up and down goes on as before
(`Cell.setWidth_add_one`, `Cell.setWidth_sub_one`), since it is arithmetic modulo a power of two.

A console for wide cells narrows to one for narrow cells (`Console.Narrows`) if it answers every
request with narrow cells as it does with wide ones. The readers and the writer of bytes do, since a
byte fits into every cell, and so does the recorder of any console that does.

Writing is where the width could be seen from outside. It cannot, because only the lowest byte of a
cell is written, and the narrow cell has eight bits at least.
-/

namespace TapeMachine

variable {v w : Nat}

/-! ## Cells

Keeping the lowest bits is a homomorphism for counting, and keeps bytes as they are. -/

namespace Cell

/-- Counting up in wide cells is counting up in narrow ones, also where only the narrow cell wraps.
-/
theorem setWidth_add_one (h : v ≤ w) (c : Cell w) :
    (c + 1).setWidth v = c.setWidth v + 1 := by
  rw [BitVec.setWidth_add _ _ h]
  congr 1
  exact BitVec.setWidth_ofNat_of_le h 1

theorem setWidth_sub_one (h : v ≤ w) (c : Cell w) :
    (c - 1).setWidth v = c.setWidth v - 1 := by
  rw [← BitVec.add_sub_cancel ((c - 1).setWidth v) 1, ← setWidth_add_one h, BitVec.sub_add_cancel]

/-- A byte fits into cells of every size. -/
theorem setWidth_ofByte (h : v ≤ w) (b : UInt8) : (ofByte b : Cell w).setWidth v = ofByte b :=
  BitVec.setWidth_ofNat_of_le h b.toNat

/-- Cells of eight bits or more keep the byte that they are written as. -/
theorem lowByte_setWidth (h : 8 ≤ v) (c : Cell w) : lowByte (c.setWidth v) = c.lowByte := by
  refine UInt8.toNat_inj.mp ?_
  rw [lowByte, lowByte, UInt8.toNat_ofNat', UInt8.toNat_ofNat', BitVec.toNat_setWidth]
  exact Nat.mod_mod_of_dvd _ (Nat.pow_dvd_pow 2 h)

end Cell

/-! ## Tapes and machines -/

namespace Tape

/-- The lowest `v` bits of every cell. -/
def narrowed (v : Nat) (t : Tape w) : Tape v := ⟨t.cells.map (BitVec.setWidth v)⟩

@[simp] theorem get_narrowed (t : Tape w) (a : Addr) :
    (t.narrowed v).get a = (t.get a).setWidth v := get_map _ t a

@[simp] theorem narrowed_blank : (blank : Tape w).narrowed v = blank :=
  ext_get fun a => by simp

theorem narrowed_set (t : Tape w) (a : Addr) (c : Cell w) :
    (t.set a c).narrowed v = (t.narrowed v).set a (c.setWidth v) := map_set _ t a c

end Tape

/-- The engine with the lowest `v` bits of every cell and the same pointers. -/
def Engine.narrowed (v : Nat) (e : Engine w) : Engine v :=
  ⟨e.tape.narrowed v, e.memoryPointer, e.instructionPointer⟩

/-- The machine with cells of a smaller size and the same pointers. -/
def Machine.narrowed (size : WordSize) (m : Machine) : Machine :=
  ⟨size, m.engine.narrowed size.bits⟩

/-! ## Consoles

For requests, a narrow cell goes with the wide one that it is made from. -/

/-- The request with a narrow cell. -/
def Call.narrowed (v : Nat) : Call w → Call v
  | .flush answer => .flush answer
  | .read answer => .read (answer.map (BitVec.setWidth v))
  | .write cell answer => .write (cell.setWidth v) answer

/-- The same list of requests with narrow cells. -/
def Recorder.narrowed {κ : Type} (v : Nat) (k : Recorder κ w) : Recorder κ v :=
  ⟨k.console, k.calls.map (Call.narrowed v)⟩

@[simp] theorem Recorder.narrowed_start {κ : Type} (k : κ) :
    (start k : Recorder κ w).narrowed v = start k := by
  simp [start, narrowed]

/-- A console for cells of `w` bits, taken through `φ`, answers requests with cells of `v` bits in
the same way. -/
structure Console.Narrows (v w : Nat) {κ κ' : Type} [Console κ w] [Console κ' v] (φ : κ → κ') :
    Prop where
  /-- what flushing one of them does, flushing the other does -/
  flush : ∀ k, Console.flush v (φ k) = (Console.flush w k).map id φ
  /-- what is read is narrowed -/
  read : ∀ k, Console.read (φ k) = (Console.read (w := w) k).map (Except.map (BitVec.setWidth v)) φ
  /-- a cell can be narrowed before it is written -/
  write : ∀ (c : Cell w) k, Console.write (c.setWidth v) (φ k) = (Console.write c k).map id φ

/-- A recorder writes the same requests down, with narrow cells. -/
theorem Console.Narrows.recorder {κ : Type} [Console κ w] [Console κ v]
    (h : Console.Narrows v w (id : κ → κ)) :
    Console.Narrows v w (Recorder.narrowed v : Recorder κ w → Recorder κ v) where
  flush := by
    intro k
    have hk : Console.flush v k.console = Console.flush w k.console := h.flush k.console
    simp [Console.flush, Recorder.narrowed, Call.narrowed, hk]
  read := by
    intro k
    have hk := h.read k.console
    rw [id] at hk
    simp [Console.read, Recorder.narrowed, Call.narrowed, hk]
  write := by
    intro c k
    have hk : Console.write (c.setWidth v) k.console = Console.write c k.console :=
      h.write c k.console
    simp [Console.write, Recorder.narrowed, Call.narrowed, hk]

/-- A source that gives narrow cells as it gives wide ones, next to a sink that takes them so, is
such a console. -/
theorem Console.narrows_of_pair {ι ο : Type} [Source ι w] [Source ι v] [Sink ο w] [Sink ο v]
    (hread : ∀ i : ι,
      Source.read i = (Source.read (w := w) i).map (Except.map (BitVec.setWidth v)) id)
    (hwrite : ∀ (c : Cell w) (o : ο), Sink.write (c.setWidth v) o = Sink.write c o)
    (hflush : ∀ o : ο, Sink.flush v o = Sink.flush w o) :
    Console.Narrows v w (id : ι × ο → ι × ο) where
  flush := by
    rintro ⟨i, o⟩
    simp [Console.flush, hflush]
  read := by
    rintro ⟨i, o⟩
    simp [Console.read, hread]
  write := by
    rintro c ⟨i, o⟩
    simp [Console.write, hwrite]

/-! ## Bytes -/

/-- A reader of bytes gives the same byte to cells of every size, from the same stream. -/
theorem ByteReader.read_narrow (h : v ≤ w) (r : ByteReader) :
    (ByteReader.read r : Except Fault (Cell v) × ByteReader) =
      (ByteReader.read r : Except Fault (Cell w) × ByteReader).map
        (Except.map (BitVec.setWidth v)) id := by
  rw [read, read]
  rcases r.stream.nextByte with ⟨_ | _ | b, s⟩
  · rfl
  · simp [Except.map]
  · simp [Except.map, Cell.setWidth_ofByte h]

/-- And so does a reader of lines, which decides about its answer before it makes a cell of it. -/
theorem LineReader.read_narrow (h : v ≤ w) (r : LineReader) :
    (LineReader.read r : Except Fault (Cell v) × LineReader) =
      (LineReader.read r : Except Fault (Cell w) × LineReader).map
        (Except.map (BitVec.setWidth v)) id := by
  simp only [read]
  rcases r.clear.stream.nextLine r.clear.line with ⟨_ | _, _ | ⟨b, _⟩, s⟩
  · rfl
  · rfl
  · rfl
  · simp [Except.map, Cell.setWidth_ofByte h]

/-- A writer takes the same byte from a cell and from its lowest bits. -/
theorem ByteWriter.write_narrow (h : 8 ≤ v) (c : Cell w) (o : ByteWriter) :
    ByteWriter.write (c.setWidth v) o = ByteWriter.write c o := by
  rw [write, write, Cell.lowByte_setWidth h]

/-- **Bytes** pass through narrow cells as they pass through wide ones, whether they are read one by
one or by lines. -/
theorem CommandLine.Reader.narrows (h8 : 8 ≤ v) (h : v ≤ w) :
    Console.Narrows v w
      (id : CommandLine.Reader × ByteWriter → CommandLine.Reader × ByteWriter) := by
  refine Console.narrows_of_pair ?_ (ByteWriter.write_narrow h8) fun _ => rfl
  rintro (r | r)
  · simp [Source.read, ByteReader.read_narrow h]
  · simp [Source.read, LineReader.read_narrow h]

end TapeMachine
