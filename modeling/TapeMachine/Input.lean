import TapeMachine.Console
import TapeMachine.Input.Stream

/-!
# Sources of cells

Three ways to supply the input instruction.

* `ByteReader` gives one byte of a stream per cell, and zero at the end of the file, so it never
  runs dry.
* `LineReader` reads a whole line per cell and gives its first byte, the way one answers a prompt.
  An empty line gives a newline, a carriage return counts as one, and the end of the file is the
  end of the input. The line is kept in the reader, which uses the same place for every line: what
  a read leaves there must not show in the next one.
* `Queue` gives the cells of a list one after another until none is left.
-/

namespace TapeMachine

/-- Reads one byte per cell. -/
structure ByteReader where
  /-- the stream that is read -/
  stream : Stream

/-- Reads one line per cell. -/
structure LineReader where
  /-- the stream that is read -/
  stream : Stream
  /-- the last line, or what there was of it when the stream failed -/
  line : List UInt8

/-- Gives the cells of a list. -/
structure Queue (w : Nat) where
  /-- the cells still to come -/
  cells : List (Cell w)
deriving DecidableEq

variable {w : Nat}

/-- The next byte as a cell; at the end of the file the cell is zero. -/
def ByteReader.read (r : ByteReader) : Except Fault (Cell w) × ByteReader :=
  match r.stream.nextByte with
  | (.ok (some b), s) => (.ok (Cell.ofByte b), ⟨s⟩)
  | (.ok none, s) => (.ok 0, ⟨s⟩)
  | (.error e, s) => (.error (.io e), ⟨s⟩)

/-- A reader that has not read a line yet. -/
def LineReader.ofStream (s : Stream) : LineReader := ⟨s, []⟩

/-- The reader with no line at hand. -/
def LineReader.clear (r : LineReader) : LineReader := { r with line := [] }

/-- The first byte of the next line as a cell, with a carriage return read as a newline. The line
takes the place of the one before it. -/
def LineReader.read (r : LineReader) : Except Fault (Cell w) × LineReader :=
  let r := r.clear
  match r.stream.nextLine r.line with
  | (.ok (), [], s) => (.error .inputExhausted, ⟨s, []⟩)
  | (.ok (), b :: line, s) =>
    (.ok (Cell.ofByte (if b = Text.carriageReturn then Text.newline else b)), ⟨s, b :: line⟩)
  -- what has arrived of the line is kept, and the next read throws it away
  | (.error e, line, s) => (.error (.io e), ⟨s, line⟩)

/-- The next cell of the queue. -/
def Queue.read : Queue w → Except Fault (Cell w) × Queue w
  | ⟨[]⟩ => (.error .inputExhausted, ⟨[]⟩)
  | ⟨c :: cs⟩ => (.ok c, ⟨cs⟩)

instance : Source ByteReader w := ⟨ByteReader.read⟩

instance : Source LineReader w := ⟨LineReader.read⟩

instance : Source (Queue w) w := ⟨Queue.read⟩

end TapeMachine
