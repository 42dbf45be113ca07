import TapeMachine.Fault
import TapeMachine.Text.Line

/-!
# Streams of bytes that can fail

A stream is what a reader meets when it asks for bytes: chunks of data of any size, answers that
mean the end of the file for now, and failures. Events happen once, in order; after the last one
every attempt finds the end of the file.

A chunk may be longer than what is asked for. Then the rest of it stays in front of the stream,
which is thus a buffer as well: several readers can take turns on one stream, and each goes on where
the one before it has stopped, even in the middle of a chunk.

* `Stream.nextByte` reads one byte, `Stream.nextLine` the bytes through the next newline; both try
  again when they are interrupted;
* `Stream.tokens` is the view: single bytes, ends of file and failures, without the interruptions
  and without the boundaries of the chunks. `nextByte_eq` says that a byte is read off that view.
* `Stream.unread` is the data that nobody has asked for yet.
-/

namespace TapeMachine

/-- What can happen when a reader asks for bytes. -/
inductive StreamEvent where
  /-- bytes arrive, perhaps more than one reader asks for; no bytes are no event at all -/
  | data (bytes : List UInt8)
  /-- one attempt finds the end of the file -/
  | endOfFile
  /-- one attempt fails -/
  | failure (error : IoError)
deriving DecidableEq

/-- The events that readers will meet. -/
abbrev Stream := List StreamEvent

namespace Stream

/-- The stream that holds the given bytes and nothing else. -/
def ofBytes (bytes : List UInt8) : Stream := [.data bytes]

/-- The next byte, or `none` at the end of the file. -/
def nextByte : Stream → Except IoError (Option UInt8) × Stream
  | [] => (.ok none, [])
  | .data [] :: s => nextByte s
  | .data (b :: bytes) :: s => (.ok (some b), .data bytes :: s)
  | .endOfFile :: s => (.ok none, s)
  | .failure e :: s => if e.isInterrupted then nextByte s else (.error e, s)

/-- Adds to a line what arrives through the next newline, or up to the end of the file. What has
been added before a failure stays in the line, but is gone from the stream: whoever wants the rest
of the line has to keep what there is of it. -/
def nextLine (line : List UInt8) : Stream → Except IoError Unit × List UInt8 × Stream
  | [] => (.ok (), line, [])
  | .data bytes :: s =>
    match bytes.dropWhile Text.isWithinLine with
    | [] => nextLine (line ++ bytes) s
    -- the rest of the chunk is left for the next reader
    | b :: after => (.ok (), line ++ bytes.takeWhile Text.isWithinLine ++ [b], .data after :: s)
  | .endOfFile :: s => (.ok (), line, s)
  | .failure e :: s => if e.isInterrupted then nextLine line s else (.error e, line, s)

/-- The data that has not been read. -/
def unread (s : Stream) : List UInt8 :=
  s.flatMap fun
    | .data bytes => bytes
    | _ => []

/-! ## The view of a stream -/

/-- What a reader can tell apart. -/
inductive Token where
  | byte (b : UInt8)
  | endOfFile
  | failure (error : IoError)
deriving DecidableEq

/-- The stream as its readers see it: byte by byte, and without the interruptions. -/
def tokens (s : Stream) : List Token :=
  s.flatMap fun
    | .data bytes => bytes.map .byte
    | .endOfFile => [.endOfFile]
    | .failure e => if e.isInterrupted then [] else [.failure e]

/-- What a reader of single bytes is told. -/
def Token.answer : Token → Except IoError (Option UInt8)
  | byte b => .ok (some b)
  | endOfFile => .ok none
  | failure e => .error e

/-- **Bytes are read off the view.** Reading a byte gives the first token, or the end of the file
when there is none, and leaves the other tokens. -/
theorem nextByte_eq (s : Stream) :
    s.nextByte.1 = (s.tokens.head?.map Token.answer).getD (.ok none) ∧
      s.nextByte.2.tokens = s.tokens.tail := by
  fun_induction nextByte s with
  | case1 => exact ⟨rfl, rfl⟩
  | case2 s ih => simpa [tokens] using ih
  | case3 b bytes s => simp [tokens, Token.answer]
  | case4 s => simp [tokens, Token.answer]
  | case5 e s h ih => simpa [tokens, h] using ih
  | case6 e s h => simp [tokens, Token.answer, h]

end Stream

end TapeMachine
