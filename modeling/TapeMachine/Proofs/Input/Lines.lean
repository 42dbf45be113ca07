import Mathlib.Logic.Function.Iterate
import TapeMachine.Proofs.Console.View
import TapeMachine.Proofs.Input.Tokens

/-!
# Reading lines

To a reader of lines, a line is what arrives through the first newline, the first end of the file or
the first failure (`Stream.firstLine`). Every read takes one such line from the stream and is
answered from that line alone (`Stream.lineAnswer`). So the reader is seen through the tokens
(`LineReader.seenThrough`): nothing of a line is found in the answer to another one, and nothing is
lost between two lines (`LineReader.reads_line_by_line`).

The definition of `nextLine` takes a whole chunk at a time, and the tokens come one by one. The two
meet in `nextLine_data_newline` and `nextLine_data_of_ne`, which go through a chunk byte by byte;
after that the induction of `nextLine_eq` is on the stream, and within a chunk on its bytes. What is
already at hand is general there, since it grows with every byte.

A reader keeps its line, and a failure leaves a part of one behind. Nothing is assumed of what the
reader holds when it begins (`LineReader.read_eq`): it is thrown away before anything is read.
-/

namespace TapeMachine

namespace Stream

open Text (newline)

variable {w : Nat} {token : Token} {b : UInt8}

/-! ## Lines of tokens

Lines are cut off the tokens one after another, each with its end. -/

/-- Whether a line ends with the token. Ends of the file and failures do so like newlines, but are
no bytes of the line. -/
def Token.endsLine : Token → Bool
  | byte b => b == newline
  | endOfFile | failure _ => true

/-- The tokens through the first one that ends a line, or all if there is none. -/
def firstLine (tokens : List Token) : List Token :=
  tokens.takeWhile (!·.endsLine) ++ (tokens.dropWhile (!·.endsLine)).take 1

/-- The tokens after the first one that ends a line. -/
def afterLine (tokens : List Token) : List Token := (tokens.dropWhile (!·.endsLine)).drop 1

/-- The first `n` lines. -/
def lines (n : Nat) (tokens : List Token) : List (List Token) :=
  (List.range n).map fun i => firstLine (afterLine^[i] tokens)

theorem lines_succ (n : Nat) (tokens : List Token) :
    lines (n + 1) tokens = firstLine tokens :: lines n (afterLine tokens) := by
  rw [lines, List.range_succ_eq_map, List.map_cons, List.map_map]
  rfl

theorem firstLine_append_afterLine (tokens : List Token) :
    firstLine tokens ++ afterLine tokens = tokens := by
  rw [firstLine, afterLine, List.append_assoc, List.take_append_drop,
    List.takeWhile_append_dropWhile]

theorem firstLine_cons_of_endsLine (h : token.endsLine) (tokens : List Token) :
    firstLine (token :: tokens) = [token] ∧ afterLine (token :: tokens) = tokens := by
  simp [firstLine, afterLine, h]

theorem firstLine_cons_of_not_endsLine (h : ¬ token.endsLine) (tokens : List Token) :
    firstLine (token :: tokens) = token :: firstLine tokens ∧
      afterLine (token :: tokens) = afterLine tokens := by
  simp [firstLine, afterLine, h]

/-- **Nothing is lost.** The first lines and what comes after them are all the tokens in order. -/
theorem flatten_lines_append (n : Nat) (tokens : List Token) :
    (lines n tokens).flatten ++ afterLine^[n] tokens = tokens := by
  induction n with
  | zero => rfl
  | succ n ih =>
    rw [lines, List.range_succ, List.map_append, List.flatten_append, List.append_assoc,
      List.map_singleton, List.flatten_singleton, Function.iterate_succ_apply',
      firstLine_append_afterLine]
    exact ih

/-! ## What a line is answered with

The bytes of a line and the answer to it are told by its tokens, and the last of them decides
whether there is a failure. -/

/-- The bytes of a line. They are lost if it ends with a failure, although they have been taken from
the stream. -/
def lineBytes (line : List Token) : Except IoError (List UInt8) :=
  match line.getLast? with
  | some (.failure e) => .error e
  | _ => .ok (line.filterMap Token.byte?)

/-- What reading a line is answered with: the failure that it ends with; otherwise its first byte,
with a carriage return read as a newline; and if it has no byte, that there is no input. -/
def lineAnswer (line : List Token) : Except Fault (Cell w) :=
  match lineBytes line with
  | .error e => .error (.io e)
  | .ok [] => .error .inputExhausted
  | .ok (b :: _) => .ok (Cell.ofByte (if b = Text.carriageReturn then newline else b))

theorem eq_of_lineBytes_eq_ok {line : List Token} {bytes : List UInt8}
    (h : lineBytes line = .ok bytes) : bytes = line.filterMap Token.byte? := by
  unfold lineBytes at h
  split at h
  · cases h
  · exact (Except.ok.inj h).symm

/-- A byte in front of a line is its first byte. It does not make up for a failure. -/
theorem lineBytes_cons (b : UInt8) (line : List Token) :
    lineBytes (.byte b :: line) = (lineBytes line).map (b :: ·) := by
  cases line with
  | nil => rfl
  | cons token line =>
    rw [lineBytes, lineBytes, List.getLast?_cons_cons]
    split
    all_goals rfl

/-! ## One line

`Stream.nextLine` appends to what is already at hand. A chunk may end within a line, and then the
line goes on in the next one. -/

/-- A newline at the beginning of a chunk ends the line and leaves the rest of the chunk. -/
theorem nextLine_data_newline (head bytes : List UInt8) (s : Stream) :
    nextLine head (.data (newline :: bytes) :: s) =
      (.ok (), head ++ [newline], .data bytes :: s) := by
  simp [nextLine, Text.isWithinLine]

/-- Any other byte is taken from the chunk as if it had come before. -/
theorem nextLine_data_of_ne (h : b ≠ newline) (head bytes : List UInt8) (s : Stream) :
    nextLine head (.data (b :: bytes) :: s) = nextLine (head ++ [b]) (.data bytes :: s) := by
  have hb : Text.isWithinLine b := by simpa [Text.isWithinLine] using h
  cases hd : bytes.dropWhile Text.isWithinLine with
  | nil => simp [nextLine, hb, hd]
  | cons c after => simp [nextLine, hb, hd]

/-- **A line** is read off the tokens. It comes behind what is already at hand, without its end if
that is a failure, and leaves the tokens after it. -/
theorem nextLine_eq (head : List UInt8) (s : Stream) :
    ∃ rest : Stream,
      s.nextLine head = ((lineBytes (firstLine s.tokens)).map fun _ => (),
        head ++ (firstLine s.tokens).filterMap Token.byte?, rest) ∧
      rest.tokens = afterLine s.tokens := by
  -- on the stream, and in a chunk on its bytes; what is at hand grows on the way
  induction s generalizing head with
  | nil =>
    refine ⟨[], ?_, rfl⟩
    rw [nextLine]
    exact congrArg (fun line => (Except.ok (), line, [])) (List.append_nil head).symm
  | cons event s ih =>
    cases event with
    | data bytes =>
      induction bytes generalizing head with
      | nil => simpa [nextLine] using ih head
      | cons b bytes ihb =>
        rw [tokens_data, List.map_cons, List.cons_append, ← tokens_data]
        by_cases hb : b = newline
        · have hend : (Token.byte b).endsLine := by simpa [Token.endsLine] using hb
          obtain ⟨hfirst, hafter⟩ := firstLine_cons_of_endsLine hend (tokens (.data bytes :: s))
          rw [hfirst, hafter, hb, nextLine_data_newline]
          exact ⟨_, rfl, rfl⟩
        · have hwithin : ¬ (Token.byte b).endsLine := by simpa [Token.endsLine] using hb
          obtain ⟨hfirst, hafter⟩ :=
            firstLine_cons_of_not_endsLine hwithin (tokens (.data bytes :: s))
          obtain ⟨rest, hline, hrest⟩ := ihb (head ++ [b])
          refine ⟨rest, ?_, hrest.trans hafter.symm⟩
          rw [hfirst, nextLine_data_of_ne hb, hline, lineBytes_cons, List.append_assoc]
          cases lineBytes (firstLine (tokens (.data bytes :: s)))
          all_goals rfl
    | endOfFile =>
      have hend : Token.endOfFile.endsLine := rfl
      obtain ⟨hfirst, hafter⟩ := firstLine_cons_of_endsLine hend (tokens s)
      rw [tokens_endOfFile, hfirst, hafter, nextLine]
      exact ⟨s, by simp [lineBytes, Token.byte?, Except.map], rfl⟩
    | failure e =>
      by_cases he : e.isInterrupted
      · rw [tokens_interrupted he, nextLine, if_pos he]
        exact ih head
      · have hend : (Token.failure e).endsLine := rfl
        obtain ⟨hfirst, hafter⟩ := firstLine_cons_of_endsLine hend (tokens s)
        rw [tokens_failed he, hfirst, hafter, nextLine, if_neg he]
        exact ⟨s, by simp [lineBytes, Token.byte?, Except.map], rfl⟩

end Stream

namespace LineReader

variable {w : Nat}

/-- **A read** takes the first line of the tokens, whatever line the reader holds, and holds that
line afterwards. -/
theorem read_eq (r : LineReader) :
    ∃ s : Stream, (r.read : Except Fault (Cell w) × LineReader) =
        (Stream.lineAnswer (Stream.firstLine r.stream.tokens),
          ⟨s, (Stream.firstLine r.stream.tokens).filterMap Stream.Token.byte?⟩) ∧
      s.tokens = Stream.afterLine r.stream.tokens := by
  obtain ⟨s, hnext, hrest⟩ := r.stream.nextLine_eq []
  refine ⟨s, ?_, hrest⟩
  rw [List.nil_append] at hnext
  simp only [read, clear, hnext, Stream.lineAnswer]
  cases hbytes : Stream.lineBytes (Stream.firstLine r.stream.tokens) with
  | error e => rfl
  | ok bytes =>
    rw [← Stream.eq_of_lineBytes_eq_ok hbytes]
    cases bytes
    all_goals rfl

/-- A reader is seen through the tokens of its stream. The line that it holds is no part of the
view, because no answer depends on it. -/
theorem seenThrough :
    Source.SeenThrough (w := w) (fun r : LineReader => r.stream.tokens)
      (fun tokens => Stream.lineAnswer (Stream.firstLine tokens)) Stream.afterLine :=
  .of_read fun r => by
    obtain ⟨s, hread, hrest⟩ := r.read_eq (w := w)
    exact ⟨_, hread, hrest⟩

/-- After reads in a row the reader holds the bytes of the last line, and the line that it held
before if there was no read. -/
theorem line_readMany (r : LineReader) (n : Nat) :
    (Source.readMany (w := w) n r).2.line =
      ((Stream.lines n r.stream.tokens).getLast?.map (List.filterMap Stream.Token.byte?)).getD
        r.line := by
  -- on the reads behind the first, which begin with the line that the first has left
  induction n generalizing r with
  | zero => rfl
  | succ n ih =>
    obtain ⟨s, hread, hrest⟩ := r.read_eq (w := w)
    have hnext : Source.read (w := w) r = _ := hread
    rw [Source.readMany, hnext, Stream.lines_succ, List.getLast?_cons, ← hrest]
    refine (ih _).trans ?_
    cases (Stream.lines n s.tokens).getLast?
    all_goals rfl

/-- Reads in a row are answered from one line each, and leave what comes after so many lines. -/
theorem readMany_eq (r : LineReader) (n : Nat) :
    ∃ rest : LineReader,
      Source.readMany (w := w) n r =
        ((Stream.lines n r.stream.tokens).map Stream.lineAnswer, rest) ∧
      rest.stream.tokens = Stream.afterLine^[n] r.stream.tokens ∧
      rest.line = ((Stream.lines n r.stream.tokens).getLast?.map
        (List.filterMap Stream.Token.byte?)).getD r.line := by
  obtain ⟨hmany, hleft⟩ := seenThrough.readMany_eq (w := w) n r
  refine ⟨(Source.readMany (w := w) n r).2, Prod.ext ?_ rfl, hleft, line_readMany r n⟩
  rw [Stream.lines, List.map_map]
  exact hmany

/-- **Reading lines.** Every read takes from the tokens of the stream those through the first
newline, end of the file or failure, or all of them if there is none, and is answered from these
alone: with the failure, if there is one; otherwise with the first byte, a carriage return being
read as a newline; and if there is no byte, with the end of the input. This goes on after a fault
with the tokens that follow. The lines that have been taken and the tokens that are left are all the
tokens in order, and so are the bytes in the lines and the data that has not been read.

Whatever line the reader holds at first does not matter. After the reads it holds the bytes of the
last line and of no other, even if that line was cut short by a failure.

The answers are the same for every reader whose stream comes from this one by cutting and joining
chunks of data and by interruptions, and the streams that are left differ in no more than that. -/
theorem reads_line_by_line (r : LineReader) (n : Nat) :
    ∃ rest : LineReader,
      Source.readMany (w := w) n r =
        ((Stream.lines n r.stream.tokens).map Stream.lineAnswer, rest) ∧
      (Stream.lines n r.stream.tokens).flatten ++ rest.stream.tokens = r.stream.tokens ∧
      (Stream.lines n r.stream.tokens).flatten.filterMap Stream.Token.byte? ++ rest.stream.unread =
        r.stream.unread ∧
      (∀ last ∈ (Stream.lines n r.stream.tokens).getLast?,
        rest.line = last.filterMap Stream.Token.byte?) ∧
      ∀ r' : LineReader, r.stream.Equivalent r'.stream → ∃ rest' : LineReader,
        Source.readMany (w := w) n r' =
          ((Stream.lines n r.stream.tokens).map Stream.lineAnswer, rest') ∧
        rest.stream.Equivalent rest'.stream := by
  obtain ⟨rest, hmany, hleft, hline⟩ := readMany_eq (w := w) r n
  have htokens := Stream.flatten_lines_append n r.stream.tokens
  rw [← hleft] at htokens
  refine ⟨rest, hmany, htokens, ?_, fun last hlast => ?_, fun r' hr' => ?_⟩
  · rw [Stream.unread_eq_filterMap, Stream.unread_eq_filterMap, ← List.filterMap_append, htokens]
  · rw [hline, Option.mem_def.mp hlast]
    rfl
  · obtain ⟨rest', hmany', hleft', -⟩ := readMany_eq (w := w) r' n
    rw [← Stream.equivalent_iff.mp hr'] at hmany' hleft'
    exact ⟨rest', hmany', Stream.equivalent_iff.mpr (hleft.trans hleft'.symm)⟩

/-- Five reads from two lines that end early and three that do not: `hi` before an end of the file,
an empty line, `x` before a failure, a newline, and nothing. They are answered alike when the first
line arrives in two chunks, with an interruption between them, and when the reader holds a line
already. -/
theorem reads_line_by_line_interrupted :
    Stream.Equivalent
        [.data [104, 105], .endOfFile, .data [13, 10, 120], .failure (.plain .wouldBlock),
          .data [10]]
        [.data [104], .failure (.plain .interrupted), .data [105], .endOfFile, .data [13, 10, 120],
          .failure (.plain .wouldBlock), .data [10]] ∧
      (Source.readMany 5 (⟨[.data [104], .failure (.plain .interrupted), .data [105], .endOfFile,
          .data [13, 10, 120], .failure (.plain .wouldBlock), .data [10]], [33]⟩ : LineReader)).1 =
        [.ok (104 : Cell 8), .ok 10, .error (.io (.plain .wouldBlock)), .ok 10,
          .error .inputExhausted] := by
  have hequivalent : Stream.Equivalent
      [.data [104, 105], .endOfFile, .data [13, 10, 120], .failure (.plain .wouldBlock), .data [10]]
      [.data [104], .failure (.plain .interrupted), .data [105], .endOfFile, .data [13, 10, 120],
        .failure (.plain .wouldBlock), .data [10]] := Stream.equivalent_iff.mpr rfl
  obtain ⟨rest, -, -, -, -, hanswers⟩ := reads_line_by_line (w := 8)
    (.ofStream [.data [104, 105], .endOfFile, .data [13, 10, 120], .failure (.plain .wouldBlock),
      .data [10]]) 5
  obtain ⟨rest', hmany, -⟩ := hanswers ⟨_, [33]⟩ hequivalent
  refine ⟨hequivalent, ?_⟩
  rw [hmany]
  rfl

end LineReader

end TapeMachine
