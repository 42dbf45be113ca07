import TapeMachine.Proofs.Input.Lines

/-!
# Line endings

Some texts end their lines with a newline and others with a carriage return and a newline. A reader
of lines makes no difference between the two: it is answered the same from a stream and from the
stream that has a carriage return in front of every newline (`Stream.withReturns`), and so every
program does the same with either (`LineReader.reads_withReturns`).

A line with the other ending is the same line with the other ending, whatever ends it
(`Stream.lineBytes_withReturns`). Its first byte is the same, unless the line is empty; and then the
carriage return is read as a newline.

So the reader of the stream with carriage returns is seen through its own tokens, and the other
reader through the tokens with carriage returns put in (`LineReader.seenThrough_withReturns`). Both
views are answered in the same way, and this is all that a run depends on. That an empty line is
read as a newline either way is what makes the answers the same; a carriage return that stands
elsewhere is not touched.
-/

namespace TapeMachine

open Text (newline carriageReturn)

/-! ## Carriage returns

The change is made to bytes, to the events of a stream, and to tokens, and the three agree. -/

/-- The bytes with a carriage return in front of every newline. -/
def Text.withReturns (bytes : List UInt8) : List UInt8 :=
  bytes.flatMap fun b => if b = newline then [carriageReturn, newline] else [b]

theorem Text.withReturns_cons_of_ne {b : UInt8} (h : b ≠ newline) (bytes : List UInt8) :
    withReturns (b :: bytes) = b :: withReturns bytes := by
  rw [withReturns, List.flatMap_cons, if_neg h]
  rfl

/-- The event with a carriage return in front of every newline of its data. -/
def StreamEvent.withReturns : StreamEvent → StreamEvent
  | data bytes => data (Text.withReturns bytes)
  | endOfFile => endOfFile
  | failure e => failure e

namespace Stream

/-- The stream with a carriage return in front of every newline of the data. -/
def withReturns (s : Stream) : Stream := s.map StreamEvent.withReturns

/-- What a reader is told instead of the token. Only a newline is replaced, by two tokens. -/
def Token.withReturns : Token → List Token
  | byte b => if b = newline then [byte carriageReturn, byte newline] else [byte b]
  | endOfFile => [endOfFile]
  | failure e => [failure e]

theorem Token.withReturns_of_ne {b : UInt8} (h : b ≠ newline) :
    (byte b).withReturns = [byte b] := if_neg h

theorem map_byte_withReturns (bytes : List UInt8) :
    (Text.withReturns bytes).map Token.byte = (bytes.map Token.byte).flatMap Token.withReturns := by
  rw [Text.withReturns, List.map_flatMap, List.flatMap_map]
  congr 1
  funext b
  by_cases h : b = newline
  · simp [Token.withReturns, h]
  · simp [Token.withReturns, h]

/-- **Tokens** are replaced one by one, and it does not matter where the data is cut. -/
theorem tokens_withReturns (s : Stream) :
    s.withReturns.tokens = s.tokens.flatMap Token.withReturns := by
  induction s with
  | nil => rfl
  | cons event s ih =>
    rw [withReturns, List.map_cons, ← withReturns]
    cases event with
    | data bytes =>
      rw [StreamEvent.withReturns, tokens_data, tokens_data, List.flatMap_append, ih,
        map_byte_withReturns]
    | endOfFile =>
      rw [StreamEvent.withReturns, tokens_endOfFile, tokens_endOfFile, ih]
      rfl
    | failure e =>
      rw [StreamEvent.withReturns, tokens_failure, tokens_failure, List.flatMap_append, ih]
      split
      · rfl
      · rfl

/-! ## Lines -/

/-- **A line** has the same bytes but for its ending, and the same comes after it. A carriage return
ends no line, so the new line ends where the old one did. -/
theorem lineBytes_withReturns (tokens : List Token) :
    lineBytes (firstLine (tokens.flatMap Token.withReturns)) =
        (lineBytes (firstLine tokens)).map Text.withReturns ∧
      afterLine (tokens.flatMap Token.withReturns) =
        (afterLine tokens).flatMap Token.withReturns := by
  -- the line is followed to its end, byte by byte
  induction tokens with
  | nil => exact ⟨rfl, rfl⟩
  | cons token tokens ih =>
    rw [List.flatMap_cons]
    cases token with
    | byte b =>
      by_cases hb : b = newline
      · subst hb
        have hend : (Token.byte newline).endsLine := rfl
        obtain ⟨hfirst, hafter⟩ := firstLine_cons_of_endsLine hend tokens
        rw [hfirst, hafter]
        exact ⟨rfl, rfl⟩
      · have hwithin : ¬ (Token.byte b).endsLine := by simpa [Token.endsLine] using hb
        obtain ⟨hfirst, hafter⟩ := firstLine_cons_of_not_endsLine hwithin tokens
        obtain ⟨hfirst', hafter'⟩ :=
          firstLine_cons_of_not_endsLine hwithin (tokens.flatMap Token.withReturns)
        rw [Token.withReturns_of_ne hb, List.singleton_append, hfirst, hafter, hfirst', hafter',
          lineBytes_cons, lineBytes_cons, ih.1]
        refine ⟨?_, ih.2⟩
        cases lineBytes (firstLine tokens) with
        | error e => rfl
        | ok line => exact congrArg Except.ok (Text.withReturns_cons_of_ne hb line).symm
    | endOfFile => exact ⟨rfl, rfl⟩
    | failure e => exact ⟨rfl, rfl⟩

/-- A line is answered with the same, whatever its ending. -/
theorem lineAnswer_withReturns {w : Nat} (tokens : List Token) :
    lineAnswer (w := w) (firstLine (tokens.flatMap Token.withReturns)) =
      lineAnswer (firstLine tokens) := by
  rw [lineAnswer, lineAnswer, (lineBytes_withReturns tokens).1]
  rcases lineBytes (firstLine tokens) with e | (_ | ⟨b, line⟩)
  · rfl
  · rfl
  · by_cases hb : b = newline
    · -- an empty line, which begins with a carriage return now
      subst hb
      rfl
    · simp only [Except.map, Text.withReturns_cons_of_ne hb]

end Stream

namespace LineReader

variable {w : Nat}

/-- A reader is seen through the tokens with carriage returns, too, as if it read the other stream.
-/
theorem seenThrough_withReturns :
    Source.SeenThrough (w := w)
      (fun r : LineReader => r.stream.tokens.flatMap Stream.Token.withReturns)
      (fun tokens => Stream.lineAnswer (Stream.firstLine tokens)) Stream.afterLine where
  answer_eq := by
    intro r
    rw [seenThrough.answer_eq, Stream.lineAnswer_withReturns]
  rest_eq := by
    intro r
    rw [seenThrough.rest_eq, (Stream.lineBytes_withReturns _).2]

/-- **Line endings.** Put a carriage return in front of every newline of a stream, whatever there
has been before it, and however the data is cut, interrupted, ended and cut short by failures. Reads
of lines in a row are answered as before, whatever lines the readers hold at first. With either
stream every program takes the same steps on every engine, whatever it writes to: after as many
steps both runs have come equally far, or both have ended in the same way, with the same engine and
the same output; and the streams that are left differ as the streams did before. -/
theorem reads_withReturns (s : Stream) (line line' : List UInt8) :
    (∀ n, (Source.readMany (w := w) n (⟨s.withReturns, line'⟩ : LineReader)).1 =
      (Source.readMany n (⟨s, line⟩ : LineReader)).1) ∧
    ∀ (ο : Type) [Sink ο w] (p : Program) (e : Engine w) (o : ο) (steps : Nat),
      Progress.Alike
        (fun k l : LineReader × ο =>
          k.1.stream.withReturns.Equivalent l.1.stream ∧ k.2 = l.2)
        (p.run steps ⟨e, (⟨s, line⟩, o)⟩) (p.run steps ⟨e, (⟨s.withReturns, line'⟩, o)⟩) := by
  have htokens : (⟨s, line⟩ : LineReader).stream.tokens.flatMap Stream.Token.withReturns =
      (⟨s.withReturns, line'⟩ : LineReader).stream.tokens := (Stream.tokens_withReturns s).symm
  refine ⟨fun n => ?_, fun ο _ p e o steps => ?_⟩
  · obtain ⟨hmany, -⟩ :=
      seenThrough.readMany_eq (w := w) n (⟨s.withReturns, line'⟩ : LineReader)
    obtain ⟨hmany', -⟩ := seenThrough_withReturns.readMany_eq (w := w) n (⟨s, line⟩ : LineReader)
    rw [hmany, hmany', htokens]
  · simp only [Stream.equivalent_iff, Stream.tokens_withReturns]
    exact seenThrough_withReturns.run_alike_of_views seenThrough htokens p e o steps

end LineReader

end TapeMachine
