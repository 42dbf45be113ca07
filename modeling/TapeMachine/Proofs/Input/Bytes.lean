import Mathlib.Data.List.TakeDrop
import TapeMachine.Output
import TapeMachine.Proofs.Console.View
import TapeMachine.Proofs.Input.Tokens

/-!
# Reading single bytes

A reader of single bytes is answered with one token of its stream after another, and with zeros when
there are no more (`Stream.told`). So it is seen through the tokens (`ByteReader.seenThrough`):
every byte is delivered once and in order, and it makes no difference how the data is cut and how
often it is interrupted (`ByteReader.reads_in_order`).

One read is described once (`ByteReader.read_eq`), by the first token and those behind it. The rest
is about lists of tokens, and what runs do with a source that is seen through a view.
-/

namespace TapeMachine

variable {w : Nat}

/-- A reader gives the cell of the first token, or zero when there is none. Both an end of the file
and the end of everything are zero, but a token is used up only by the first. -/
theorem ByteReader.read_eq (r : ByteReader) :
    ∃ s, (r.read : Except Fault (Cell w) × ByteReader) =
        ((r.stream.tokens.head?.map Stream.Token.cell).getD (.ok 0), ⟨s⟩) ∧
      s.tokens = r.stream.tokens.tail := by
  obtain ⟨hanswer, hrest⟩ := r.stream.nextByte_eq
  refine ⟨r.stream.nextByte.2, ?_, hrest⟩
  rcases hnext : r.stream.nextByte with ⟨answer, s⟩
  rw [hnext] at hanswer
  cases htokens : r.stream.tokens with
  | nil =>
    rw [htokens] at hanswer
    cases hanswer
    rw [read, hnext]
    rfl
  | cons token rest =>
    rw [htokens] at hanswer
    cases token
    all_goals
      cases hanswer
      rw [read, hnext]
      rfl

/-- A reader is seen through the tokens of its stream: each read takes one. -/
theorem ByteReader.seenThrough :
    Source.SeenThrough (w := w) (fun r : ByteReader => r.stream.tokens)
      (fun ts => (ts.head?.map Stream.Token.cell).getD (.ok 0)) List.tail :=
  .of_read fun r => by
    obtain ⟨s, hread, hrest⟩ := r.read_eq (w := w)
    exact ⟨⟨s⟩, hread, hrest⟩

/-- What reading a byte is answered with after `i` others: the next token of the stream, with an end
of the file as zero, and zero when there are no more. -/
def Stream.told (s : Stream) (i : Nat) : Except Fault (Cell w) :=
  (s.tokens[i]?.map Stream.Token.cell).getD (.ok 0)

/-- Reads in a row are answered with one token each, and leave the tokens behind them. -/
theorem ByteReader.readMany_eq (s : Stream) (n : Nat) :
    ∃ rest : Stream,
      Source.readMany (w := w) n (⟨s⟩ : ByteReader) = ((List.range n).map s.told, ⟨rest⟩) ∧
      rest.tokens = s.tokens.drop n := by
  obtain ⟨hmany, hleft⟩ := ByteReader.seenThrough.readMany_eq (w := w) n (⟨s⟩ : ByteReader)
  simp only [List.tail_iterate, List.head?_drop] at hmany hleft
  exact ⟨(Source.readMany (w := w) n (⟨s⟩ : ByteReader)).2.stream, Prod.ext hmany rfl, hleft⟩

theorem Stream.told_congr {s s' : Stream} (h : s.tokens = s'.tokens) :
    s.told (w := w) = s'.told := by
  funext i
  rw [told, told, h]

/-- **Reading bytes.** Reads of single bytes are answered with the tokens of the stream, one after
another: a byte as a cell, an end of the file as zero and a failure as a fault; and with zeros for
ever when there are no more. The tokens that are left are those that have not been answered with,
and the bytes that have been, with the data that has not been read, are all the data in order.

The answers are the same for every stream that comes from this one by cutting and joining chunks of
data and by interruptions, and the streams that are left differ in no more than that. With either
stream every program takes the same steps on every engine, whatever it writes to. -/
theorem ByteReader.reads_in_order (s : Stream) (n : Nat) :
    ∃ rest : Stream,
      Source.readMany (w := w) n (⟨s⟩ : ByteReader) = ((List.range n).map s.told, ⟨rest⟩) ∧
      rest.tokens = s.tokens.drop n ∧
      (s.tokens.take n).filterMap Stream.Token.byte? ++ rest.unread = s.unread ∧
      ∀ s' : Stream, s.Equivalent s' →
        (∃ rest' : Stream,
          Source.readMany (w := w) n (⟨s'⟩ : ByteReader) = ((List.range n).map s.told, ⟨rest'⟩) ∧
          rest.Equivalent rest') ∧
        ∀ (ο : Type) [Sink ο w] (p : Program) (e : Engine w) (o : ο) (steps : Nat),
          Progress.Alike
            (fun k l : ByteReader × ο => k.1.stream.Equivalent l.1.stream ∧ k.2 = l.2)
            (p.run steps ⟨e, (⟨s⟩, o)⟩) (p.run steps ⟨e, (⟨s'⟩, o)⟩) := by
  obtain ⟨rest, hmany, hleft⟩ := readMany_eq (w := w) s n
  refine ⟨rest, hmany, hleft, ?_, fun s' hs' => ⟨?_, fun ο _ p e o steps => ?_⟩⟩
  -- the data is what the tokens hold, and the tokens are those taken and those left
  · rw [Stream.unread_eq_filterMap, Stream.unread_eq_filterMap, hleft, ← List.filterMap_append,
      List.take_append_drop]
  · obtain ⟨rest', hmany', hleft'⟩ := readMany_eq (w := w) s' n
    have htokens := Stream.equivalent_iff.mp hs'
    rw [← Stream.told_congr htokens] at hmany'
    rw [← htokens] at hleft'
    exact ⟨rest', hmany', Stream.equivalent_iff.mpr (hleft.trans hleft'.symm)⟩
  · have htokens := Stream.equivalent_iff.mp hs'
    simp only [Stream.equivalent_iff]
    exact seenThrough.run_alike (i := ⟨s⟩) (j := ⟨s'⟩) htokens p e o steps

/-- Two bytes and a failure, in one chunk or apart and after an interruption. Four reads are
answered alike, and so `,.` takes the same steps. -/
theorem ByteReader.reads_in_order_interrupted :
    Stream.Equivalent [.data [65, 66], .failure (.plain .wouldBlock)]
        [.failure (.plain .interrupted), .data [65], .data [66], .failure (.plain .wouldBlock)] ∧
      (Source.readMany 4 (⟨[.failure (.plain .interrupted), .data [65], .data [66],
          .failure (.plain .wouldBlock)]⟩ : ByteReader)).1 =
        [.ok (65 : Cell 8), .ok 66, .error (.io (.plain .wouldBlock)), .ok 0] ∧
      ∀ steps, Progress.Alike
        (fun k l : ByteReader × Collector 8 => k.1.stream.Equivalent l.1.stream ∧ k.2 = l.2)
        (Program.run (w := 8) #[44, 46] steps ⟨.initial,
          (⟨[.data [65, 66], .failure (.plain .wouldBlock)]⟩, Collector.empty)⟩)
        (Program.run (w := 8) #[44, 46] steps ⟨.initial,
          (⟨[.failure (.plain .interrupted), .data [65], .data [66],
            .failure (.plain .wouldBlock)]⟩, Collector.empty)⟩) := by
  have hequivalent : Stream.Equivalent [.data [65, 66], .failure (.plain .wouldBlock)]
      [.failure (.plain .interrupted), .data [65], .data [66], .failure (.plain .wouldBlock)] :=
    Stream.equivalent_iff.mpr rfl
  obtain ⟨rest, -, -, -, hanswers⟩ := ByteReader.reads_in_order (w := 8)
    [.data [65, 66], .failure (.plain .wouldBlock)] 4
  obtain ⟨⟨rest', hmany, -⟩, hruns⟩ := hanswers _ hequivalent
  refine ⟨hequivalent, ?_, hruns _ #[44, 46] .initial Collector.empty⟩
  rw [hmany]
  rfl

end TapeMachine
