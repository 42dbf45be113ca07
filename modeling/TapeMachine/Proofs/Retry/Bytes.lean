import TapeMachine.Proofs.Input.Bytes
import TapeMachine.Proofs.Output.Schedule
import TapeMachine.Proofs.Retry.Session

/-!
# Failures of byte streams and devices

A stream that fails and a device that fails can be compared to what they would be without failing:
the same stream without its failures (`Stream.faultless`), and a device that took the same bytes and
takes every further one (`ByteWriter.faultless`). A failed read loses no byte of the stream and a
failed write delivers nothing, so the two recover (`bytes_recover`).

So a program that reads and writes bytes ends as it would without failures, if it is run again after
each (`exists_endsAfter_of_ends_faultless`).

Both are given a number of failures to come: those tokens of the stream that are failures, and those
events of the two schedules. An interrupted read or write is not among them, since it is tried again
at once; an interrupted flush is. Each failed request uses up one failure, and this is why a program
has to be run again only so often.
-/

namespace TapeMachine

variable {w : Nat}

/-! ## Streams

A failure is an event of the stream like any other. Taking it away leaves what stands around it in
order, and this is all that a reader sees. -/

namespace Stream

/-- Whether the reader is told of a failure. -/
def Token.fails : Token → Bool
  | failure _ => true
  | _ => false

/-- How often readers of the stream fail. An interruption is no failure to them. -/
def failures (s : Stream) : Nat := s.tokens.countP Token.fails

theorem failures_eq_zero {s : Stream} (h : ∀ error, .failure error ∈ s → error.isInterrupted) :
    s.failures = 0 := by
  refine List.countP_eq_zero.mpr fun token htoken => ?_
  obtain ⟨event, hevent, htoken⟩ := List.mem_flatMap.mp htoken
  cases event with
  | data bytes =>
    obtain ⟨b, -, rfl⟩ := List.mem_map.mp htoken
    exact Bool.false_ne_true
  | endOfFile =>
    cases List.mem_singleton.mp htoken
    exact Bool.false_ne_true
  | failure error =>
    simp [h error hevent] at htoken

/-- The stream without failures and interruptions. -/
def faultless (s : Stream) : Stream :=
  s.filter fun
    | .failure _ => false
    | _ => true

theorem tokens_faultless (s : Stream) :
    s.faultless.tokens = s.tokens.filter fun t => !t.fails := by
  induction s with
  | nil => rfl
  | cons event s ih =>
    cases event with
    | data bytes =>
      rw [tokens_data, List.filter_append, ← ih, List.filter_eq_self.mpr (by simp [Token.fails])]
      rfl
    | endOfFile => exact congrArg (Token.endOfFile :: ·) ih
    | failure e =>
      by_cases h : e.isInterrupted
      · rw [tokens_interrupted h]
        exact ih
      · rw [tokens_failed h]
        exact ih

/-- Streams that differ in failures have the same data to be read, since a failure holds none. -/
theorem unread_congr {s c : Stream} (h : c.tokens = s.tokens.filter fun t => !t.fails) :
    c.unread = s.unread := by
  rw [unread_eq_filterMap, unread_eq_filterMap, h, List.filterMap_filter]
  congr 1
  funext t
  cases t
  all_goals rfl

end Stream

/-- The second reader is told what the first is, without the failures. It need not read the
faultless stream itself, as what has been read is missing from both. -/
def ByteReader.Mended (r r' : ByteReader) : Prop :=
  r'.stream.tokens = r.stream.tokens.filter fun t => !t.fails

/-- A reader recovers: what it is told of a failure is the failure and nothing else. So the byte
behind it is there for the next read. -/
theorem ByteReader.answers_read {r r' : ByteReader} (h : r.Mended r') :
    Answers (fun r => r.stream.failures) Mended r r' (r.read : Except Fault (Cell w) × ByteReader)
      r'.read := by
  obtain ⟨s, hs, hrest⟩ := r.read_eq (w := w)
  obtain ⟨s', hs', hrest'⟩ := r'.read_eq (w := w)
  rw [Mended] at h
  rw [h] at hs' hrest'
  rw [hs, hs']
  have hle : s.failures ≤ r.stream.failures := by
    rw [Stream.failures, Stream.failures, hrest]
    exact (List.tail_sublist _).countP_le
  -- the first token is a failure, which the other reader is not told, or the first for both
  cases htokens : r.stream.tokens with
  | nil =>
    rw [htokens] at hrest hrest'
    exact .alike (hrest'.trans (by rw [hrest]; rfl)) hle
  | cons token rest =>
    rw [htokens] at hrest hrest'
    have halike (hsound : token.fails = false) : Mended ⟨s⟩ ⟨s'⟩ := by
      rw [List.filter_cons_of_pos (by rw [hsound]; rfl)] at hrest'
      exact hrest'.trans (by rw [hrest]; rfl)
    cases token with
    | byte b => exact .alike (halike rfl) hle
    | endOfFile => exact .alike (halike rfl) hle
    | failure e =>
      refine .fails ?_ ?_
      · rw [Mended, h, htokens, hrest]
        rfl
      · rw [Stream.failures, Stream.failures, hrest, htokens, List.countP_cons_of_pos rfl]
        exact Nat.lt_succ_self _

/-! ## Devices

What a device is going to do is on its two schedules. Without failures they may as well be empty. -/

/-- Whether writing a byte fails at the event. It does not fail when it is interrupted. -/
def WriteEvent.fails : WriteEvent → Bool
  | accept => false
  | refuse => true
  | fail e => !e.isInterrupted

/-- Whether flushing fails at the event, which it does also when it is interrupted. -/
def FlushEvent.fails : FlushEvent → Bool
  | succeed => false
  | fail _ => true

/-- A write that fails uses up one failure, and a write that is granted none: the interruptions that
it goes through are no failures, and the event that decides about it is one if it is an error. -/
theorem WriteEvent.countP_fails_eq (es : List WriteEvent) :
    es.countP fails =
      (remaining es).countP fails + if ((decisive es).bind error?).isSome then 1 else 0 := by
  induction es with
  | nil => rfl
  | cons event es ih =>
    cases event with
    | accept => simp [remaining, decisive, isInterruption, error?, fails]
    | refuse => simp [remaining, decisive, isInterruption, error?, fails, List.countP_cons]
    | fail e =>
      by_cases he : e.isInterrupted
      · have hinterruption : (fail e).isInterruption := he
        rw [List.countP_cons_of_neg (by rw [fails, he]; decide), ih, decisive, decisive, remaining,
          remaining, List.find?_cons_of_neg (by simpa using hinterruption),
          List.dropWhile_cons_of_pos hinterruption]
      · simp [remaining, decisive, isInterruption, error?, fails, he]

namespace ByteWriter

/-- How often writing and flushing fail. -/
def failures (o : ByteWriter) : Nat :=
  o.writes.countP WriteEvent.fails + o.flushes.countP FlushEvent.fails

/-- A writer to a device that has taken the same bytes and never fails. -/
def faultless (o : ByteWriter) : ByteWriter := ⟨o.written, [], []⟩

/-- The second writer is the first one without failures. It has taken the same bytes. -/
def Mended (o o' : ByteWriter) : Prop := o' = o.faultless

/-- A writer recovers: when it fails, the byte has not been written, and it can be written by the
next request. -/
theorem answers_write (c : Cell w) {o o' : ByteWriter} (h : o.Mended o') :
    Answers failures Mended o o' (o.write c) (o'.write c) := by
  cases h
  have hcount := WriteEvent.countP_fails_eq o.writes
  rw [write_eq c o]
  cases herror : (WriteEvent.decisive o.writes).bind WriteEvent.error? with
  | none =>
    rw [herror] at hcount
    exact .alike rfl (Nat.add_le_add_right (Nat.le_of_eq hcount.symm) _)
  | some e =>
    rw [herror] at hcount
    exact .fails rfl (Nat.add_lt_add_right (Nat.lt_of_succ_le (Nat.le_of_eq hcount.symm)) _)

/-- And so it does from a flush that fails, which delivers nothing anyway. -/
theorem answers_flush {o o' : ByteWriter} (h : o.Mended o') :
    Answers failures Mended o o' o.flush o'.flush := by
  cases h
  rcases o with ⟨written, writes, _ | ⟨_ | e, flushes⟩⟩
  · exact .alike rfl (Nat.le_refl _)
  · exact .alike rfl (by simp [failures, List.countP_cons])
  · exact .fails rfl (by simp [failures, List.countP_cons, FlushEvent.fails])

theorem Mended.flush_eq {o o' : ByteWriter} (h : o.Mended o') : o'.flush = (.ok (), o') := by
  cases h
  rfl

end ByteWriter

/-! ## Programs -/

/-- **Bytes.** Readers and writers of bytes recover from their failures, and the failures to come
are those of both. -/
theorem bytes_recover :
    Console.Recovers w (fun k : ByteReader × ByteWriter => k.1.stream.failures + k.2.failures)
      fun k l => k.1.Mended l.1 ∧ k.2.Mended l.2 :=
  Console.recovers_of_pair ByteReader.answers_read ByteWriter.answers_write
    ByteWriter.answers_flush ByteWriter.Mended.flush_eq

/-- Streams and devices without their failures are where the second run begins. -/
theorem mended_faultless (input : ByteReader) (output : ByteWriter) :
    input.Mended ⟨input.stream.faultless⟩ ∧ output.Mended output.faultless :=
  ⟨input.stream.tokens_faultless, rfl⟩

/-- A run ends otherwise than by a failure of the stream or the device if these have none. -/
theorem Program.Ends.ne_console_of_bytes {p : Program} {e : Engine w} {input : ByteReader}
    {output : ByteWriter} {outcome : Outcome} {u : Config (ByteReader × ByteWriter) w}
    (hends : p.Ends ⟨e, input, output⟩ outcome u) (hinput : input.stream.failures = 0)
    (houtput : output.failures = 0) (f : Fault) : outcome ≠ .error (.console f) := by
  have hsound : input.stream.failures + output.failures = 0 := by rw [hinput, houtput]
  exact hends.ne_console_of_sound (k := (input, output)) (l := (_, output.faultless)) bytes_recover
    (mended_faultless input output) hsound f

/-- **Failures lose nothing.** Take a stream and a device that fail at times, and a run that ends
without these failures. A program that reads the stream and writes to the device, and that is run
again whenever one of them fails, comes to an end as well, after no more further runs than there are
failures. It ends in the same way, on the same tape and at the same pointers; the device has taken
the same bytes, and the same bytes of the stream have not been read. -/
theorem Program.exists_endsAfter_of_ends_faultless (p : Program) (e : Engine w) (input : ByteReader)
    (output : ByteWriter) {outcome : Outcome} {u : Config (ByteReader × ByteWriter) w}
    (hends : p.Ends ⟨e, ⟨input.stream.faultless⟩, output.faultless⟩ outcome u) :
    ∃ n t, p.EndsAfter (κ := ByteReader × ByteWriter) ⟨e, input, output⟩ n outcome t ∧
      n ≤ input.stream.failures + output.failures ∧
      t.engine = u.engine ∧
      t.console.2.written = u.console.2.written ∧
      t.console.1.stream.unread = u.console.1.stream.unread := by
  obtain ⟨n, t, hafter, hn, hengine, hinput, houtput⟩ :=
    hends.exists_endsAfter (k := (input, output)) bytes_recover (mended_faultless input output)
  refine ⟨n, t, hafter, Nat.le_trans (Nat.le_add_right n _) hn, hengine, ?_, ?_⟩
  · rw [houtput]
    rfl
  · exact (Stream.unread_congr hinput).symm

/-- `,.` copies a byte. The stream would block before it gives the byte, and the device cannot be
flushed at first and refuses the byte once; this takes no more than three further runs. -/
theorem Program.exists_endsAfter_of_ends_faultless_copy :
    Ends (κ := ByteReader × ByteWriter) (w := 8) #[44, 46]
        ⟨.initial, ⟨[.data [65]]⟩, ⟨#[], [], []⟩⟩ (.ok ())
        ⟨⟨Tape.blank.set 0 65, 0, 2⟩, ⟨[.data []]⟩, ⟨#[65], [], []⟩⟩ ∧
      ∃ n t, EndsAfter (κ := ByteReader × ByteWriter) (w := 8) #[44, 46]
          ⟨.initial, ⟨[.failure (.plain .wouldBlock), .data [65]]⟩,
            ⟨#[], [.refuse], [.fail (.plain .interrupted)]⟩⟩ n (.ok ()) t ∧
        n ≤ 3 ∧ t.engine = ⟨Tape.blank.set 0 65, 0, 2⟩ ∧ t.console.2.written = #[65] ∧
        t.console.1.stream.unread = [] := by
  have hinput : Completes (κ := ByteReader × ByteWriter) (w := 8) #[44, 46]
      ⟨.initial, ⟨[.data [65]]⟩, ⟨#[], [], []⟩⟩
      ⟨⟨Tape.blank.set 0 65, 0, 1⟩, ⟨[.data []]⟩, ⟨#[], [], []⟩⟩ :=
    .input (by decide) rfl rfl
  have houtput : Completes (κ := ByteReader × ByteWriter) (w := 8) #[44, 46]
      ⟨⟨Tape.blank.set 0 65, 0, 1⟩, ⟨[.data []]⟩, ⟨#[], [], []⟩⟩
      ⟨⟨Tape.blank.set 0 65, 0, 2⟩, ⟨[.data []]⟩, ⟨#[65], [], []⟩⟩ :=
    .output (by decide) (by rw [Tape.get_set_self]; rfl)
  have hends := hinput.ends_iff.mpr (houtput.ends_iff.mpr (ends_of_size_le (by decide)))
  exact ⟨hends, exists_endsAfter_of_ends_faultless _ _
    ⟨[.failure (.plain .wouldBlock), .data [65]]⟩
    ⟨#[], [.refuse], [.fail (.plain .interrupted)]⟩ hends⟩

end TapeMachine
