import TapeMachine.Proofs.Console.Protocol
import TapeMachine.Proofs.Console.Queue
import TapeMachine.Proofs.Retry.Bytes

/-!
# Bytes and cells

A program can be given bytes, from a stream that delivers them in any way and to a device that takes
them, or it can be given the same bytes as cells, in a queue and with a collector. The difference is
what happens when there is nothing more: the stream goes on with zeros, and the queue has as many
zeros at its end as one has put there.

Such a queue answers as the stream does for as long as it is not empty (`follows_alongside`), and a
run that ends reads only so much. So both ways have the same endings (`bytes_agree_with_cells`).

The invariant of the two runs is `Alongside`: as many cells have been taken from the queue as reads
are on the list of the recorder, and as many bytes from the stream, unless it had fewer. From cells
to bytes this is followed forwards. From bytes to cells the run is given a queue with more zeros
than it reads; so the run on cells cannot end by finding the queue empty, nor can it go on after the
run on bytes has ended.
-/

namespace TapeMachine

variable {w : Nat}

/-! ## Streams that deliver

Such a stream has no failures and no end before the last byte. After that it is at its end for ever.
-/

/-- Whether the event is neither an end of the file nor a failure that a reader is told of. An
interruption is a failure, but a reader tries again without telling anyone. -/
def StreamEvent.isDelivery : StreamEvent → Bool
  | data _ => true
  | endOfFile => false
  | failure e => e.isInterrupted

/-- The stream holds the given bytes, in chunks of any size, and interruptions. -/
structure Stream.Delivers (s : Stream) (bytes : List UInt8) : Prop where
  /-- the bytes in the order in which they arrive -/
  data : s.unread = bytes
  /-- nothing else but interruptions -/
  only : ∀ event ∈ s, event.isDelivery

/-- What arrives are the bytes and nothing else. Chunks and interruptions leave no trace in what a
reader sees. -/
theorem Stream.Delivers.tokens_eq {s : Stream} {bytes : List UInt8} (h : s.Delivers bytes) :
    s.tokens = bytes.map .byte := by
  obtain ⟨rfl, only⟩ := h
  induction s with
  | nil => rfl
  | cons event s ih =>
    have hs := ih fun event hevent => only event (List.mem_cons_of_mem _ hevent)
    have hevent := only event List.mem_cons_self
    rw [unread, List.flatMap_cons, List.map_append, ← unread, ← hs]
    cases event with
    | data bytes => rfl
    | endOfFile => cases hevent
    | failure e => exact tokens_interrupted hevent s

/-- The bytes that are still in a stream can be read off what arrives. -/
theorem Stream.unread_of_tokens_eq {s : Stream} {bytes : List UInt8}
    (h : s.tokens = bytes.map .byte) : s.unread = bytes := by
  rw [unread_eq_filterMap, h, List.filterMap_map]
  exact List.filterMap_some

/-! ## Devices that take every byte -/

namespace ByteWriter

variable {o : ByteWriter}

/-- A writer without failures flushes, and stays without failures. It does so after interruptions,
too, which the faultless writer does not have. -/
theorem flush_of_sound (h : o.failures = 0) :
    ∃ o', o.flush = (.ok (), o') ∧ o'.failures = 0 ∧ o'.written = o.written := by
  have hanswers : Answers failures Mended o o.faultless o.flush o.faultless.flush :=
    answers_flush rfl
  obtain ⟨_, o', l, hflush, hfaultless, hmended, hsound⟩ := hanswers.of_sound h
  cases hfaultless
  exact ⟨o', hflush, hsound, (congrArg written hmended).symm⟩

/-- And it writes the lowest byte of every cell. -/
theorem write_of_sound (c : Cell w) (h : o.failures = 0) :
    ∃ o', o.write c = (.ok (), o') ∧ o'.failures = 0 ∧
      o'.written = o.written.push c.lowByte := by
  have hanswers : Answers failures Mended o o.faultless (o.write c) (o.faultless.write c) :=
    answers_write c rfl
  obtain ⟨_, o', l, hwrite, hfaultless, hmended, hsound⟩ := hanswers.of_sound h
  cases hfaultless
  exact ⟨o', hwrite, hsound, (congrArg written hmended).symm⟩

end ByteWriter

/-! ## Bytes next to cells

The queue shrinks by one cell with each read. The stream shrinks by one byte, until it has none and
gives zeros. -/

/-- Bytes as cells, followed by zeros. -/
def Cell.ofBytes (bytes : List UInt8) (zeros : Nat) : List (Cell w) :=
  bytes.map Cell.ofByte ++ List.replicate zeros 0

/-- Whether the request is one for a cell. -/
def Call.isRead : Call w → Bool
  | read _ => true
  | flush _ | write _ _ => false

/-- How often the console has been asked for a cell. -/
def Recorder.reads {κ : Type} (k : Recorder κ w) : Nat := k.calls.toList.countP Call.isRead

theorem Recorder.reads_listing_append {κ : Type} (calls : List (Call w)) (call : Call w) (k l : κ) :
    (listing (calls ++ [call]) l).reads =
      (listing calls k).reads + if call.isRead then 1 else 0 := by
  rw [reads, reads, listing, listing, List.countP_append, List.countP_singleton]

/-- How a queue stands next to a stream, and a collector next to a device, when the same has been
read from both and the same written. The first have been given the bytes and some zeros as cells.
Everything is measured by the number of reads, which the recorder has counted. -/
structure Alongside (bytes : List UInt8) (zeros : Nat) (taken : Array UInt8)
    (k : Queue w × Collector w) (l : Recorder (ByteReader × ByteWriter) w) : Prop where
  /-- the queue has lost as many cells as have been asked for -/
  cells : k.1.cells = (Cell.ofBytes bytes zeros).drop l.reads
  /-- the stream has lost as many bytes, if it had so many -/
  tokens : l.console.1.stream.tokens = (bytes.drop l.reads).map .byte
  /-- the device does not fail -/
  sound : l.console.2.failures = 0
  /-- the device has taken the lowest byte of every cell -/
  written : l.console.2.written = taken ++ k.2.cells.map Cell.lowByte

/-- The first of the cells that are left is that of the next byte, or zero. Behind the bytes there
is nothing but zeros, so it does not matter how many have been taken. -/
theorem Cell.drop_ofBytes {bytes : List UInt8} {zeros i : Nat} {c : Cell w} {cs : List (Cell w)}
    (h : (ofBytes bytes zeros).drop i = c :: cs) :
    c = ((bytes.drop i).head?.map ofByte).getD 0 ∧ (ofBytes bytes zeros).drop (i + 1) = cs := by
  refine ⟨?_, ?_⟩
  · rw [ofBytes, List.drop_append, ← List.map_drop] at h
    cases hrest : bytes.drop i with
    | nil =>
      rw [hrest, List.map_nil, List.nil_append, List.drop_replicate] at h
      have hmem : c ∈ List.replicate (zeros - (i - (bytes.map (ofByte (w := w))).length)) 0 := by
        rw [h]
        exact List.mem_cons_self
      exact List.eq_of_mem_replicate hmem
    | cons b rest =>
      rw [hrest, List.map_cons, List.cons_append] at h
      cases h
      rfl
  · rw [← List.tail_drop, h, List.tail_cons]

/-- Bytes that are zero are zeros. So it makes no difference if they are delivered or put behind. -/
theorem Cell.ofBytes_append_replicate (bytes : List UInt8) (m n : Nat) :
    (ofBytes (bytes ++ List.replicate m 0) n : List (Cell w)) = ofBytes bytes (m + n) := by
  have hzero : (ofByte 0 : Cell w) = 0 := rfl
  rw [ofBytes, ofBytes, List.map_append, List.map_replicate, hzero, List.append_assoc,
    List.replicate_append_replicate]

/-- A stream that has bytes left gives the next of them, and one that has none gives zero. -/
theorem ByteReader.read_of_tokens_eq {r : ByteReader} {bytes : List UInt8}
    (h : r.stream.tokens = bytes.map .byte) :
    ∃ s : Stream, (r.read : Except Fault (Cell w) × ByteReader) =
        (.ok ((bytes.head?.map Cell.ofByte).getD 0), ⟨s⟩) ∧
      s.tokens = bytes.tail.map .byte := by
  obtain ⟨s, hread, hrest⟩ := r.read_eq (w := w)
  rw [h] at hread hrest
  refine ⟨s, ?_, hrest.trans List.map_tail.symm⟩
  rw [hread]
  cases bytes
  all_goals rfl

/-- A queue with zeros at its end answers as the stream does while it is not empty. -/
theorem follows_alongside (bytes : List UInt8) (zeros : Nat) (taken : Array UInt8) :
    Console.Follows w (Alongside (w := w) bytes zeros taken) where
  -- flushing and writing concern the device, and put no read on the list
  flush := by
    rintro ⟨q, out⟩ ⟨⟨r, o⟩, ⟨calls⟩⟩ h x k ⟨⟩
    obtain ⟨o', hflush, hsound, htaken⟩ := ByteWriter.flush_of_sound h.sound
    have hflush' : Console.flush w (r, o) = (.ok (), r, o') := by
      simp only [Console.flush, Sink.flush, hflush]
    have hreads := Recorder.reads_listing_append calls (.flush (.ok ())) (r, o) (r, o')
    refine ⟨_, Recorder.flush_listing calls hflush', ?_, ?_, hsound, htaken.trans h.written⟩
    · rw [hreads]
      exact h.cells
    · rw [hreads]
      exact h.tokens
  -- a read takes a cell from the queue and the byte of it, if there is one, from the stream
  read := by
    rintro ⟨⟨_ | ⟨c, cs⟩⟩, out⟩ ⟨⟨r, o⟩, ⟨calls⟩⟩ h x k hread
    · cases hread
    · cases hread
      obtain ⟨hfirst, hcells⟩ := Cell.drop_ofBytes h.cells.symm
      obtain ⟨s, hread, htokens⟩ := ByteReader.read_of_tokens_eq (w := w) h.tokens
      have hread' : Console.read (r, o) = (.ok c, ⟨s⟩, o) := by
        rw [← hfirst] at hread
        simp only [Console.read, Source.read, hread]
      have hreads := Recorder.reads_listing_append calls (.read (.ok c)) (r, o) (⟨s⟩, o)
      refine ⟨_, Recorder.read_listing calls hread', ?_, ?_, h.sound, h.written⟩
      · rw [hreads]
        exact hcells.symm
      · rw [hreads]
        exact htokens.trans (congrArg _ List.tail_drop)
  write := by
    rintro c ⟨q, out⟩ ⟨⟨r, o⟩, ⟨calls⟩⟩ h x k ⟨⟩
    obtain ⟨o', hwrite, hsound, htaken⟩ := ByteWriter.write_of_sound c h.sound
    have hwrite' : Console.write c (r, o) = (.ok (), r, o') := by
      simp only [Console.write, Sink.write, hwrite]
    have hreads := Recorder.reads_listing_append calls (.write c (.ok ())) (r, o) (r, o')
    refine ⟨_, Recorder.write_listing calls hwrite', ?_, ?_, hsound, ?_⟩
    · rw [hreads]
      exact h.cells
    · rw [hreads]
      exact h.tokens
    · change o'.written = _
      have hwritten : o.written = taken ++ out.cells.map Cell.lowByte := h.written
      rw [htaken, hwritten]
      simp

/-! ## Runs on bytes and runs on cells -/

/-- An engine that reads bytes from a stream and writes bytes to a device. -/
def Engine.connected (e : Engine w) (input : Stream) (output : ByteWriter) :
    Config (ByteReader × ByteWriter) w :=
  ⟨e, ⟨input⟩, output⟩

/-- What a run on bytes leaves, next to what a run on the same bytes as cells leaves. -/
structure Agrees (bytes : List UInt8) (taken : Array UInt8) (u : Config (Queue w × Collector w) w)
    (t : Config (Recorder (ByteReader × ByteWriter) w) w) : Prop where
  /-- the same tape and the same pointers -/
  engine : t.engine = u.engine
  /-- the device has taken the lowest byte of every cell that was collected -/
  written : t.console.console.2.written = taken ++ u.console.2.cells.map Cell.lowByte
  /-- every read has taken one byte from the stream -/
  unread : t.console.console.1.stream.unread = bytes.drop t.console.reads

theorem Alongside.agrees {bytes : List UInt8} {zeros : Nat} {taken : Array UInt8} {e : Engine w}
    {k : Queue w × Collector w} {l : Recorder (ByteReader × ByteWriter) w}
    (h : Alongside bytes zeros taken k l) : Agrees bytes taken ⟨e, k⟩ ⟨e, l⟩ where
  engine := rfl
  written := h.written
  unread := Stream.unread_of_tokens_eq h.tokens

namespace Program

variable {p : Program} {e e' : Engine w} {bytes : List UInt8} {input : Stream}
  {output : ByteWriter} {written : Array UInt8} {zeros : Nat} {outcome : Outcome}
  {u : Config (Queue w × Collector w) w} {t : Config (Recorder (ByteReader × ByteWriter) w) w}

/-- What has been read has been read: a run only adds to the list, and so to the reads on it. -/
theorem Ends.reads_le {κ : Type} [Console κ w] {s u : Config (Recorder κ w) w}
    (h : p.Ends s outcome u) : s.console.reads ≤ u.console.reads := by
  have hlisted : p.Ends (Config.recording s.console.calls.toList ⟨s.engine, s.console.console⟩)
      outcome u := h
  obtain ⟨t, more, -, rfl⟩ := hlisted.of_recording
  exact (List.sublist_append_left _ more).countP_le

section Delivers

variable (hinput : input.Delivers bytes) (houtput : output.failures = 0)
include hinput houtput

/-- At the beginning nothing has been read or written. -/
theorem alongside_start (zeros : Nat) :
    Alongside (w := w) bytes zeros output.written (⟨Cell.ofBytes bytes zeros⟩, .empty)
      (.start (⟨input⟩, output)) where
  cells := rfl
  tokens := hinput.tokens_eq
  sound := houtput
  written := by
    change output.written = output.written ++ #[].map Cell.lowByte
    rw [Array.map_empty, Array.append_empty]

/-- **From cells to bytes.** A run that does not find the queue empty is followed by one on bytes,
since every answer of the queue is one that the stream gives too. -/
theorem Ends.exists_agrees (h : p.Ends (e.supplied (Cell.ofBytes bytes zeros) .empty) outcome u)
    (hanswered : outcome ≠ .error (.console .inputExhausted)) :
    ∃ t, p.Ends ((e.connected input output).recording []) outcome t ∧
      Agrees bytes output.written u t := by
  obtain ⟨-, l, hl, hrel⟩ | ⟨f, k, l, rfl, hf, -⟩ :=
    h.followed_cases (follows_alongside bytes zeros output.written)
      (alongside_start hinput houtput zeros)
  · exact ⟨_, hl, hrel.agrees⟩
  · obtain ⟨rfl, -, -⟩ := hf.of_queue
    exact absurd rfl hanswered

/-- **From bytes to cells.** A run on bytes follows one on cells that has enough zeros in its queue.
That run ends, because the other one does, and finds no empty queue. -/
theorem Ends.exists_agrees_of_bytes
    (h : p.Ends ((e.connected input output).recording []) outcome t) :
    ∃ zeros u, p.Ends (e.supplied (Cell.ofBytes bytes zeros) .empty) outcome u ∧
      (∀ f, outcome ≠ .error (.console f)) ∧ Agrees bytes output.written u t := by
  -- one more than the run reads
  let zeros := t.console.reads + 1
  have hfollows := follows_alongside (w := w) bytes zeros output.written
  have hstart := alongside_start (w := w) hinput houtput zeros
  by_cases hends : ∃ outcome' u,
      p.Ends (e.supplied (Cell.ofBytes bytes zeros) .empty) outcome' u
  · obtain ⟨outcome', u, hu⟩ := hends
    obtain ⟨hanswered, l, hl, hrel⟩ | ⟨f, k, l, rfl, hf, hreach, hrel⟩ :=
      hu.followed_cases hfollows hstart
    · obtain ⟨rfl, rfl⟩ := hl.unique h
      exact ⟨zeros, u, hu, hanswered, hrel.agrees⟩
    · -- the queue cannot be empty before the end of the run
      obtain ⟨-, hempty, -⟩ := hf.of_queue
      have hlength := List.drop_eq_nil_iff.mp (hrel.cells.symm.trans hempty)
      rw [Cell.ofBytes, List.length_append, List.length_replicate] at hlength
      have hreads : l.reads ≤ t.console.reads := (hreach.ends_iff.mp h).reads_le
      have hzeros : zeros = t.console.reads + 1 := rfl
      omega
  · -- a run on cells that went on for ever would be followed by one on bytes that does
    obtain ⟨n, hn⟩ := h
    simp only [not_exists] at hends
    obtain ⟨u, hu⟩ := forall_not_ends_iff.mp hends n
    obtain ⟨l, hl, -⟩ := run_followed hfollows hstart hu
    cases hl.symm.trans hn

/-- What a run on bytes does, some run on cells does, and the other way round. The stream is only
mentioned on one side, so that two streams can be compared through the cells. -/
theorem exists_ends_bytes_iff :
    (∃ t, p.Ends (e.connected input output) outcome t ∧
        t.engine = e' ∧ t.console.2.written = written) ↔
      ∃ zeros u, p.Ends (e.supplied (Cell.ofBytes bytes zeros) .empty) outcome u ∧
        (∀ f, outcome ≠ .error (.console f)) ∧ u.engine = e' ∧
        output.written ++ u.console.2.cells.map Cell.lowByte = written := by
  refine ⟨?_, ?_⟩
  · rintro ⟨t, ht, rfl, rfl⟩
    obtain ⟨calls, hcalls⟩ := ht.recording []
    obtain ⟨zeros, u, hu, hanswered, hagrees⟩ := hcalls.exists_agrees_of_bytes hinput houtput
    exact ⟨zeros, u, hu, hanswered, hagrees.engine.symm, hagrees.written.symm⟩
  · rintro ⟨zeros, u, hu, hanswered, rfl, rfl⟩
    obtain ⟨t, ht, hagrees⟩ := hu.exists_agrees hinput houtput (hanswered _)
    obtain ⟨t, calls, hplain, rfl⟩ := ht.of_recording
    exact ⟨t, hplain, hagrees.engine, hagrees.written⟩

/-- **Bytes and cells.** A program is given bytes by a stream that delivers them in chunks of any
size and with any interruptions, and writes to a device that never fails. Or it is given the bytes
as cells in a queue, with zeros behind them, and writes to a collector.

If the second run ends without having found its queue empty, the first ends with the same outcome,
tape and pointers; the device has taken the lowest byte of every cell in the collector, and the
bytes that have not been read are all but one for each read. If the first run ends, then so does the
second for some number of zeros.

So the end of the stream cannot be told from zeros, however many of them it delivers. -/
theorem bytes_agree_with_cells (p : Program) (e : Engine w) :
    (∀ zeros outcome u, p.Ends (e.supplied (Cell.ofBytes bytes zeros) .empty) outcome u →
      outcome ≠ .error (.console .inputExhausted) →
        ∃ t, p.Ends ((e.connected input output).recording []) outcome t ∧
          Agrees bytes output.written u t) ∧
    (∀ outcome t, p.Ends ((e.connected input output).recording []) outcome t →
      ∃ zeros u, p.Ends (e.supplied (Cell.ofBytes bytes zeros) .empty) outcome u ∧
        outcome ≠ .error (.console .inputExhausted) ∧ Agrees bytes output.written u t) ∧
    ∀ zeros input', Stream.Delivers input' (bytes ++ List.replicate zeros 0) →
      ∀ outcome e' written,
        (∃ t, p.Ends (e.connected input output) outcome t ∧
            t.engine = e' ∧ t.console.2.written = written) ↔
          ∃ t, p.Ends (e.connected input' output) outcome t ∧
            t.engine = e' ∧ t.console.2.written = written := by
  refine ⟨?_, ?_, ?_⟩
  · intro zeros outcome u hu hanswered
    exact hu.exists_agrees hinput houtput hanswered
  · intro outcome t ht
    obtain ⟨zeros, u, hu, hanswered, hagrees⟩ := ht.exists_agrees_of_bytes hinput houtput
    exact ⟨zeros, u, hu, hanswered _, hagrees⟩
  · intro zeros input' hinput' outcome e' written
    rw [exists_ends_bytes_iff hinput houtput, exists_ends_bytes_iff hinput' houtput]
    refine ⟨?_, ?_⟩
    · rintro ⟨n, u, hu, hanswered, hstate⟩
      -- the zeros that the stream delivers stand behind those of the queue
      have hlonger := hu.extended (List.replicate zeros 0) hanswered
      rw [Cell.ofBytes, List.append_assoc, List.replicate_append_replicate, Nat.add_comm,
        ← Cell.ofBytes, ← Cell.ofBytes_append_replicate] at hlonger
      exact ⟨n, _, hlonger, hanswered, hstate⟩
    · rintro ⟨n, u, hu, hanswered, hstate⟩
      rw [Cell.ofBytes_append_replicate] at hu
      exact ⟨zeros + n, u, hu, hanswered, hstate⟩

end Delivers

/-- `,,.` reads a byte and then past the end, and writes what it has found there. The stream is
interrupted first, and so is the device. -/
theorem bytes_agree_with_cells_past_end :
    Stream.Delivers [.failure (.plain .interrupted), .data [65]] [65] ∧
      ByteWriter.failures ⟨#[], [.fail (.plain .interrupted)], []⟩ = 0 ∧
      Ends #[44, 44, 46] (Engine.supplied (.initial : Engine 8) (Cell.ofBytes [65] 1) .empty)
        (.ok ()) (Engine.supplied ⟨(Tape.blank.set 0 65).set 0 0, 0, 3⟩ [] ⟨#[0]⟩) ∧
      ∃ t,
        Ends #[44, 44, 46]
          ((Engine.connected (.initial : Engine 8) [.failure (.plain .interrupted), .data [65]]
            ⟨#[], [.fail (.plain .interrupted)], []⟩).recording []) (.ok ()) t ∧
        Agrees [65] #[] (Engine.supplied ⟨(Tape.blank.set 0 65).set 0 0, 0, 3⟩ [] ⟨#[0]⟩) t := by
  have hinput : Stream.Delivers [.failure (.plain .interrupted), .data [65]] [65] :=
    ⟨rfl, by decide⟩
  have houtput : ByteWriter.failures ⟨#[], [.fail (.plain .interrupted)], []⟩ = 0 := by decide
  have hread : Completes #[44, 44, 46]
      (Engine.supplied (.initial : Engine 8) (Cell.ofBytes [65] 1) .empty)
      (Engine.supplied ⟨Tape.blank.set 0 65, 0, 1⟩ [0] .empty) := .input (by decide) rfl rfl
  have hpast : Completes #[44, 44, 46]
      (Engine.supplied (⟨Tape.blank.set 0 65, 0, 1⟩ : Engine 8) [0] .empty)
      (Engine.supplied ⟨(Tape.blank.set 0 65).set 0 0, 0, 2⟩ [] .empty) :=
    .input (by decide) rfl rfl
  have hwrite : Completes #[44, 44, 46]
      (Engine.supplied (⟨(Tape.blank.set 0 65).set 0 0, 0, 2⟩ : Engine 8) [] .empty)
      (Engine.supplied ⟨(Tape.blank.set 0 65).set 0 0, 0, 3⟩ [] ⟨#[0]⟩) :=
    .output (by decide) (by rw [Tape.get_set_self]; rfl)
  have hends := hread.ends_iff.mpr
    (hpast.ends_iff.mpr (hwrite.ends_iff.mpr (ends_of_size_le (by decide))))
  obtain ⟨hbytes, -, -⟩ := bytes_agree_with_cells hinput houtput #[44, 44, 46] .initial
  exact ⟨hinput, houtput, hends, hbytes 1 _ _ hends (by decide)⟩

end Program

end TapeMachine
