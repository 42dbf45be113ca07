import TapeMachine.Output

/-!
# Devices that follow a schedule

A device has one schedule for writes and another one for flushes. A write is decided by the first
event that is not an interruption (`WriteEvent.decisive`), and takes the events through that one; a
flush is decided by one event, which may be an interruption. When a schedule has come to its end,
nothing fails any more.

* `ByteWriter.Serves` — what a device does with one request, in terms of its schedules;
* `ByteWriter.performEach` — many requests, which may differ in the width of their cells;
* `ByteWriter.delivered` — the bytes of those that were granted.

What the device has taken after many requests is what has been delivered by then: a byte is written
once or not at all (`ByteWriter.writes_once_or_not_at_all`).

A write that is interrupted is tried again by the writer itself, without anyone being told, and so
any number of events may go by for one request. A flush is not tried again. Everything about a
request follows from `WriteEvent.resolve_eq` and from the next event for flushes; many requests are
an induction over their list.
-/

namespace TapeMachine

variable {w : Nat}

theorem Cell.lowByte_eq (c : Cell w) :
    c.lowByte = UInt8.ofNatLT (c.toNat % 256) (Nat.mod_lt _ (by decide)) :=
  UInt8.toNat_inj.mp (by simp [lowByte])

/-! ## Schedules

A schedule is a list of events. An attempt takes one event, and a write makes as many attempts as
there are interruptions, and one more. -/

namespace WriteEvent

/-- Whether the attempt is interrupted, so that another one is made. -/
def isInterruption : WriteEvent → Bool
  | accept | refuse => false
  | fail e => e.isInterrupted

/-- The error that the attempt fails with. -/
def error? : WriteEvent → Option IoError
  | accept => none
  | refuse => some .refused
  | fail e => some e

/-- The event that decides about a write. -/
def decisive (es : List WriteEvent) : Option WriteEvent := es.find? (!·.isInterruption)

/-- The events that a write leaves. -/
def remaining (es : List WriteEvent) : List WriteEvent := (es.dropWhile (·.isInterruption)).tail

end WriteEvent

/-- The error that a flush fails with. -/
def FlushEvent.error? : FlushEvent → Option IoError
  | succeed => none
  | fail e => some e

/-- Success, or failure if there is an error. -/
def failingWith {ε : Type} : Option ε → Except ε Unit
  | none => .ok ()
  | some e => .error e

theorem failingWith_eq_ok_iff {ε : Type} {e : Option ε} : failingWith e = .ok () ↔ e = none := by
  cases e with
  | none => exact iff_of_true rfl rfl
  | some e => exact iff_of_false nofun nofun

@[simp] theorem WriteEvent.error?_eq_none_iff {event : WriteEvent} :
    event.error? = none ↔ event = .accept := by
  cases event with
  | accept => exact iff_of_true rfl rfl
  | refuse => exact iff_of_false nofun nofun
  | fail e => exact iff_of_false nofun nofun

@[simp] theorem FlushEvent.error?_eq_none_iff {event : FlushEvent} :
    event.error? = none ↔ event = .succeed := by
  cases event with
  | succeed => exact iff_of_true rfl rfl
  | fail e => exact iff_of_false nofun nofun

/-- **One write** ends as its decisive event says, and leaves the events after it. The induction
goes over the interruptions in front, as the attempts do. -/
theorem WriteEvent.resolve_eq (es : List WriteEvent) :
    resolve es = (failingWith ((decisive es).bind error?), remaining es) := by
  fun_induction resolve es with
  | case1 => rfl
  | case2 es => rfl
  | case3 es => rfl
  | case4 e es h ih =>
    have hinterruption : (fail e).isInterruption := h
    rw [ih, decisive, decisive, remaining, remaining,
      List.find?_cons_of_neg (by simpa using hinterruption),
      List.dropWhile_cons_of_pos hinterruption]
  | case5 e es h =>
    have hdecisive : ¬ (fail e).isInterruption := h
    rw [decisive, remaining, List.find?_cons_of_pos (by simpa using hdecisive),
      List.dropWhile_cons_of_neg hdecisive]
    rfl

/-! ## One request

The device is described by what it answers and by what is left of its schedules. -/

/-- The byte that reaches the device if the request is answered in this way. -/
def SinkRequest.delivered : SinkRequest w → Except Fault Unit → List UInt8
  | write c, .ok () => [UInt8.ofNatLT (c.toNat % 256) (Nat.mod_lt _ (by decide))]
  | write _, .error _ => []
  | flush, _ => []

namespace ByteWriter

/-- A device is asked to take a cell, gives an answer and is then another one. -/
structure Writes (o : ByteWriter) (answer : Except Fault Unit) (o' : ByteWriter) : Prop where
  /-- the answer is an error if the decisive event is one -/
  answer_eq : answer = failingWith (((WriteEvent.decisive o.writes).bind WriteEvent.error?).map .io)
  /-- it is granted exactly if the decisive event takes a byte, or there is none -/
  ok_iff : answer = .ok () ↔ ∀ event ∈ WriteEvent.decisive o.writes, event = .accept
  /-- interruptions and the decisive event are over -/
  writes : o'.writes = WriteEvent.remaining o.writes
  /-- nothing is flushed -/
  flushes : o'.flushes = o.flushes

/-- A device is asked to flush, gives an answer and is then another one. -/
structure Flushes (o : ByteWriter) (answer : Except Fault Unit) (o' : ByteWriter) : Prop where
  /-- the answer is an error if the next event is one, an interruption included -/
  answer_eq : answer = failingWith ((o.flushes.head?.bind FlushEvent.error?).map .io)
  /-- it is granted exactly if the next event is a success, or there is none -/
  ok_iff : answer = .ok () ↔ ∀ event ∈ o.flushes.head?, event = .succeed
  /-- one event is over -/
  flushes : o'.flushes = o.flushes.tail
  /-- nothing is written -/
  writes : o'.writes = o.writes

/-- What a device does with a request. -/
def Serves (o : ByteWriter) : SinkRequest w → Except Fault Unit → ByteWriter → Prop
  | .write _, answer, o' => o.Writes answer o'
  | .flush, answer, o' => o.Flushes answer o'

/-- A write takes the byte or fails, and uses up the same events in both cases. -/
theorem write_eq (c : Cell w) (o : ByteWriter) :
    o.write c = match (WriteEvent.decisive o.writes).bind WriteEvent.error? with
      | none => (.ok (), ⟨o.written.push c.lowByte, WriteEvent.remaining o.writes, o.flushes⟩)
      | some e => (.error (.io e), ⟨o.written, WriteEvent.remaining o.writes, o.flushes⟩) := by
  rw [write, WriteEvent.resolve_eq]
  cases (WriteEvent.decisive o.writes).bind WriteEvent.error?
  all_goals rfl

/-- A flush takes one event and nothing else. -/
theorem flush_eq (o : ByteWriter) :
    o.flush = (failingWith ((o.flushes.head?.bind FlushEvent.error?).map .io),
      ⟨o.written, o.writes, o.flushes.tail⟩) := by
  rcases o with ⟨written, writes, _ | ⟨_ | e, flushes⟩⟩
  all_goals rfl

/-- **One request** is served by the schedules, and delivers its byte if it is granted. -/
theorem serves_perform (o : ByteWriter) (r : SinkRequest w) :
    o.Serves r (Sink.perform o r).1 (Sink.perform o r).2 ∧
      (Sink.perform o r).2.written.toList =
        o.written.toList ++ r.delivered (Sink.perform o r).1 := by
  cases r with
  | write c =>
    have hwrite : Sink.perform o (.write c) = o.write c := rfl
    rw [hwrite, write_eq]
    cases herror : (WriteEvent.decisive o.writes).bind WriteEvent.error? with
    | none =>
      refine ⟨⟨by rw [herror]; rfl, ?_, rfl, rfl⟩, ?_⟩
      · simpa using herror
      · rw [Array.toList_push, Cell.lowByte_eq]
        rfl
    | some e =>
      refine ⟨⟨by rw [herror]; rfl, ?_, rfl, rfl⟩, (List.append_nil _).symm⟩
      -- a decisive event that takes the byte carries no error
      refine iff_of_false nofun fun haccept => ?_
      obtain ⟨event, hevent, hfails⟩ := Option.bind_eq_some_iff.mp herror
      rw [haccept event hevent] at hfails
      cases hfails
  | flush =>
    have hflush : Sink.perform o (.flush : SinkRequest w) = o.flush := rfl
    rw [hflush, flush_eq]
    refine ⟨⟨rfl, ?_, rfl, rfl⟩, (List.append_nil _).symm⟩
    rw [failingWith_eq_ok_iff]
    simp

/-! ## Many requests -/

/-- The answers of a device to requests in a row, each with cells of its own width. -/
def performEach (o : ByteWriter) :
    List ((w : Nat) × SinkRequest w) → List (Except Fault Unit) × ByteWriter
  | [] => ([], o)
  | ⟨_, r⟩ :: rs =>
    let (answer, o) := Sink.perform o r
    let (answers, o) := performEach o rs
    (answer :: answers, o)

/-- The bytes that reach the device if the requests are answered in this way. -/
def delivered (requests : List ((w : Nat) × SinkRequest w)) (answers : List (Except Fault Unit)) :
    List UInt8 :=
  (requests.zip answers).flatMap fun (⟨_, r⟩, answer) => r.delivered answer

/-- The first request is made to the device as it is, and the others to the device that it leaves.
-/
theorem performEach_cons (o : ByteWriter) (r : (w : Nat) × SinkRequest w)
    (rs : List ((w : Nat) × SinkRequest w)) :
    o.performEach (r :: rs) =
      ((Sink.perform o r.2).1 :: ((Sink.perform o r.2).2.performEach rs).1,
        ((Sink.perform o r.2).2.performEach rs).2) := rfl

/-- Requests can be made in two parts, the second to the device that the first has left. -/
theorem performEach_append (o : ByteWriter) (rs rs' : List ((w : Nat) × SinkRequest w)) :
    o.performEach (rs ++ rs') =
      ((o.performEach rs).1 ++ ((o.performEach rs).2.performEach rs').1,
        ((o.performEach rs).2.performEach rs').2) := by
  induction rs generalizing o with
  | nil => rfl
  | cons r rs ih => rw [List.cons_append, performEach_cons, performEach_cons, ih, List.cons_append]

theorem length_performEach (o : ByteWriter) (rs : List ((w : Nat) × SinkRequest w)) :
    (o.performEach rs).1.length = rs.length := by
  induction rs generalizing o with
  | nil => rfl
  | cons r rs ih => rw [performEach_cons, List.length_cons, List.length_cons, ih]

/-- **What has been written** is what the granted requests have delivered, behind what had been
written before. -/
theorem written_performEach (o : ByteWriter) (rs : List ((w : Nat) × SinkRequest w)) :
    (o.performEach rs).2.written.toList =
      o.written.toList ++ delivered rs (o.performEach rs).1 := by
  induction rs generalizing o with
  | nil => exact (List.append_nil _).symm
  | cons r rs ih =>
    obtain ⟨-, hwritten⟩ := o.serves_perform r.2
    rw [performEach_cons, ih, hwritten, List.append_assoc, delivered, delivered,
      List.zip_cons_cons, List.flatMap_cons]

/-- **Writing once or not at all.** Take any requests to a device, with cells of any width, and any
schedules. Every request is answered. The bytes that the device has taken are, in order, the values
modulo 256 of those cells for which a write has been granted.

Every request is served by the schedules as the requests before it have left them. A write goes
through interruptions to the next other event, and is granted exactly if that one takes the byte or
there is none; it leaves the schedule for flushes alone. A flush fails when it is interrupted, and
leaves the schedule for writes alone. -/
theorem writes_once_or_not_at_all (o : ByteWriter) (requests : List ((w : Nat) × SinkRequest w)) :
    (o.performEach requests).1.length = requests.length ∧
      (o.performEach requests).2.written.toList =
        o.written.toList ++ delivered requests (o.performEach requests).1 ∧
      ∀ (w : Nat) (r : SinkRequest w) (earlier later : List ((w : Nat) × SinkRequest w)),
        requests = earlier ++ ⟨w, r⟩ :: later →
          ∃ answer, (o.performEach requests).1[earlier.length]? = some answer ∧
            (o.performEach earlier).2.Serves r answer
              (o.performEach (earlier ++ [⟨w, r⟩])).2 := by
  refine ⟨o.length_performEach requests, o.written_performEach requests, ?_⟩
  rintro w r earlier later rfl
  obtain ⟨hserves, -⟩ := (o.performEach earlier).2.serves_perform r
  refine ⟨(Sink.perform (o.performEach earlier).2 r).1, ?_, ?_⟩
  · rw [performEach_append, ← o.length_performEach earlier,
      List.getElem?_append_right (Nat.le_refl _), Nat.sub_self]
    rfl
  · rw [performEach_append]
    exact hserves

/-- A write is interrupted and then refused, and the flush after it is interrupted. The cell of 32
bits with the value 321 is written when it is given again, as the byte 65; this takes the last event
that is left for writes. The cell of 8 bits after it finds none. -/
theorem writes_once_or_not_at_all_refused :
    (performEach ⟨#[], [.fail (.plain .interrupted), .refuse, .accept],
        [.fail (.plain .interrupted)]⟩
        [⟨32, .write 0x141⟩, ⟨8, .flush⟩, ⟨32, .write 0x141⟩, ⟨8, .write 66⟩]).1 =
        [.error (.io .refused), .error (.io (.plain .interrupted)), .ok (), .ok ()] ∧
      (performEach ⟨#[], [.fail (.plain .interrupted), .refuse, .accept],
        [.fail (.plain .interrupted)]⟩
        [⟨32, .write 0x141⟩, ⟨8, .flush⟩, ⟨32, .write 0x141⟩, ⟨8, .write 66⟩]).2.written.toList =
        [65, 66] ∧
      Writes ⟨#[], [.accept], []⟩ (.ok ()) ⟨#[65], [], []⟩ := by
  obtain ⟨-, hwritten, hserves⟩ := writes_once_or_not_at_all
    ⟨#[], [.fail (.plain .interrupted), .refuse, .accept], [.fail (.plain .interrupted)]⟩
    [⟨32, .write 0x141⟩, ⟨8, .flush⟩, ⟨32, .write 0x141⟩, ⟨8, .write 66⟩]
  refine ⟨rfl, hwritten, ?_⟩
  obtain ⟨_, ⟨⟩, hwrites⟩ := hserves 32 (.write 0x141) [⟨32, .write 0x141⟩, ⟨8, .flush⟩]
    [⟨8, .write 66⟩] rfl
  exact hwrites

end ByteWriter

end TapeMachine
