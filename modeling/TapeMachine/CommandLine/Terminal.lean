import TapeMachine.Console
import TapeMachine.Text.Line

/-!
# Line-buffered output

Output collects in a buffer and goes to its device when a line is complete, when it is asked for,
and when the buffer is full. A device without space refuses everything that is sent to it, but the
buffer takes what fits, so such a device is only noticed when the buffer is sent.

On a device with space nothing is lost and nothing is reordered: what it has taken and what is
still in the buffer are together what has been written (`put_of_not_full`), and closing the output
sends the rest (`close_of_not_full`).
-/

namespace TapeMachine.CommandLine

/-- A line-buffered output. -/
structure Terminal where
  /-- the bytes that the device has taken -/
  delivered : Array UInt8
  /-- the bytes that are still to be sent -/
  buffer : Array UInt8
  /-- whether the device has no space -/
  full : Bool
deriving DecidableEq

namespace Terminal

/-- How many bytes the buffer holds. -/
def capacity : Nat := 1024

/-- An output to which nothing has been written. -/
def empty (full : Bool) : Terminal := ⟨#[], #[], full⟩

/-- Sends the buffer to the device, if there is anything in it. A device without space leaves it as
it is. -/
def flush (t : Terminal) : Except IoError Unit × Terminal :=
  if t.buffer.isEmpty then (.ok (), t)
  else if t.full then (.error (.system .noSpace), t)
  else (.ok (), { t with delivered := t.delivered ++ t.buffer, buffer := #[] })

/-- Adds a byte to the buffer, and sends it if the byte ends a line. -/
def append (t : Terminal) (b : UInt8) : Except IoError Unit × Terminal :=
  let t := { t with buffer := t.buffer.push b }
  if b = Text.newline then t.flush else (.ok (), t)

/-- Writes a byte, making room for it if the buffer is full. If there is no room to be made, the
byte is not taken. -/
def put (t : Terminal) (b : UInt8) : Except IoError Unit × Terminal :=
  if t.buffer.size < capacity then t.append b
  else
    match t.flush with
    | (.error e, t) => (.error e, t)
    | (.ok (), t) => t.append b

/-- Writes bytes one after another, up to the first that fails. -/
def putAll (t : Terminal) : List UInt8 → Except IoError Unit × Terminal
  | [] => (.ok (), t)
  | b :: bytes =>
    match t.put b with
    | (.error e, t) => (.error e, t)
    | (.ok (), t) => putAll t bytes

/-- What the device holds once the output is given up: the buffer is sent a last time, and it does
not matter whether that fails. -/
def close (t : Terminal) : Array UInt8 := t.flush.2.delivered

variable {w : Nat}

/-- A request of the output, with its error as a fault. -/
def asFault : Except IoError Unit × Terminal → Except Fault Unit × Terminal
  | (answer, t) => (answer.mapError .io, t)

instance : Sink Terminal w where
  write c t := asFault (t.put c.lowByte)
  flush t := asFault t.flush

/-! ## A device with space

What counts is the two parts together, in this order. Sending the buffer moves the line between
them. -/

/-- What has been written to an output that never failed. -/
def sent (t : Terminal) : Array UInt8 := t.delivered ++ t.buffer

/-- Sending the buffer moves bytes from the buffer to the device and keeps their order. -/
theorem flush_of_not_full {t : Terminal} (h : t.full = false) :
    t.flush.1 = .ok () ∧ t.flush.2.full = false ∧ t.flush.2.sent = t.sent := by
  unfold flush
  split
  · exact ⟨rfl, h, rfl⟩
  · simp [h, sent]

/-- A byte comes behind all others, whether it is sent at once or not. -/
theorem append_of_not_full {t : Terminal} (h : t.full = false) (b : UInt8) :
    (t.append b).1 = .ok () ∧ (t.append b).2.full = false ∧
      (t.append b).2.sent = t.sent.push b := by
  have hs : (Terminal.sent { t with buffer := t.buffer.push b }) = t.sent.push b := by
    simp only [sent, Array.push_append]
  unfold append
  dsimp only
  split
  · rw [← hs]
    exact flush_of_not_full h
  · exact ⟨rfl, h, hs⟩

/-- **Nothing is lost.** On a device with space every write succeeds and adds its byte. -/
theorem put_of_not_full {t : Terminal} (h : t.full = false) (b : UInt8) :
    (t.put b).1 = .ok () ∧ (t.put b).2.full = false ∧ (t.put b).2.sent = t.sent.push b := by
  unfold put
  split
  · exact append_of_not_full h b
  · obtain ⟨h₁, h₂, h₃⟩ := flush_of_not_full h
    cases hf : t.flush with
    | mk answer u =>
      rw [hf] at h₁ h₂ h₃
      cases h₁
      rw [← h₃]
      exact append_of_not_full h₂ b

/-- Closing an output on a device with space delivers everything. -/
theorem close_of_not_full {t : Terminal} (h : t.full = false) : t.close = t.sent := by
  unfold close flush sent
  split
  · next hb => simp [Array.isEmpty_iff.mp hb]
  · simp [h]

end Terminal

end TapeMachine.CommandLine
