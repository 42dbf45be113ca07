import TapeMachine.Console

/-!
# Sinks of cells

Two ways to take what the output instruction produces. `ByteWriter` writes the low byte of each cell
to a device whose behaviour follows a schedule; `Collector` keeps whole cells and never fails.

A write that is interrupted is tried again at once, so it either delivers its byte or fails without
delivering anything. An interrupted flush is a failed flush.

The device is part of the writer here, as what it has taken and what it is going to do. That makes
the whole future of a run a function of its beginning, and a device that never fails is one with
empty schedules.
-/

namespace TapeMachine

/-- What a device does with an attempt to write one byte. -/
inductive WriteEvent where
  /-- it takes the byte -/
  | accept
  /-- it takes no byte and reports no error -/
  | refuse
  /-- it fails, taking nothing -/
  | fail (error : IoError)
deriving DecidableEq

/-- What a device does with an attempt to flush it. -/
inductive FlushEvent where
  | succeed
  | fail (error : IoError)
deriving DecidableEq

/-- Writes the low byte of each cell to a device. -/
structure ByteWriter where
  /-- the bytes that the device took -/
  written : Array UInt8
  /-- what it does with the next attempts to write; afterwards it takes every byte -/
  writes : List WriteEvent
  /-- what it does with the next attempts to flush; afterwards they all succeed -/
  flushes : List FlushEvent

/-- Keeps every cell it is given. -/
structure Collector (w : Nat) where
  /-- the cells so far, the earliest first -/
  cells : Array (Cell w)
deriving DecidableEq

variable {w : Nat}

/-- The error of a device that takes no bytes without saying why. -/
def IoError.refused : IoError := .described .writeZero "failed to write whole buffer"

/-- The outcome of writing one byte, with the events that are left. Interruptions are gone through
here, so they are never seen outside. -/
def WriteEvent.resolve : List WriteEvent → Except IoError Unit × List WriteEvent
  | [] => (.ok (), [])
  | .accept :: es => (.ok (), es)
  | .refuse :: es => (.error .refused, es)
  | .fail e :: es => if e.isInterrupted then resolve es else (.error e, es)

namespace ByteWriter

/-- A writer to a device that never fails. -/
def reliable : ByteWriter := ⟨#[], [], []⟩

/-- Writes the low byte of a cell. If that fails, the device has taken nothing. -/
def write (c : Cell w) (o : ByteWriter) : Except Fault Unit × ByteWriter :=
  match WriteEvent.resolve o.writes with
  | (.ok (), es) => (.ok (), { o with written := o.written.push c.lowByte, writes := es })
  | (.error e, es) => (.error (.io e), { o with writes := es })

/-- Flushes the device. -/
def flush (o : ByteWriter) : Except Fault Unit × ByteWriter :=
  match o.flushes with
  | [] => (.ok (), o)
  | .succeed :: es => (.ok (), { o with flushes := es })
  | .fail e :: es => (.error (.io e), { o with flushes := es })

end ByteWriter

namespace Collector

/-- A collector that holds nothing yet. -/
def empty : Collector w := ⟨#[]⟩

/-- Adds a cell. -/
def write (c : Cell w) (o : Collector w) : Except Fault Unit × Collector w :=
  (.ok (), ⟨o.cells.push c⟩)

end Collector

instance : Sink ByteWriter w := ⟨ByteWriter.write, ByteWriter.flush⟩

instance : Sink (Collector w) w := ⟨Collector.write, fun o => (.ok (), o)⟩

end TapeMachine
