import Mathlib.Logic.Relation
import TapeMachine.Input

/-!
# What readers are told of a stream

Readers do not see where the data of a stream is cut into chunks, nor are they told of interruptions
and of chunks without bytes. Two streams that differ in such places only are `Stream.Equivalent`.
That is the case exactly if they have the same tokens (`Stream.equivalent_iff`), so that nothing but
the tokens has to be looked at.

The data of a stream is what its tokens hold of it (`Stream.unread_eq_filterMap`).

`Equivalent` is defined by changes that can be made to a stream, and not by tokens, so that it says
something by itself about what may be different. That tokens are enough is shown by taking a stream
apart into its tokens (`equivalent_map_event`), which makes all equivalent streams the same.
-/

namespace TapeMachine.Stream

variable {w : Nat} {s s' t : Stream} {e : IoError}

/-! ## Tokens -/

/-- The byte that the reader is told. -/
def Token.byte? : Token → Option UInt8
  | byte b => some b
  | _ => none

/-- What a reader of cells is told: a byte as a cell, an end of the file as zero, and a failure as a
fault. -/
def Token.cell : Token → Except Fault (Cell w)
  | byte b => .ok (Cell.ofByte b)
  | endOfFile => .ok 0
  | failure e => .error (.io e)

@[simp] theorem tokens_data (bytes : List UInt8) (s : Stream) :
    tokens (.data bytes :: s) = bytes.map .byte ++ s.tokens := rfl

@[simp] theorem tokens_endOfFile (s : Stream) :
    tokens (.endOfFile :: s) = .endOfFile :: s.tokens := rfl

theorem tokens_failure (e : IoError) (s : Stream) :
    tokens (.failure e :: s) = (if e.isInterrupted then [] else [.failure e]) ++ s.tokens := rfl

@[simp] theorem tokens_interrupted (h : e.isInterrupted) (s : Stream) :
    tokens (.failure e :: s) = s.tokens := by
  rw [tokens_failure, if_pos h, List.nil_append]

@[simp] theorem tokens_failed (h : ¬ e.isInterrupted) (s : Stream) :
    tokens (.failure e :: s) = .failure e :: s.tokens := by
  rw [tokens_failure, if_neg h, List.singleton_append]

@[simp] theorem tokens_append (s t : Stream) : tokens (s ++ t) = s.tokens ++ t.tokens :=
  List.flatMap_append

/-- The data is what the tokens hold of it, event by event. -/
theorem unread_eq_filterMap (s : Stream) : s.unread = s.tokens.filterMap Token.byte? := by
  induction s with
  | nil => rfl
  | cons event s ih =>
    rw [unread, List.flatMap_cons, ← unread, ih]
    cases event with
    | data bytes =>
      rw [tokens_data, List.filterMap_append, List.filterMap_map]
      exact congrArg (· ++ _) List.filterMap_some.symm
    | endOfFile => rfl
    | failure e =>
      by_cases h : e.isInterrupted
      · rw [tokens_interrupted h]
        rfl
      · rw [tokens_failed h]
        rfl

/-! ## Cutting and interrupting -/

/-- One stream becomes the other by a change that no reader is told of. -/
inductive Recut : Stream → Stream → Prop
  /-- a chunk of data is cut in two -/
  | cut (before after : Stream) (a b : List UInt8) :
      Recut (before ++ .data (a ++ b) :: after) (before ++ .data a :: .data b :: after)
  /-- a chunk without bytes is added -/
  | empty (before after : Stream) : Recut (before ++ after) (before ++ .data [] :: after)
  /-- an interruption is added -/
  | interruption (before after : Stream) {e : IoError} (interrupted : e.isInterrupted) :
      Recut (before ++ after) (before ++ .failure e :: after)

/-- The streams become each other by cutting and joining chunks of data, and by adding and taking
away chunks without bytes and interruptions. -/
def Equivalent : Stream → Stream → Prop := Relation.EqvGen Recut

theorem Recut.cons (h : Recut s s') (event : StreamEvent) : Recut (event :: s) (event :: s') := by
  cases h with
  | cut before after a b => exact .cut (event :: before) after a b
  | empty before after => exact .empty (event :: before) after
  | interruption before after interrupted => exact .interruption (event :: before) after interrupted

theorem Recut.tokens_eq (h : Recut s s') : s.tokens = s'.tokens := by
  cases h with
  | cut before after a b => simp
  | empty before after => simp
  | interruption before after interrupted => simp [interrupted]

theorem Recut.equivalent (h : Recut s s') : s.Equivalent s' := Relation.EqvGen.rel _ _ h

namespace Equivalent

theorem refl (s : Stream) : s.Equivalent s := Relation.EqvGen.refl s

theorem symm (h : s.Equivalent s') : s'.Equivalent s := Relation.EqvGen.symm _ _ h

theorem trans (h : s.Equivalent s') (h' : s'.Equivalent t) : s.Equivalent t :=
  Relation.EqvGen.trans _ _ _ h h'

theorem cons (h : s.Equivalent s') (event : StreamEvent) :
    Equivalent (event :: s) (event :: s') := by
  induction h with
  | rel s s' h => exact (h.cons event).equivalent
  | refl s => exact refl _
  | symm s s' _ ih => exact ih.symm
  | trans s s' t _ _ ih ih' => exact ih.trans ih'

end Equivalent

/-! ## The stream of some tokens

Each token has an event that tells it. So a list of tokens is told by a stream, in the simplest way
there is. -/

/-- What happens when the reader is told. -/
def Token.event : Token → StreamEvent
  | byte b => .data [b]
  | endOfFile => .endOfFile
  | failure e => .failure e

/-- A chunk of data can be cut into its bytes, and it is an empty chunk that is left at the end. -/
theorem equivalent_of_data (bytes : List UInt8) (h : s.Equivalent t) :
    Equivalent (.data bytes :: s) ((bytes.map fun b => .data [b]) ++ t) := by
  -- one byte is cut off at a time
  induction bytes with
  | nil => exact (Recut.empty [] s).equivalent.symm.trans h
  | cons b bytes ih => exact (Recut.cut [] s [b] bytes).equivalent.trans (ih.cons (.data [b]))

/-- A stream can be taken apart into what readers are told of it: single bytes, ends of the file and
failures, without interruptions. -/
theorem equivalent_map_event (s : Stream) : s.Equivalent (s.tokens.map Token.event) := by
  induction s with
  | nil => exact .refl []
  | cons event s ih =>
    cases event with
    | data bytes =>
      rw [tokens_data, List.map_append, List.map_map]
      exact equivalent_of_data bytes ih
    | endOfFile => exact ih.cons .endOfFile
    | failure e =>
      by_cases h : e.isInterrupted
      · rw [tokens_interrupted h]
        exact (Recut.interruption [] s h).equivalent.symm.trans ih
      · rw [tokens_failed h]
        exact ih.cons (.failure e)

/-- **Equivalence.** What readers are told is the same exactly if the streams differ in no more than
cuts and interruptions. -/
theorem equivalent_iff : s.Equivalent s' ↔ s.tokens = s'.tokens := by
  refine ⟨fun h => ?_, fun h => ?_⟩
  · induction h with
    | rel s s' h => exact h.tokens_eq
    | refl s => rfl
    | symm s s' _ ih => exact ih.symm
    | trans s s' t _ _ ih ih' => exact ih.trans ih'
  · refine (equivalent_map_event s).trans ?_
    rw [h]
    exact (equivalent_map_event s').symm

end TapeMachine.Stream
