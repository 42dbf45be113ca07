import TapeMachine.Program.Streams
import TapeMachine.Proofs.Block.Triple
import TapeMachine.Proofs.Console.Bytes

/-!
# What the stream programs print

`Program.copyInput` prints what comes before the first zero, however long that is, and
`Program.reverseInput` prints it from its end to its beginning, if it fits the tape. The streams may
deliver their bytes in any way.

* `Connected` — the state of a console that delivers bytes and has taken others. It gives zeros when
  it has no more to deliver (`Cell.ofHead`).
* `Copying` — the loop of the first program: the byte in the current cell is to be printed next.
* `Storing` — the first loop of the second program: the bytes up to the current cell are stored from
  address one on (`Stores`). The cell at address zero stays zero, even if the zero that ends the
  input is stored there, one way around the ring.
* `Printing` — its second loop, which goes back to that zero.

Each of them is an invariant over the bytes that are still to be done, as the rule for loops asks
for. The bytes are cut at the first zero beforehand: `whole` is what the program prints, and `after`
is what stands behind it, beginning with a zero or with nothing at all. The program reads a zero in
both cases, and so it cannot tell them apart.
-/

namespace TapeMachine

variable {w : Nat}

/-! ## The console

A reader of bytes and a writer, seen through what is still to come and what has been taken. Chunks
and interruptions are forgotten here once and for all. -/

/-- The cell that is read when these bytes are to be delivered: the first of them, or zero. -/
def Cell.ofHead (bytes : List UInt8) : Cell w := (bytes.head?.map ofByte).getD 0

/-- Bytes do not become zero in a cell that can hold them. So a loop over the bytes is not left
before the end. -/
theorem Cell.ofByte_ne_zero (hw : 8 ≤ w) {b : UInt8} (hb : b ≠ 0) : (ofByte b : Cell w) ≠ 0 := by
  intro hzero
  refine hb ?_
  rw [← lowByte_ofByte b hw, hzero]
  rfl

/-- Behind the bytes in front of the first zero there is the zero, or nothing. -/
theorem Cell.ofHead_dropWhile (bytes : List UInt8) :
    (ofHead (bytes.dropWhile (· ≠ 0)) : Cell w) = 0 := by
  induction bytes with
  | nil => rfl
  | cons b bytes ih =>
    rw [List.dropWhile_cons]
    split
    · exact ih
    · next h =>
      obtain rfl : b = 0 := by simpa using h
      rfl

/-- The console delivers these bytes, has taken those, and does not fail. -/
structure Connected (bytes taken : List UInt8) (k : ByteReader × ByteWriter) : Prop where
  /-- what comes from the stream -/
  tokens : k.1.stream.tokens = bytes.map .byte
  /-- the device takes everything -/
  sound : k.2.failures = 0
  /-- and has taken this -/
  written : k.2.written.toList = taken

namespace Connected

variable {bytes taken : List UInt8} {k : ByteReader × ByteWriter}

theorem exists_flush (h : Connected bytes taken k) :
    ∃ k', Console.flush w k = (.ok (), k') ∧ Connected bytes taken k' := by
  obtain ⟨r, o⟩ := k
  obtain ⟨o', hflush, hsound, hwritten⟩ := ByteWriter.flush_of_sound h.sound
  refine ⟨(r, o'), ?_, h.tokens, hsound, ?_⟩
  · simp only [Console.flush, Sink.flush, hflush]
  · rw [hwritten]
    exact h.written

theorem exists_read (h : Connected bytes taken k) :
    ∃ k', Console.read k = (.ok (Cell.ofHead bytes : Cell w), k') ∧
      Connected bytes.tail taken k' := by
  obtain ⟨r, o⟩ := k
  obtain ⟨s, hread, htokens⟩ := ByteReader.read_of_tokens_eq (w := w) h.tokens
  refine ⟨(⟨s⟩, o), ?_, htokens, h.sound, h.written⟩
  simp only [Console.read, Source.read, hread, Cell.ofHead]

theorem exists_write (h : Connected bytes taken k) (c : Cell w) :
    ∃ k', Console.write c k = (.ok (), k') ∧ Connected bytes (taken ++ [c.lowByte]) k' := by
  obtain ⟨r, o⟩ := k
  obtain ⟨o', hwrite, hsound, hwritten⟩ := ByteWriter.write_of_sound c h.sound
  have htaken : o.written.toList = taken := h.written
  refine ⟨(r, o'), ?_, h.tokens, hsound, ?_⟩
  · simp only [Console.write, Sink.write, hwrite]
  · simp only [hwritten, Array.toList_push, htaken]

end Connected

namespace Block

/-- A scene with a console for bytes. -/
abbrev ByteScene (w : Nat) : Type := Scene (ByteReader × ByteWriter) w

variable {bytes taken : List UInt8} {s : ByteScene w}

/-- Input puts the next byte into the current cell, or a zero. -/
theorem exists_perform_input (h : Connected bytes taken s.console) :
    ∃ k, s.perform .input =
        (.ok (), ⟨s.tape.set s.memoryPointer (Cell.ofHead bytes), s.memoryPointer, k⟩) ∧
      Connected bytes.tail taken k := by
  obtain ⟨k, hflush, hk⟩ := h.exists_flush (w := w)
  obtain ⟨k', hread, hk'⟩ := hk.exists_read (w := w)
  refine ⟨k', ?_, hk'⟩
  simp only [Scene.perform, hflush, hread]

/-- Output takes the lowest byte of the current cell. -/
theorem exists_perform_output (h : Connected bytes taken s.console) :
    ∃ k, s.perform .output = (.ok (), ⟨s.tape, s.memoryPointer, k⟩) ∧
      Connected bytes (taken ++ [s.currentCell.lowByte]) k := by
  obtain ⟨k, hwrite, hk⟩ := h.exists_write s.currentCell
  refine ⟨k, ?_, hk⟩
  simp only [Scene.perform, hwrite]

/-! ## Copying

The program reads a byte in front of its loop and another one at the end of each round, so the
invariant is about a byte that has been read and not yet printed. -/

section Copy

variable {whole after : List UInt8}

/-- The bytes `l` of `whole` are still to be delivered, and the others have been printed. This is
the state in front of an input. -/
structure Copied (whole after l : List UInt8) (s : ByteScene w) : Prop where
  console : ∃ taken, taken ++ l = whole ∧ Connected (l ++ after) taken s.console

/-- The bytes `l` of `whole` are still to be printed, and the first of them is in the current cell.
This is the invariant of the loop: the cell is zero if and only if there is none. -/
structure Copying (whole after l : List UInt8) (s : ByteScene w) : Prop where
  cell : s.currentCell = Cell.ofHead (l ++ after)
  console : ∃ taken, taken ++ l = whole ∧ Connected (l ++ after).tail taken s.console

theorem performs_input_copied (l : List UInt8) :
    Performs .input (Copied (w := w) whole after l) (Copying whole after l) := by
  rintro s ⟨taken, hwhole, hconsole⟩
  obtain ⟨k, hperform, hk⟩ := exists_perform_input hconsole
  exact ⟨_, hperform, Tape.get_set_self .., taken, hwhole, hk⟩

/-- Writing prints it, since a cell of at least eight bits holds the whole byte. -/
theorem performs_output_copying (hw : 8 ≤ w) (x : UInt8) (l : List UInt8) :
    Performs .output (Copying (w := w) whole after (x :: l)) (Copied whole after l) := by
  rintro s ⟨hcell, taken, hwhole, hconsole⟩
  obtain ⟨k, hperform, hk⟩ := exists_perform_output hconsole
  have hbyte : s.currentCell.lowByte = x := by
    rw [hcell]
    exact Cell.lowByte_ofByte x hw
  rw [hbyte] at hk
  exact ⟨_, hperform, taken ++ [x], by rw [← hwhole, List.append_assoc]; rfl, hk⟩

/-- **The copying program** prints what is delivered before the first zero. -/
theorem achieves_copy (hw : 8 ≤ w) (hwhole : ∀ b ∈ whole, b ≠ 0)
    (hafter : (Cell.ofHead after : Cell w) = 0) :
    Achieves (.simple 0 .input (.loop (.simple 2 .output (.simple 3 .input .done)) .done))
      (Copied (w := w) whole after whole) (Copying whole after []) := by
  refine .simple (performs_input_copied whole) ?_
  refine .loop ?_ ?_ ?_ (.done fun _ h => h) whole
  -- the loop is left on the zero behind the bytes, and goes on at each of them
  · intro s h
    exact h.cell.trans hafter
  · intro x l s h
    obtain ⟨taken, rfl, -⟩ := h.console
    rw [h.cell]
    exact Cell.ofByte_ne_zero hw (hwhole x (List.mem_append_right _ List.mem_cons_self))
  · intro x l
    exact .simple (performs_output_copying hw x l)
      (.simple (performs_input_copied l) (.done fun _ h => h))

end Copy

/-! ## Storing

The second program leaves the cell at address zero alone and goes to the right with every byte, so
the byte with index `i` stands at address `i + 1`. With 65535 bytes all other cells are taken, and
the zero that ends the input is written to address zero, where there is one anyway. -/

/-- The bytes stand on the tape from address one on, and there is a zero in front of them. -/
structure Stores (t : Tape w) (l : List UInt8) : Prop where
  /-- the zero -/
  origin : t.get 0 = 0
  /-- the bytes -/
  cells : ∀ i b, l[i]? = some b → t.get (UInt16.ofNat (i + 1)) = Cell.ofByte b

namespace Stores

variable {t : Tape w} {l : List UInt8} {x : UInt8}

theorem blank : Stores (Tape.blank : Tape w) [] := ⟨Tape.get_blank 0, nofun⟩

theorem concat (h : Stores t l) (hx : t.get (UInt16.ofNat (l.length + 1)) = Cell.ofByte x) :
    Stores t (l ++ [x]) where
  origin := h.origin
  cells := by
    intro i b hb
    rw [List.getElem?_append] at hb
    split at hb
    · exact h.cells i b hb
    · next hge =>
      obtain ⟨hi, hxb⟩ := List.getElem?_eq_some_iff.mp hb
      have heq : i = l.length := by
        rw [List.length_singleton] at hi
        omega
      subst heq
      rw [hx, ← hxb]
      simp

theorem of_concat (h : Stores t (l ++ [x])) :
    t.get (UInt16.ofNat (l.length + 1)) = Cell.ofByte x ∧ Stores t l := by
  refine ⟨h.cells l.length x List.getElem?_concat_length, h.origin, fun i b hb => ?_⟩
  refine h.cells i b ?_
  rw [List.getElem?_append_left (List.getElem?_eq_some_iff.mp hb).1, hb]

/-- Behind the bytes the tape can be changed, unless this is the zero in front of them. Even there
it can be set to zero. -/
theorem set (h : Stores t l) (hl : l.length ≤ 65535) {c : Cell w}
    (hc : UInt16.ofNat (l.length + 1) = 0 → c = 0) :
    Stores (t.set (UInt16.ofNat (l.length + 1)) c) l where
  origin := by
    rw [Tape.get_set]
    split
    · next heq => exact hc heq
    · exact h.origin
  cells := by
    intro i b hb
    have hi : i < l.length := (List.getElem?_eq_some_iff.mp hb).1
    have hne : UInt16.ofNat (l.length + 1) ≠ UInt16.ofNat (i + 1) := by
      -- so few addresses do not come round to one another
      intro heq
      have := congrArg UInt16.toNat heq
      rw [UInt16.toNat_ofNat', UInt16.toNat_ofNat'] at this
      omega
    rw [Tape.get_set_of_ne _ _ hne]
    exact h.cells i b hb

end Stores

section Reverse

variable {whole after : List UInt8}

/-- The machine has done nothing yet, and all bytes are still to be delivered. -/
structure Fresh (bytes : List UInt8) (s : ByteScene w) : Prop where
  tape : s.tape = Tape.blank
  pointer : s.memoryPointer = 0
  console : Connected bytes [] s.console

/-- The machine has come to the cell behind the bytes that are stored, with the others still to be
delivered. This is the state in front of an input. -/
structure Arrived (whole after l : List UInt8) (s : ByteScene w) : Prop where
  stored : ∃ stored, stored ++ l = whole ∧ Stores s.tape stored ∧
    s.memoryPointer = UInt16.ofNat (stored.length + 1)
  console : Connected (l ++ after) [] s.console

/-- The first of the bytes that are not stored yet is in the current cell, behind those that are.
This is the invariant of the first loop. -/
structure Storing (whole after l : List UInt8) (s : ByteScene w) : Prop where
  cell : s.currentCell = Cell.ofHead (l ++ after)
  stored : ∃ stored, stored ++ l = whole ∧ Stores s.tape stored ∧
    s.memoryPointer = UInt16.ofNat (stored.length + 1)
  console : Connected (l ++ after).tail [] s.console

/-- The bytes `l` are still to be printed, and the first of them is the last one stored. This is the
invariant of the second loop; the memory pointer is at zero when there are no more. -/
structure Printing (whole l : List UInt8) (s : ByteScene w) : Prop where
  stores : Stores s.tape l.reverse
  pointer : s.memoryPointer = UInt16.ofNat l.length
  console : ∃ bytes taken, taken ++ l = whole.reverse ∧ Connected bytes taken s.console

/-- Address zero is left behind, with the zero in it. -/
theorem performs_right_fresh :
    Performs .right (Fresh (w := w) (whole ++ after)) (Arrived whole after whole) := by
  rintro ⟨tape, mp, k⟩ ⟨rfl, rfl, hconsole⟩
  exact ⟨_, rfl, ⟨[], rfl, .blank, rfl⟩, hconsole⟩

/-- Reading puts the next byte behind those that are stored. The zero at the end is put there, too,
and this does no harm wherever it is. -/
theorem performs_input_arrived (hlength : whole.length ≤ 65535)
    (hafter : (Cell.ofHead after : Cell w) = 0) (l : List UInt8) :
    Performs .input (Arrived (w := w) whole after l) (Storing whole after l) := by
  rintro s ⟨⟨stored, hwhole, hstores, hpointer⟩, hconsole⟩
  obtain ⟨k, hperform, hk⟩ := exists_perform_input hconsole
  rw [← hwhole, List.length_append] at hlength
  have hset := hstores.set (by omega) (c := Cell.ofHead (l ++ after)) fun hzero => by
    -- one way around the ring: all bytes are stored
    have := congrArg UInt16.toNat hzero
    rw [UInt16.toNat_ofNat', UInt16.toNat_zero] at this
    obtain rfl : l = [] := List.eq_nil_of_length_eq_zero (by omega)
    exact hafter
  refine ⟨_, hperform, Tape.get_set_self .., ⟨stored, hwhole, ?_, hpointer⟩, hk⟩
  rw [hpointer]
  exact hset

/-- Going to the right makes the byte in the current cell one of those that are stored. -/
theorem performs_right_storing (x : UInt8) (l : List UInt8) :
    Performs .right (Storing (w := w) whole after (x :: l)) (Arrived whole after l) := by
  rintro s ⟨hcell, ⟨stored, hwhole, hstores, hpointer⟩, hconsole⟩
  rw [Scene.currentCell, hpointer] at hcell
  refine ⟨_, rfl, ⟨stored ++ [x], ?_, hstores.concat hcell, ?_⟩, hconsole⟩
  · rw [List.append_assoc]
    exact hwhole
  · rw [List.length_append, List.length_singleton, UInt16.ofNat_add (stored.length + 1)]
    exact congrArg (· + 1) hpointer

/-- Behind the last byte is the beginning of the way back. -/
theorem performs_left_storing :
    Performs .left (Storing (w := w) whole after []) (Printing whole whole.reverse) := by
  rintro s ⟨-, ⟨stored, hwhole, hstores, hpointer⟩, hconsole⟩
  rw [List.append_nil] at hwhole
  subst hwhole
  refine ⟨_, rfl, ?_, ?_, _, [], rfl, hconsole⟩
  · rwa [List.reverse_reverse]
  · rw [List.length_reverse]
    simp only [hpointer, UInt16.ofNat_add]
    exact UInt16.add_sub_cancel _ _

theorem Printing.currentCell {x : UInt8} {l : List UInt8} {s : ByteScene w}
    (h : Printing whole (x :: l) s) : s.currentCell = Cell.ofByte x := by
  have hstores := h.stores
  rw [List.reverse_cons] at hstores
  have hlast := hstores.of_concat.1
  rw [List.length_reverse] at hlast
  rw [Scene.currentCell, h.pointer]
  exact hlast

/-- **One byte** is printed on the way back. What stood behind it on the tape is of no account any
more. -/
theorem achieves_print (hw : 8 ≤ w) (x : UInt8) (l : List UInt8) :
    Achieves (.simple 65 .output (.simple 66 .left .done)) (Printing (w := w) whole (x :: l))
      (Printing whole l) := by
  intro s h
  obtain ⟨bytes, taken, hwhole, hconsole⟩ := h.console
  obtain ⟨k, hperform, hk⟩ := exists_perform_output hconsole
  rw [h.currentCell, Cell.lowByte_ofByte x hw] at hk
  have hstores := h.stores
  rw [List.reverse_cons] at hstores
  refine ⟨_, .simple hperform (.simple rfl .done), hstores.of_concat.2, ?_, bytes, taken ++ [x], ?_,
    hk⟩
  · simp only [h.pointer, List.length_cons, UInt16.ofNat_add]
    exact UInt16.add_sub_cancel _ _
  · rw [List.append_assoc]
    exact hwhole

/-- **The reversing program** prints what is delivered before the first zero, from its end to its
beginning. -/
theorem achieves_reverse (hw : 8 ≤ w) (hwhole : ∀ b ∈ whole, b ≠ 0)
    (hlength : whole.length ≤ 65535) (hafter : (Cell.ofHead after : Cell w) = 0) :
    Achieves (.simple 57 .right (.simple 58 .input
        (.loop (.simple 60 .right (.simple 61 .input .done))
          (.simple 63 .left (.loop (.simple 65 .output (.simple 66 .left .done)) .done)))))
      (Fresh (w := w) (whole ++ after)) (Printing whole []) := by
  have hinput := performs_input_arrived hlength hafter
  refine .simple performs_right_fresh (.simple (hinput whole) ?_)
  -- the first loop, with the second one behind it
  refine .loop ?_ ?_ ?_ (.simple performs_left_storing ?_) whole
  · intro s h
    exact h.cell.trans hafter
  · intro x l s h
    obtain ⟨stored, rfl, -⟩ := h.stored
    rw [h.cell]
    exact Cell.ofByte_ne_zero hw (hwhole x (List.mem_append_right _ List.mem_cons_self))
  · intro x l
    exact .simple (performs_right_storing x l) (.simple (hinput l) (.done fun _ h => h))
  · refine .loop ?_ ?_ (achieves_print hw) (.done fun _ h => h) whole.reverse
    · intro s h
      rw [Scene.currentCell, h.pointer]
      exact h.stores.origin
    · intro x l s h
      obtain ⟨bytes, taken, heq, -⟩ := h.console
      have hmem : x ∈ whole := by
        rw [← List.mem_reverse, ← heq]
        exact List.mem_append_right _ List.mem_cons_self
      rw [h.currentCell]
      exact Cell.ofByte_ne_zero hw (hwhole x hmem)

end Reverse

end Block

/-! ## The programs

The texts are read into trees by evaluation. What is proved of the trees then holds of the machine.
-/

namespace Program

open Block

/-- On a new machine with cells of a byte, the program ends well at its own end and has printed
these bytes. -/
def Prints (p : Program) (input : Stream) (printed : List UInt8) : Prop :=
  ∃ u, p.Ends ((Engine.initial : Engine 8).connected input .reliable) (.ok ()) u ∧
    u.console.2.written.toList = printed ∧ u.engine.instructionPointer = p.size

theorem ofProgram?_copyInput :
    ofProgram? copyInput = some
      (.simple 0 .input (.loop (.simple 2 .output (.simple 3 .input .done)) .done)) := by
  decide

theorem ofProgram?_reverseInput :
    ofProgram? reverseInput = some (.simple 57 .right (.simple 58 .input
      (.loop (.simple 60 .right (.simple 61 .input .done))
        (.simple 63 .left (.loop (.simple 65 .output (.simple 66 .left .done)) .done))))) := by
  decide

/-- **The stream programs** print what they should, for all input. Let a stream deliver bytes in any
way. Then `copyInput` prints those before the first zero, however many they are, and `reverseInput`
prints them from the last to the first if they are no more than 65535, so that the zero behind them
may come to stand at address zero. Both end well, at the end of the program. -/
theorem stream_programs_print {input : Stream} {bytes : List UInt8}
    (hinput : input.Delivers bytes) :
    copyInput.Prints input (bytes.takeWhile (· ≠ 0)) ∧
      ((bytes.takeWhile (· ≠ 0)).length ≤ 65535 →
        reverseInput.Prints input (bytes.takeWhile (· ≠ 0)).reverse) := by
  have hwhole : ∀ b ∈ bytes.takeWhile (· ≠ 0), b ≠ 0 := by
    intro b hb
    simpa using List.all_eq_true.mp List.all_takeWhile b hb
  -- what is read behind those bytes is zero, be it a byte or the end of the stream
  have hafter : (Cell.ofHead (bytes.dropWhile (· ≠ 0)) : Cell 8) = 0 :=
    Cell.ofHead_dropWhile bytes
  have hconnected : Connected (bytes.takeWhile (· ≠ 0) ++ bytes.dropWhile (· ≠ 0)) []
      (⟨input⟩, .reliable) := by
    rw [List.takeWhile_append_dropWhile]
    exact ⟨hinput.tokens_eq, rfl, rfl⟩
  refine ⟨?_, fun hlength => ?_⟩
  · obtain ⟨t, hends, ht⟩ := (achieves_copy (by decide) hwhole hafter).exists_ends
      ofProgram?_copyInput (s := ⟨Tape.blank, 0, ⟨input⟩, .reliable⟩) ⟨[], rfl, hconnected⟩
    obtain ⟨taken, hprinted, hconsole⟩ := ht.console
    rw [List.append_nil] at hprinted
    exact ⟨_, hends, hconsole.written.trans hprinted, rfl⟩
  · obtain ⟨t, hends, ht⟩ := (achieves_reverse (by decide) hwhole hlength hafter).exists_ends
      ofProgram?_reverseInput (s := ⟨Tape.blank, 0, ⟨input⟩, .reliable⟩) ⟨rfl, rfl, hconnected⟩
    obtain ⟨rest, taken, hprinted, hconsole⟩ := ht.console
    rw [List.append_nil] at hprinted
    exact ⟨_, hends, hconsole.written.trans hprinted, rfl⟩

/-- What stands behind the first zero is not printed. -/
theorem stream_programs_print_first_zero :
    (Stream.ofBytes [104, 105, 0, 33]).Delivers [104, 105, 0, 33] ∧
      copyInput.Prints (.ofBytes [104, 105, 0, 33]) [104, 105] ∧
      reverseInput.Prints (.ofBytes [104, 105, 0, 33]) [105, 104] := by
  have hinput : (Stream.ofBytes [104, 105, 0, 33]).Delivers [104, 105, 0, 33] :=
    ⟨rfl, List.all_eq_true.mp rfl⟩
  obtain ⟨hcopy, hreverse⟩ := stream_programs_print hinput
  exact ⟨hinput, hcopy, hreverse (by decide)⟩

end Program

end TapeMachine
