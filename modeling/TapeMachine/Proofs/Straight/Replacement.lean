import TapeMachine.Proofs.Engine.Numbering
import TapeMachine.Proofs.Straight.Effect

/-!
# Replacing straight code

Straight code can be replaced by other straight code that moves as far and changes every cell by as
much (`Straight.Interchangeable`), in the middle of any program: `replaceable_of_interchangeable`.

Let `s` stand between `p` and `q`. What stands outside of `s` stays the same when `s` is replaced
(`echoes_replaced`), and nothing jumps into `s`, since there is no bracket in it. So a run comes to
`s` at its beginning only, and goes through it to `q` (`reaches_both_middle`). Hence both programs
come to the same place again after each instruction outside of `s` (`exists_reaches_outside`): they
are in step (`inStep_replaced`), and their runs end in the same way.

The code that is put in may be of another length, or empty, so positions behind it move
(`repositioned`). Runs must not begin inside of `s`, since that has no counterpart in the other
program; that they never end there is part of the result.
-/

namespace TapeMachine

variable {κ : Type} {w : Nat}

namespace Straight

/-- Straight code that does the same to a machine with cells of `w` bits. -/
structure Interchangeable (w : Nat) (bs cs : List UInt8) : Prop where
  /-- the one only counts and moves -/
  left : ∀ b ∈ bs, isStraight b
  /-- and so does the other -/
  right : ∀ c ∈ cs, isStraight c
  /-- both move equally far along the ring -/
  displacement : Straight.displacement bs ≡ Straight.displacement cs [ZMOD 65536]
  /-- and change the cell at each distance by the same number -/
  change : ∀ d, Straight.change d 0 bs ≡ Straight.change d 0 cs [ZMOD 2 ^ w]

namespace Interchangeable

variable {bs cs : List UInt8}

theorem symm (h : Interchangeable w bs cs) : Interchangeable w cs bs :=
  ⟨h.right, h.left, h.displacement.symm, fun d => (h.change d).symm⟩

/-- They leave the same tape and the same memory pointer, each behind itself. -/
theorem performed_eq (h : Interchangeable w bs cs) (e : Engine w) :
    e.performed cs =
      { e.performed bs with instructionPointer := e.instructionPointer + cs.length } := by
  have htape : e.tape.raised (fun a => Straight.change a e.memoryPointer cs) =
      e.tape.raised fun a => Straight.change a e.memoryPointer bs := by
    refine Tape.raised_congr _ fun a => ?_
    rw [change_eq_change_zero, change_eq_change_zero a _ bs]
    exact (h.change _).symm
  rw [Engine.performed, Engine.performed, htape, Addr.ofInt_congr h.displacement]

end Interchangeable

/-! ## Code that does nothing

Four kinds of code that can be deleted. Two of them go once around, along the ring or through the
values of a cell, so they depend on what is counted modulo what. -/

section Repeated

variable {i : Instruction}

theorem displacement_replicate (i : Instruction) (n : Nat) :
    Straight.displacement (List.replicate n i.toByte) = n * i.stride := by
  induction n with
  | zero => exact (Int.zero_mul _).symm
  | succ n ih =>
    rw [List.replicate_succ, displacement_cons_of_some (Instruction.ofByte?_toByte i), ih,
      Int.natCast_succ, Int.add_mul, Int.one_mul, Int.add_comm]

theorem change_replicate_of_amount (hi : i.amount = 0) (d here : Addr) (n : Nat) :
    Straight.change d here (List.replicate n i.toByte) = 0 := by
  induction n generalizing here with
  | zero => rfl
  | succ n ih =>
    rw [List.replicate_succ, change_cons_of_some (Instruction.ofByte?_toByte i), ih, hi, ite_self,
      Int.add_zero]

theorem change_replicate_of_stride (hi : i.stride = 0) (d here : Addr) (n : Nat) :
    Straight.change d here (List.replicate n i.toByte) = if here = d then n * i.amount else 0 := by
  have hmoved : i.moved here = here := by
    rw [i.moved_eq_add, hi]
    exact UInt16.add_zero here
  induction n with
  | zero => rw [Int.natCast_zero, Int.zero_mul, ite_self]; rfl
  | succ n ih =>
    rw [List.replicate_succ, change_cons_of_some (Instruction.ofByte?_toByte i), hmoved, ih]
    split
    · rw [Int.natCast_succ, Int.add_mul, Int.one_mul, Int.add_comm]
    · rfl

end Repeated

open Instruction

/-- To count up and down again. -/
theorem interchangeable_increment_decrement :
    Interchangeable w [increment.toByte, decrement.toByte] [] where
  left := List.all_eq_true.mp rfl
  right := nofun
  displacement := rfl
  change := fun d => by
    rw [change_cons_of_some (ofByte?_toByte _), change_cons_of_some (ofByte?_toByte _), moved]
    split <;> rfl

/-- To move left and right again. -/
theorem interchangeable_left_right : Interchangeable w [left.toByte, right.toByte] [] where
  left := List.all_eq_true.mp rfl
  right := nofun
  displacement := rfl
  change := fun d => by
    rw [change_cons_of_some (ofByte?_toByte _), change_cons_of_some (ofByte?_toByte _), amount,
      ite_self, amount, ite_self]
    rfl

/-- To move once around the ring. -/
theorem interchangeable_replicate_right :
    Interchangeable w (List.replicate 65536 right.toByte) [] where
  left := fun b hb => by
    rw [List.eq_of_mem_replicate hb]
    decide
  right := nofun
  displacement := by
    rw [displacement_replicate]
    rfl
  change := fun d => by
    rw [change_replicate_of_amount rfl]
    rfl

/-- To count once through all values of a cell. -/
theorem interchangeable_replicate_increment :
    Interchangeable w (List.replicate (2 ^ w) increment.toByte) [] where
  left := fun b hb => by
    rw [List.eq_of_mem_replicate hb]
    decide
  right := nofun
  displacement := by
    rw [displacement_replicate, stride, Int.mul_zero]
    rfl
  change := fun d => by
    rw [change_replicate_of_stride rfl]
    split
    · rw [amount, Int.mul_one, Int.natCast_pow]
      exact Int.modEq_zero_iff_dvd.mpr (Int.dvd_refl _)
    · rfl

end Straight

namespace Program

open Straight
open Instruction (increment decrement left right)

/-! ## Other code in its place

The two programs hold the same outside of the code, and each runs its own code in one go. -/

section Replaced

variable {p s s' : Program} (q : Program) {pos : Nat}

/-- **Outside** of balanced code the bytes and the partners stay what they are. A bracket in front
may have its partner behind, which has moved then. -/
theorem echoes_replaced (hs : s.Balanced) (hs' : s'.Balanced) (hpos : Outside p s pos) :
    Echoes (p ++ s ++ q) (p ++ s' ++ q) (repositioned p s s') pos where
  byte := by
    rcases hpos with hlt | hge
    · rw [repositioned_of_lt hlt, getElem?_front p s q hlt, getElem?_front p s' q hlt]
    · obtain ⟨pos, rfl⟩ := Nat.exists_eq_add_of_le hge
      rw [repositioned_add, getElem?_behind, getElem?_behind]
  partner := partner?_replaced q hs hs' hpos

variable [Console κ w] {c t u u' : Config κ w} {outcome outcome' : Outcome} {e : Engine w} {k : κ}

/-- **Through the middle.** Both programs take a machine from the beginning of the code in the
middle to its end, and to the same state. -/
theorem reaches_both_middle (h : Interchangeable w s.toList s'.toList)
    (hip : e.instructionPointer = p.size) (k : κ) :
    Reaches (p ++ s ++ q) ⟨e, k⟩ ⟨e.performed s.toList, k⟩ ∧
      Reaches (p ++ s' ++ q) ⟨e, k⟩
        (Config.renumbered (repositioned p s s') ⟨e.performed s.toList, k⟩) := by
  have hplace : repositioned p s s' (e.instructionPointer + s.toList.length) =
      e.instructionPointer + s'.toList.length := by
    rw [hip, Array.length_toList, Array.length_toList]
    exact repositioned_add 0
  have hsame : Config.renumbered (repositioned p s s') ⟨e.performed s.toList, k⟩ =
      ⟨e.performed s'.toList, k⟩ := by
    rw [h.performed_eq, ← hplace]
    rfl
  rw [hsame]
  exact ⟨reaches_middle p q h.left hip k, reaches_middle p q h.right hip k⟩

/-- **Landing.** Behind a position outside of the code, both programs come to the same state outside
of it: at once, or through the code. -/
theorem exists_reaches_outside (h : Interchangeable w s.toList s'.toList) {last : Nat}
    (hlast : Outside p s last) (hip : e.instructionPointer = last + 1) (k : κ) :
    ∃ t, Reaches (p ++ s ++ q) ⟨e, k⟩ t ∧ Outside p s t.engine.instructionPointer ∧
      Reaches (p ++ s' ++ q)
        ⟨{ e with instructionPointer := repositioned p s s' last + 1 }, k⟩
        (t.renumbered (repositioned p s s')) := by
  obtain ⟨tape, mp, ip⟩ := e
  obtain rfl : ip = last + 1 := hip
  by_cases hfront : last + 1 = p.size
  · -- the code is next, and each program goes through its own
    have hkept : repositioned p s s' last + 1 = last + 1 := by
      rw [repositioned_of_lt (by omega)]
    obtain ⟨hreach, hreach'⟩ := reaches_both_middle q h (e := ⟨tape, mp, last + 1⟩) hfront k
    rw [hkept]
    exact ⟨_, hreach, Or.inr (Nat.le_of_eq (congrArg (· + s.size) hfront.symm)), hreach'⟩
  · obtain ⟨hout, hnext⟩ := hlast.succ s' hfront
    refine ⟨_, .refl, hout, ?_⟩
    rw [← hnext]
    exact .refl

/-- Outside of interchangeable code, the two programs are in step. A jump never leads into the code,
as its partner would have to be there. -/
theorem inStep_replaced (h : Interchangeable w s.toList s'.toList) :
    InStep (p ++ s ++ q) (p ++ s' ++ q) (repositioned p s s') fun c : Config κ w =>
      Outside p s c.engine.instructionPointer where
  echoes := echoes_replaced q (balanced_of_isStraight h.left) (balanced_of_isStraight h.right)
  lands := by
    intro c t last hc _ hlast hip
    have hout : Outside p s last := by
      rcases hlast with rfl | hpartner
      · exact hc
      · exact outside_of_partner? (balanced_of_isStraight h.left) hc hpartner
    exact exists_reaches_outside q h hout hip t.console

/-- From the beginning, both programs come to the same state outside of the code: at once, or
through the code. -/
theorem exists_reaches_outside_zero (p q : Program) (h : Interchangeable w s.toList s'.toList)
    (tape : Tape w) (mp : Addr) (k : κ) :
    ∃ t, Reaches (p ++ s ++ q) ⟨⟨tape, mp, 0⟩, k⟩ t ∧ Outside p s t.engine.instructionPointer ∧
      Reaches (p ++ s' ++ q) ⟨⟨tape, mp, 0⟩, k⟩ (t.renumbered (repositioned p s s')) := by
  rcases Nat.eq_zero_or_pos p.size with hzero | hpos
  · -- the code comes first
    obtain ⟨hreach, hreach'⟩ := reaches_both_middle q h (e := ⟨tape, mp, 0⟩) hzero.symm k
    exact ⟨_, hreach, Or.inr (by rw [hzero]; rfl), hreach'⟩
  · refine ⟨_, .refl, Or.inl hpos, ?_⟩
    rw [Config.renumbered, repositioned_of_lt hpos]
    exact .refl

end Replaced

/-- Wherever the one stands in a program, the other can stand in its place. This is said for every
program around it and for every console. -/
structure Replaceable (w : Nat) (s s' : Program) : Prop where
  /-- runs end in the same way, but for the positions behind -/
  ends_iff : ∀ {κ : Type} [Console κ w] (p q : Program) (tape : Tape w) (mp : Addr) (k : κ)
    (outcome' : Outcome) (u' : Config κ w),
    Ends (p ++ s' ++ q) ⟨⟨tape, mp, 0⟩, k⟩ outcome' u' ↔
      ∃ outcome u, Ends (p ++ s ++ q) ⟨⟨tape, mp, 0⟩, k⟩ outcome u ∧
        outcome' = outcome.renumbered (repositioned p s s') ∧
        u' = u.renumbered (repositioned p s s')
  /-- and they stop nowhere inside of the code, nor report a bracket there -/
  outside : ∀ {κ : Type} [Console κ w] (p q : Program) (tape : Tape w) (mp : Addr) (k : κ)
    (outcome : Outcome) (u : Config κ w),
    Ends (p ++ s ++ q) ⟨⟨tape, mp, 0⟩, k⟩ outcome u →
      Outside p s u.engine.instructionPointer ∧
      ∀ bracket, outcome = .error (.unmatchedBracket bracket) → Outside p s bracket.position

/-- **Replacing.** Interchangeable code can be replaced in the middle of any program. -/
theorem replaceable_of_interchangeable {s s' : Program}
    (h : Interchangeable w s.toList s'.toList) : Replaceable w s s' where
  ends_iff := by
    intro κ _ p q tape mp k outcome' u'
    obtain ⟨t, hreach, hout, hreach'⟩ :=
      exists_reaches_outside_zero p q h tape mp k
    rw [hreach'.ends_iff, (inStep_replaced q h).ends_iff hout]
    simp only [hreach.ends_iff]
  outside := by
    intro κ _ p q tape mp k outcome u hends
    obtain ⟨t, hreach, hout, -⟩ :=
      exists_reaches_outside_zero p q h tape mp k
    obtain ⟨⟨v, hv, hu⟩, -⟩ := (inStep_replaced q h).ends hout (hreach.ends_iff.mp hends)
    have hplace : Outside p s u.engine.instructionPointer := hu ▸ hv
    refine ⟨hplace, ?_⟩
    rintro bracket rfl
    rwa [hends.position_eq]

/-- **Straight code in any context.** Code without loops, input and output can be replaced in the
middle of any program, balanced or not, by other such code that moves equally far along the ring and
changes the cell at each distance by the same number, modulo the number of values of a cell. Runs
that begin at the first position end with one exactly if they end with the other: with the same
outcome, tape, memory pointer and console, except that the positions behind the code have moved.

So `+-`, `<>`, one way around the ring and one way through all values of a cell can be deleted
wherever they stand.

The console can be any, so also one that keeps a list of what it is asked. -/
theorem straight_replaceable (w : Nat) :
    (∀ s s' : Program, Interchangeable w s.toList s'.toList → Replaceable w s s') ∧
    Replaceable w #[increment.toByte, decrement.toByte] #[] ∧
    Replaceable w #[left.toByte, right.toByte] #[] ∧
    Replaceable w (Array.replicate 65536 right.toByte) #[] ∧
    Replaceable w (Array.replicate (2 ^ w) increment.toByte) #[] := by
  refine ⟨fun s s' => replaceable_of_interchangeable, ?_, ?_, ?_, ?_⟩
  · exact replaceable_of_interchangeable interchangeable_increment_decrement
  · exact replaceable_of_interchangeable interchangeable_left_right
  · refine replaceable_of_interchangeable ?_
    rw [Array.toList_replicate]
    exact interchangeable_replicate_right
  · refine replaceable_of_interchangeable ?_
    rw [Array.toList_replicate]
    exact interchangeable_replicate_increment

/-- `+<>]` in the place of `+]`. Only the last byte has moved, and so has the report on it. -/
theorem straight_replaceable_unmatchedBracket :
    Interchangeable 8 (#[] : Program).toList (#[60, 62] : Program).toList ∧
      Ends (#[43] ++ #[60, 62] ++ #[93])
        (⟨Engine.initial, ⟨⟨[]⟩, .empty⟩⟩ : Config (Queue 8 × Collector 8) 8)
        (.error (.unmatchedBracket ⟨3, .backward⟩))
        ⟨⟨Tape.blank.set 0 (Tape.blank.get 0 + 1), 0, 3⟩, ⟨⟨[]⟩, .empty⟩⟩ := by
  have hsame : Interchangeable 8 (#[] : Program).toList (#[60, 62] : Program).toList :=
    interchangeable_left_right.symm
  refine ⟨hsame, ?_⟩
  have hone : (Tape.blank.set 0 (Tape.blank.get 0 + 1) : Tape 8).get 0 ≠ 0 := by
    rw [Tape.get_set_self, Tape.get_blank]
    decide
  refine (((straight_replaceable 8).1 #[] #[60, 62] hsame).ends_iff #[43] #[93] Tape.blank 0 _ _
    _).mpr ⟨.error (.unmatchedBracket ⟨1, .backward⟩),
      ⟨⟨Tape.blank.set 0 (Tape.blank.get 0 + 1), 0, 1⟩, ⟨⟨[]⟩, .empty⟩⟩, ?_, rfl, rfl⟩
  rw [(Completes.increment (by decide)).ends_iff]
  exact Fails.ends (.unopened (by decide) hone (by decide))

end Program

end TapeMachine
