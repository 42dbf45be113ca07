import Mathlib.Data.Int.ModEq
import TapeMachine.Program.Straight
import TapeMachine.Proofs.Bracket.Middle
import TapeMachine.Proofs.Engine.Ending

/-!
# What straight code does

Straight code adds to every cell what it changes it by, and moves as far as it moves. So the engine
that it leaves is known from `Straight.change` and `Straight.displacement` (`Engine.performed`),
wherever in a program it stands (`Program.reaches_performed`). Between two other parts of a program
it is run as it is (`reaches_middle`), and it has no bracket, so it is balanced
(`balanced_of_isStraight`).

Cells count modulo `2 ^ w` and addresses modulo 65536, and the numbers only matter up to these
(`Cell.ofInt_eq_iff`, `Addr.ofInt_congr`). A tape to which a number is added in every cell is
`Tape.raised`.

The effect is kept in integers for as long as possible, so that adding up and comparing is done
there. The code may go around the ring and count through all values of a cell; nothing in the
induction of `reaches_performed` notices, since every instruction adds to what the others add.
-/

namespace TapeMachine

variable {w : Nat} {m n : Int}

/-! ## Numbers in cells and addresses -/

namespace Cell

/-- Numbers are the same in a cell exactly if they are congruent. -/
theorem ofInt_eq_iff : BitVec.ofInt w m = BitVec.ofInt w n ↔ m ≡ n [ZMOD 2 ^ w] := by
  have hpos : (0 : Int) < 2 ^ w := Int.pow_pos (by decide)
  have hm := Int.emod_nonneg m (Int.ne_of_gt hpos)
  have hn := Int.emod_nonneg n (Int.ne_of_gt hpos)
  rw [← BitVec.toNat_inj, BitVec.toNat_ofInt, BitVec.toNat_ofInt, Int.natCast_pow, Int.ModEq]
  change (m % 2 ^ w).toNat = (n % 2 ^ w).toNat ↔ _
  omega

@[simp] theorem ofInt_zero : BitVec.ofInt w 0 = 0 := BitVec.eq_of_toNat_eq rfl

theorem ofInt_one : BitVec.ofInt w 1 = 1 := BitVec.eq_of_toNat_eq rfl

theorem ofInt_toNat (c : Cell w) : BitVec.ofInt w c.toNat = c := by
  rw [BitVec.ofInt_natCast, BitVec.ofNat_toNat, BitVec.setWidth_eq]

theorem add_ofInt (c : Cell w) (n : Int) :
    c + BitVec.ofInt w n = BitVec.ofInt w (c.toNat + n) := by
  rw [BitVec.ofInt_add, ofInt_toNat]

/-- Adding a number to a cell is addition modulo `2 ^ w`. -/
theorem toNat_add_ofInt (c : Cell w) (n : Int) :
    ((c + BitVec.ofInt w n).toNat : Int) = (c.toNat + n) % 2 ^ w := by
  have hpos : ((2 ^ w : Nat) : Int) ≠ 0 := Int.natCast_ne_zero.mpr (Nat.two_pow_pos w).ne'
  rw [add_ofInt, BitVec.toNat_ofInt, Int.toNat_of_nonneg (Int.emod_nonneg _ hpos)]
  push_cast
  rfl

/-- A number takes a cell to zero exactly if the sum is a multiple of `2 ^ w`. -/
theorem add_ofInt_eq_zero_iff (c : Cell w) :
    c + BitVec.ofInt w n = 0 ↔ (2 ^ w : Int) ∣ c.toNat + n := by
  rw [add_ofInt, ← ofInt_zero, ofInt_eq_iff, Int.modEq_zero_iff_dvd]

end Cell

/-- Congruent numbers are the same address. -/
theorem Addr.ofInt_congr (h : m ≡ n [ZMOD 65536]) : UInt16.ofInt m = UInt16.ofInt n :=
  congrArg (fun r : Int => UInt16.ofNat r.toNat) h

namespace Tape

variable (t : Tape w) {δ ε : Addr → Int}

/-- The tape with a number added to each cell. -/
def raised (δ : Addr → Int) : Tape w := ofFn fun a => t.get a + BitVec.ofInt w (δ a)

@[simp] theorem get_raised (δ : Addr → Int) (a : Addr) :
    (t.raised δ).get a = t.get a + BitVec.ofInt w (δ a) := get_ofFn _ a

@[simp] theorem raised_zero : t.raised (fun _ => 0) = t := by
  refine ext_get fun a => ?_
  rw [get_raised, Cell.ofInt_zero]
  exact BitVec.add_zero _

theorem raised_raised (δ ε : Addr → Int) :
    (t.raised δ).raised ε = t.raised fun a => δ a + ε a := by
  refine ext_get fun a => ?_
  rw [get_raised, get_raised, get_raised, BitVec.ofInt_add, BitVec.add_assoc]

theorem raised_congr (h : ∀ a, δ a ≡ ε a [ZMOD 2 ^ w]) : t.raised δ = t.raised ε := by
  refine ext_get fun a => ?_
  rw [get_raised, get_raised, Cell.ofInt_eq_iff.mpr (h a)]

/-- To add to one cell is to add nothing to all others. -/
theorem set_add_ofInt (a : Addr) (n : Int) :
    t.set a (t.get a + BitVec.ofInt w n) = t.raised fun b => if a = b then n else 0 := by
  refine ext_get fun b => ?_
  rw [get_set, get_raised]
  split
  · next h => rw [h]
  · rw [Cell.ofInt_zero]
    exact (BitVec.add_zero _).symm

end Tape

/-! ## One instruction

An instruction is told by what it adds to the current cell and by how far it moves. One of the two
is always zero. -/

namespace Instruction

/-- What an instruction adds to the current cell. -/
def amount : Instruction → Int
  | increment => 1
  | decrement => -1
  | right | left | beginLoop | endLoop | input | output => 0

/-- How far an instruction moves. -/
def stride : Instruction → Int
  | right => 1
  | left => -1
  | increment | decrement | beginLoop | endLoop | input | output => 0

/-- Counting adds one or minus one, and everything else adds zero. -/
theorem counted_eq_add (i : Instruction) (c : Cell w) :
    i.counted c = c + BitVec.ofInt w i.amount := by
  cases i with
  | increment => rw [amount, Cell.ofInt_one, counted]
  | decrement => rw [amount, BitVec.ofInt_neg, Cell.ofInt_one, ← BitVec.sub_eq_add_neg, counted]
  | _ => exact (BitVec.add_zero c).symm

/-- Moving goes one or minus one address further, and everything else stays. -/
theorem moved_eq_add (i : Instruction) (a : Addr) : i.moved a = a + UInt16.ofInt i.stride := by
  cases i with
  | right => rfl
  | left => exact UInt16.sub_eq_add_neg a 1
  | _ => exact (UInt16.add_zero a).symm

end Instruction

namespace Straight

variable {b : UInt8} {i : Instruction}

theorem displacement_cons_of_none (hb : Instruction.ofByte? b = none) (bs : List UInt8) :
    displacement (b :: bs) = displacement bs := by
  simp [displacement, hb]

theorem displacement_cons_of_some (hb : Instruction.ofByte? b = some i) (bs : List UInt8) :
    displacement (b :: bs) = i.stride + displacement bs := by
  cases i <;> simp [displacement, hb, Instruction.stride]

theorem change_cons_of_none (hb : Instruction.ofByte? b = none) (d here : Addr)
    (bs : List UInt8) : change d here (b :: bs) = change d here bs := by
  simp [change, hb]

/-- The first instruction changes the cell where it stands, and moves to where the others begin. -/
theorem change_cons_of_some (hb : Instruction.ofByte? b = some i) (d here : Addr)
    (bs : List UInt8) :
    change d here (b :: bs) =
      (if here = d then i.amount else 0) + change d (i.moved here) bs := by
  cases i <;> simp [change, hb, Instruction.amount, Instruction.moved]

/-- **Distances.** Only the distance from where the code begins to the cell matters. So the effect
of code is that of the same code at address zero. -/
theorem change_add (d here e : Addr) (bs : List UInt8) :
    change (d + e) (here + e) bs = change d here bs := by
  induction bs generalizing here with
  | nil => rfl
  | cons b bs ih =>
    cases hb : Instruction.ofByte? b with
    | none => rw [change_cons_of_none hb, change_cons_of_none hb, ih]
    | some i =>
      have hmoved : i.moved (here + e) = i.moved here + e := by
        rw [Instruction.moved_eq_add, Instruction.moved_eq_add]
        grind
      have hsame : (here + e = d + e) = (here = d) := propext (UInt16.add_left_inj e)
      rw [change_cons_of_some hb, change_cons_of_some hb, hmoved, ih]
      simp only [hsame]

theorem change_eq_change_zero (a here : Addr) (bs : List UInt8) :
    change a here bs = change (a - here) 0 bs := by
  rw [← change_add (a - here) 0 here, UInt16.sub_add_cancel, UInt16.zero_add]

end Straight

/-! ## Many instructions

The effect of code is defined on the list of its bytes, and so is the induction. The first byte is
run, and the rest is code that begins where the first byte has led. -/

theorem Instruction.isStraight_of_ofByte? {b : UInt8} {i : Instruction}
    (h : Straight.isStraight b) (hb : ofByte? b = some i) : i.isStraight := by
  rw [Straight.isStraight, hb] at h
  cases i with
  | beginLoop => cases h
  | endLoop => cases h
  | input => cases h
  | output => cases h
  | _ => rfl

/-- The engine when straight code has been run: every cell is changed by what the code changes it
by, the memory pointer has moved as far as the code moves, and the code lies behind. -/
def Engine.performed (e : Engine w) (bs : List UInt8) : Engine w where
  tape := e.tape.raised fun a => Straight.change a e.memoryPointer bs
  memoryPointer := e.memoryPointer + UInt16.ofInt (Straight.displacement bs)
  instructionPointer := e.instructionPointer + bs.length

@[simp] theorem Engine.performed_nil (e : Engine w) : e.performed [] = e := by
  obtain ⟨tape, mp, ip⟩ := e
  have htape : tape.raised (fun a => Straight.change a mp []) = tape := tape.raised_zero
  have hmp : mp + UInt16.ofInt (Straight.displacement []) = mp := UInt16.add_zero mp
  rw [performed, htape, hmp]
  rfl

theorem Engine.performed_cons_of_none {b : UInt8} (hb : Instruction.ofByte? b = none)
    (tape : Tape w) (mp : Addr) (ip : Nat) (bs : List UInt8) :
    performed ⟨tape, mp, ip⟩ (b :: bs) = performed ⟨tape, mp, ip + 1⟩ bs := by
  have hlength : ip + (b :: bs).length = ip + 1 + bs.length := by
    rw [List.length_cons, Nat.add_assoc, Nat.add_comm 1]
  rw [performed, performed, hlength]
  simp only [Straight.change_cons_of_none hb, Straight.displacement_cons_of_none hb]

theorem Engine.performed_cons_of_some {b : UInt8} {i : Instruction}
    (hb : Instruction.ofByte? b = some i) (tape : Tape w) (mp : Addr) (ip : Nat)
    (bs : List UInt8) :
    performed ⟨tape, mp, ip⟩ (b :: bs) =
      performed ⟨tape.set mp (i.counted (tape.get mp)), i.moved mp, ip + 1⟩ bs := by
  -- the tape, the pointer and the position, one by one
  have htape : tape.raised (fun a => Straight.change a mp (b :: bs)) =
      (tape.set mp (i.counted (tape.get mp))).raised
        fun a => Straight.change a (i.moved mp) bs := by
    rw [i.counted_eq_add, Tape.set_add_ofInt, Tape.raised_raised]
    simp only [Straight.change_cons_of_some hb]
  have hmp : mp + UInt16.ofInt (Straight.displacement (b :: bs)) =
      i.moved mp + UInt16.ofInt (Straight.displacement bs) := by
    rw [Straight.displacement_cons_of_some hb, UInt16.ofInt_add, i.moved_eq_add, UInt16.add_assoc]
  have hlength : ip + (b :: bs).length = ip + 1 + bs.length := by
    rw [List.length_cons, Nat.add_assoc, Nat.add_comm 1]
  rw [performed, performed, htape, hmp, hlength]

namespace Program

variable {κ : Type} [Console κ w] {p : Program}

/-- What stands at a position begins with the byte there, and goes on at the next position. -/
theorem getElem?_of_cons_prefix {b : UInt8} {bs : List UInt8} {pos : Nat}
    (h : b :: bs <+: p.toList.drop pos) :
    p[pos]? = some b ∧ bs <+: p.toList.drop (pos + 1) := by
  obtain ⟨rest, hrest⟩ := h
  refine ⟨?_, rest, ?_⟩
  · rw [← Array.getElem?_toList, ← Nat.add_zero pos, ← List.getElem?_drop, ← hrest]
    rfl
  · rw [← List.tail_drop, ← hrest]
    rfl

/-- **One byte** of straight code is completed, and what the code behind it does then is what all of
it would have done. -/
theorem exists_completes_of_isStraight {b : UInt8} (e : Engine w) (k : κ)
    (hbyte : p[e.instructionPointer]? = some b) (hb : Straight.isStraight b) :
    ∃ e', p.Completes ⟨e, k⟩ ⟨e', k⟩ ∧ e'.instructionPointer = e.instructionPointer + 1 ∧
      ∀ bs, e.performed (b :: bs) = e'.performed bs := by
  obtain ⟨tape, mp, ip⟩ := e
  cases hi : Instruction.ofByte? b with
  | none =>
    exact ⟨_, .comment hbyte hi, rfl, fun bs => Engine.performed_cons_of_none hi tape mp ip bs⟩
  | some i =>
    have instr : p.instruction? ip = some i := by
      rw [instruction?, hbyte, Option.bind_some, hi]
    exact ⟨_, .straight instr (Instruction.isStraight_of_ofByte? hb hi), rfl,
      fun bs => Engine.performed_cons_of_some hi tape mp ip bs⟩

/-- **Straight code** is run from its beginning to its end, and nothing is asked of the console. -/
theorem reaches_performed {bs : List UInt8} (hbs : ∀ b ∈ bs, Straight.isStraight b) (e : Engine w)
    (k : κ) (hat : bs <+: p.toList.drop e.instructionPointer) :
    p.Reaches ⟨e, k⟩ ⟨e.performed bs, k⟩ := by
  induction bs generalizing e with
  | nil =>
    rw [Engine.performed_nil]
    exact .refl
  | cons b bs ih =>
    obtain ⟨hbyte, hrest⟩ := getElem?_of_cons_prefix hat
    obtain ⟨e', hfirst, hip, hall⟩ :=
      exists_completes_of_isStraight e k hbyte (hbs b List.mem_cons_self)
    rw [← hip] at hrest
    rw [hall bs]
    exact .head hfirst (ih (fun c hc => hbs c (List.mem_cons_of_mem b hc)) e' hrest)

/-! ## The middle of a program -/

section Middle

variable (p : Program) {s : Program} (q : Program)

theorem prefix_middle (s : Program) : s.toList <+: (p ++ s ++ q).toList.drop p.size := by
  rw [Array.toList_append, Array.toList_append, List.append_assoc, ← Array.length_toList,
    List.drop_left]
  exact List.prefix_append _ _

/-- From its beginning to its end, straight code in the middle of a program is run as it is. -/
theorem reaches_middle (hs : ∀ b ∈ s.toList, Straight.isStraight b) {e : Engine w}
    (hip : e.instructionPointer = p.size) (k : κ) :
    Reaches (p ++ s ++ q) ⟨e, k⟩ ⟨e.performed s.toList, k⟩ :=
  reaches_performed hs e k (hip ▸ prefix_middle p q s)

end Middle

theorem balanced_of_isStraight (hp : ∀ b ∈ p.toList, Straight.isStraight b) : p.Balanced := by
  have hno : ∀ {pos i}, p.instruction? pos = some i → i.isBracket = false := by
    intro pos i hi
    obtain ⟨b, hbyte, hi⟩ := Option.bind_eq_some_iff.mp hi
    have hmem : b ∈ p.toList := Array.mem_toList_iff.mpr (Array.mem_of_getElem? hbyte)
    exact Instruction.isBracket_of_isStraight (Instruction.isStraight_of_ofByte? (hp b hmem) hi)
  refine balanced_iff_paired.mpr ⟨fun start ho => ?_, fun stop hc => ?_⟩
  · cases hno ho
  · cases hno hc

end Program

end TapeMachine
