/-!
# Cells: words that wrap around

A cell of the tape is a word of `w` bits. All arithmetic on it is modulo `2 ^ w`, so the cell after
the largest one is zero and the cell before zero is the largest one. Bytes enter a cell unchanged
(`Cell.ofByte`) and leave it reduced modulo 256 (`Cell.lowByte`).

The width stays a parameter throughout: nothing but the choice of a machine fixes it.

Counting is defined as a machine would do it, with a check whether there is room for one more. The
laws `succ_eq_add_one` and `pred_eq_sub_one` turn it into addition and subtraction of one in the
ring of words, where the library knows everything else; no other proof looks at the check.
-/

namespace TapeMachine

/-- One cell of a tape: a word of `w` bits, with arithmetic modulo `2 ^ w`. -/
abbrev Cell (w : Nat) := BitVec w

namespace Cell

variable {w : Nat}

/-- The largest cell value, all of whose bits are set. -/
def largest : Cell w := BitVec.allOnes w

/-- Whether the cell is zero. -/
@[inline] def isZero (c : Cell w) : Bool := c.toNat == 0

/-- The next cell value; one that needs a further bit becomes zero. -/
@[inline] def succ (c : Cell w) : Cell w :=
  if h : (c.toNat + 1) >>> w = 0 then
    BitVec.ofNatLT (c.toNat + 1)
      ((Nat.div_eq_zero_iff_lt (Nat.two_pow_pos w)).mp (Nat.shiftRight_eq_div_pow .. ▸ h))
  else 0

/-- The previous cell value; zero is preceded by the largest. -/
@[inline] def pred (c : Cell w) : Cell w :=
  if c.isZero then largest
  else BitVec.ofNatLT (c.toNat - 1) (Nat.lt_of_le_of_lt (Nat.sub_le ..) c.isLt)

/-- A byte as a cell value. -/
def ofByte (b : UInt8) : Cell w := BitVec.ofNat w b.toNat

/-- The value of the cell modulo 256. -/
def lowByte (c : Cell w) : UInt8 := UInt8.ofNat c.toNat

@[simp] theorem isZero_iff (c : Cell w) : c.isZero ↔ c = 0 := by
  simp [isZero, ← BitVec.toNat_inj]

theorem isZero_eq_false_iff (c : Cell w) : c.isZero = false ↔ c ≠ 0 := by
  rw [Bool.eq_false_iff, ne_eq, isZero_iff]

theorem succ_eq_add_one (c : Cell w) : c.succ = c + 1 := by
  refine BitVec.eq_of_toNat_eq ?_
  have hmod : (c + 1).toNat = (c.toNat + 1) % 2 ^ w := by simp [BitVec.toNat_add, Nat.add_mod]
  have hlt := c.isLt
  rw [hmod, succ]
  split
  · next h =>
    rw [Nat.shiftRight_eq_div_pow, Nat.div_eq_zero_iff_lt (Nat.two_pow_pos w)] at h
    rw [BitVec.toNat_ofNatLT, Nat.mod_eq_of_lt h]
  · next h =>
    rw [Nat.shiftRight_eq_div_pow, Nat.div_eq_zero_iff_lt (Nat.two_pow_pos w)] at h
    have : c.toNat + 1 = 2 ^ w := by omega
    simp [this]

theorem largest_add_one : (largest : Cell w) + 1 = 0 := by
  rw [largest, ← BitVec.neg_one_eq_allOnes]
  exact BitVec.add_left_neg 1

theorem pred_eq_sub_one (c : Cell w) : c.pred = c - 1 := by
  have h : (c.pred).succ = c := by
    refine BitVec.eq_of_toNat_eq ?_
    rw [succ_eq_add_one, pred]
    split
    · next h =>
      rw [isZero_iff] at h
      rw [h, largest_add_one]
    · next h =>
      have hpos : c.toNat ≠ 0 := by simpa [isZero] using h
      have hlt := c.isLt
      have : c.toNat - 1 + 1 = c.toNat := by omega
      simp [BitVec.toNat_add, this, Nat.mod_eq_of_lt hlt]
  rw [← BitVec.add_sub_cancel c.pred 1, ← succ_eq_add_one, h]

@[simp] theorem pred_succ (c : Cell w) : c.succ.pred = c := by
  rw [succ_eq_add_one, pred_eq_sub_one]
  exact BitVec.add_sub_cancel c 1

@[simp] theorem succ_pred (c : Cell w) : c.pred.succ = c := by
  rw [succ_eq_add_one, pred_eq_sub_one]
  exact BitVec.sub_add_cancel c 1

/-- **Wrapping.** The largest cell value is followed by zero. -/
@[simp] theorem succ_largest : (largest : Cell w).succ = 0 := by
  rw [succ_eq_add_one, largest_add_one]

/-- **Wrapping.** Zero is preceded by the largest cell value. -/
@[simp] theorem pred_zero : (0 : Cell w).pred = largest := by
  rw [← succ_largest, pred_succ]

/-- A cell of at least one bit can hold something else than zero. -/
theorem one_ne_zero (h : 0 < w) : (1 : Cell w) ≠ 0 := by
  intro heq
  have hone : 1 % 2 ^ w = 0 := congrArg BitVec.toNat heq
  rw [Nat.mod_eq_of_lt (Nat.one_lt_two_pow (Nat.ne_of_gt h))] at hone
  exact absurd hone (by decide)

/-- A byte survives the way through a cell that is at least as wide. Every machine has cells of
eight bits or more, so what is read and written again comes out unchanged. -/
theorem lowByte_ofByte (b : UInt8) (h : 8 ≤ w) : (ofByte b : Cell w).lowByte = b := by
  have hb : b.toNat < 2 ^ w :=
    Nat.lt_of_lt_of_le b.toNat_lt (Nat.pow_le_pow_right (by decide) h)
  simp [ofByte, lowByte, Nat.mod_eq_of_lt hb]

end Cell

end TapeMachine
