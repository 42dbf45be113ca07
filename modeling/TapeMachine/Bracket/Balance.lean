import Mathlib.Algebra.Ring.Int.Defs
import TapeMachine.Program

/-!
# Counting brackets

An opening bracket counts one, a closing bracket minus one and every other byte nothing.
`Program.excess` adds this up over a stretch of a program; a program is `Balanced` when no
beginning of it has closed more than it opened, and the whole closes all that it opened.

Stretches can be joined (`excess_add`) and grow by one byte at either end (`excess_succ_right`,
`excess_eq_add`), and what a byte counts tells which bracket it is. These few laws are all that is
used of the sum: a statement about brackets is turned into one about two or three values of
`excess`, and from there on it is arithmetic.

The count is an integer, so that it may fall below zero where too much is closed, and so that the
same laws serve a walk to the right and a walk to the left.
-/

namespace TapeMachine.Program

/-- What the byte at a position adds to the number of open brackets. -/
def bracketAt (p : Program) (pos : Nat) : Int :=
  match p.instruction? pos with
  | some .beginLoop => 1
  | some .endLoop => -1
  | _ => 0

/-- How many more brackets are opened than closed from position `i` up to but not including `j`. It
is zero when `j` does not come after `i`. -/
def excess (p : Program) (i j : Nat) : Int := ((List.range' i (j - i)).map p.bracketAt).sum

/-- No beginning of the program closes more brackets than it opens, and the whole program closes
all of them. -/
def Balanced (p : Program) : Prop := (∀ k ≤ p.size, 0 ≤ p.excess 0 k) ∧ p.excess 0 p.size = 0

instance (p : Program) : Decidable p.Balanced :=
  inferInstanceAs (Decidable ((∀ k ≤ p.size, 0 ≤ p.excess 0 k) ∧ p.excess 0 p.size = 0))

variable {p : Program} {i j k : Nat}

@[simp] theorem excess_self (p : Program) (i : Nat) : p.excess i i = 0 := by simp [excess]

/-- **Joining.** The counts of two adjacent stretches add up. -/
theorem excess_add (p : Program) (hij : i ≤ j) (hjk : j ≤ k) :
    p.excess i j + p.excess j k = p.excess i k := by
  have hlen : k - i = (j - i) + (k - j) := by omega
  have hstart : i + (j - i) = j := by omega
  rw [excess, excess, excess, hlen, ← List.range'_append_1, hstart, List.map_append,
    List.sum_append]

@[simp] theorem excess_succ_self (p : Program) (i : Nat) : p.excess i (i + 1) = p.bracketAt i := by
  simp [excess]

theorem excess_succ_right (p : Program) (hij : i ≤ j) :
    p.excess i (j + 1) = p.excess i j + p.bracketAt j := by
  rw [← excess_add p hij (Nat.le_succ j), excess_succ_self]

theorem excess_eq_add (p : Program) (hij : i < j) :
    p.excess i j = p.bracketAt i + p.excess (i + 1) j := by
  rw [← excess_add p (Nat.le_succ i) hij, excess_succ_self]

theorem bracketAt_beginLoop (h : p.instruction? i = some .beginLoop) : p.bracketAt i = 1 := by
  simp [bracketAt, h]

theorem bracketAt_endLoop (h : p.instruction? i = some .endLoop) : p.bracketAt i = -1 := by
  simp [bracketAt, h]

theorem bracketAt_of_ne (hb : p.instruction? i ≠ some .beginLoop)
    (he : p.instruction? i ≠ some .endLoop) : p.bracketAt i = 0 := by
  unfold bracketAt
  split
  · contradiction
  · contradiction
  · rfl

theorem bracketAt_le_one (p : Program) (i : Nat) : p.bracketAt i ≤ 1 := by
  unfold bracketAt
  split <;> decide

theorem neg_one_le_bracketAt (p : Program) (i : Nat) : -1 ≤ p.bracketAt i := by
  unfold bracketAt
  split <;> decide

theorem instruction?_of_bracketAt_pos (h : 0 < p.bracketAt i) :
    p.instruction? i = some .beginLoop := by
  unfold bracketAt at h
  split at h
  · assumption
  · cases h
  · cases h

theorem instruction?_of_bracketAt_neg (h : p.bracketAt i < 0) :
    p.instruction? i = some .endLoop := by
  unfold bracketAt at h
  split at h
  · cases h
  · assumption
  · cases h

theorem bracketAt_of_size_le (h : p.size ≤ i) : p.bracketAt i = 0 := by
  simp [bracketAt, instruction?, Array.getElem?_eq_none h]

theorem excess_of_size_le (h : p.size ≤ i) (hij : i ≤ j) : p.excess i j = 0 := by
  obtain ⟨n, rfl⟩ := Nat.exists_eq_add_of_le hij
  induction n with
  | zero => exact excess_self p i
  | succ n ih =>
    rw [← Nat.add_assoc, excess_succ_right p (Nat.le_add_right i n), ih (Nat.le_add_right i n),
      bracketAt_of_size_le (Nat.le_trans h (Nat.le_add_right i n)), Int.add_zero]

end TapeMachine.Program
