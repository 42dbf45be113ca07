import Mathlib.Order.Bounds.Basic
import Mathlib.Order.Nat
import TapeMachine.Proofs.Bracket.Scan

/-!
# Scans as searches

What a scan answers, said without a scan. From any position, inside or outside the program and
whatever byte stands there, the scan to the right finds the first position such that the bytes
behind the start and up to there hold one closing bracket more than opening ones
(`Program.closers`). The scan to the left finds the last position such that the bytes from there up
to the start hold one opening bracket more than closing ones (`Program.openers`), if it starts
inside the program.

Brackets are counted in the bytes themselves, and `excess_eq_count_sub_count` ties this to the
balance that a scan measures. That no bracket can be passed over, because the balance changes by one
at a time, is in `closeFrom_spec` and `openBefore_spec`.

The two directions are not mirror images. A scan to the right may start beyond the end, where there
is nothing behind it; a scan to the left that starts there meets the missing byte first, and gives
up although there may be brackets further left. This is why only the second one asks where the start
is.
-/

namespace TapeMachine.Program

open Instruction (beginLoop endLoop)

variable {p q : Program} {start found i j : Nat} {e : UnmatchedBracket}

/-! ## Counting in the bytes

Depth is a sum over instructions everywhere else. Here it is the difference of two numbers of bytes,
which says where a scan stops without any scan. -/

/-- What a byte counts, told by the byte itself. Two separate tests make it the difference of two
counts, which is how it is added up below. -/
theorem bracketAt_eq_ite (hj : j < p.size) :
    p.bracketAt j = (if p[j] = beginLoop.toByte then 1 else 0) -
      if p[j] = endLoop.toByte then 1 else 0 := by
  have hinstr : ∀ i, p.instruction? j = some i ↔ p[j] = i.toByte := by
    intro i
    rw [instruction?, Array.getElem?_eq_getElem hj, Option.bind_some,
      Instruction.ofByte?_eq_some_iff]
  by_cases hb : p[j] = beginLoop.toByte
  · rw [bracketAt_beginLoop ((hinstr _).mpr hb), if_pos hb, hb]
    rfl
  · by_cases he : p[j] = endLoop.toByte
    · rw [bracketAt_endLoop ((hinstr _).mpr he), if_neg hb, if_pos he]
      rfl
    · rw [bracketAt_of_ne (mt (hinstr _).mp hb) (mt (hinstr _).mp he), if_neg hb, if_neg he]
      rfl

/-- **The balance** of a stretch is the difference of two counts. Beyond the end of the program the
stretch of bytes does not grow any more, and there the balance does not change either. -/
theorem excess_eq_count_sub_count (p : Program) (hij : i ≤ j) :
    p.excess i j =
      (p.extract i j).count beginLoop.toByte - (p.extract i j).count endLoop.toByte := by
  induction j, hij using Nat.le_induction with
  | base =>
    rw [excess_self, Array.extract_empty_of_stop_le_start (Nat.le_refl i)]
    rfl
  | succ j hij ih =>
    rw [excess_succ_right p hij, ih]
    by_cases hj : j < p.size
    · rw [bracketAt_eq_ite hj, Array.extract_succ_right (Nat.lt_succ_of_le hij) hj,
        Array.count_push, Array.count_push]
      simp only [beq_iff_eq]
      split <;> split <;> omega
    · -- behind the end neither side changes
      have hsize : p.size ≤ j := Nat.le_of_not_lt hj
      have hsame : p.extract i (j + 1) = p.extract i j :=
        Array.extract_eq_extract_right.mpr (by omega)
      rw [bracketAt_of_size_le hsize, hsame, Int.add_zero]

/-! ## To the right -/

/-- The positions behind `start` up to which one bracket more is closed than opened. -/
def closers (p : Program) (start : Nat) : Set Nat :=
  {j | start < j ∧ j < p.size ∧
    (p.extract (start + 1) (j + 1)).count endLoop.toByte =
      (p.extract (start + 1) (j + 1)).count beginLoop.toByte + 1}

theorem mem_closers_iff :
    j ∈ p.closers start ↔ start < j ∧ j < p.size ∧ p.excess (start + 1) (j + 1) = -1 := by
  refine and_congr_right fun hj => and_congr_right fun _ => ?_
  have hcount := excess_eq_count_sub_count p (show start + 1 ≤ j + 1 by omega)
  omega

/-- The scan stops at the first of these positions: an earlier one would have been a place where too
much is closed. -/
theorem ClosesFirst.isLeast (h : p.ClosesFirst 0 (start + 1) found) (hsize : found < p.size) :
    IsLeast (p.closers start) found := by
  have hcloses := h.closes
  refine ⟨mem_closers_iff.mpr ⟨h.le, hsize, by omega⟩, fun j hj => ?_⟩
  obtain ⟨hlt, -, hsum⟩ := mem_closers_iff.mp hj
  by_contra hless
  have := h.before (j + 1) (Nat.le_succ_of_le hlt) (by omega)
  omega

/-- A scan that does not stop comes to none of them. -/
theorem NeverCloses.closers_eq_empty (h : p.NeverCloses 0 (start + 1)) : p.closers start = ∅ := by
  refine Set.eq_empty_of_forall_notMem fun j hj => ?_
  obtain ⟨hlt, -, hsum⟩ := mem_closers_iff.mp hj
  have := h (j + 1) (Nat.le_succ_of_le hlt)
  omega

/-- **To the right**, a scan finds the first of the positions, or there is none. The two iffs below
are both read off this one disjunction, since its cases exclude each other. -/
theorem matchForward_isLeast_or_eq_empty (p : Program) (start : Nat) :
    (∃ found, p.matchForward start = .ok found ∧ IsLeast (p.closers start) found) ∨
      (p.matchForward start = .error ⟨start, .forward⟩ ∧ p.closers start = ∅) := by
  have hspec := closeFrom_spec p 0 (start + 1)
  unfold matchForward
  cases hc : closeFrom p 0 (start + 1) with
  | some found =>
    rw [hc] at hspec
    exact Or.inl ⟨found, rfl, hspec.isLeast (lt_size_of_instruction? (closeFrom_eq_some hc).2)⟩
  | none =>
    rw [hc] at hspec
    exact Or.inr ⟨rfl, hspec.closers_eq_empty⟩

theorem matchForward_eq_ok_iff_isLeast :
    p.matchForward start = .ok found ↔ IsLeast (p.closers start) found := by
  obtain ⟨stop, heq, hleast⟩ | ⟨heq, hnone⟩ := matchForward_isLeast_or_eq_empty p start
  · rw [heq, Except.ok.injEq]
    refine ⟨?_, hleast.unique⟩
    rintro rfl
    exact hleast
  · rw [heq, hnone]
    refine ⟨nofun, fun h => absurd h.1 (Set.notMem_empty _)⟩

theorem matchForward_eq_error_iff :
    p.matchForward start = .error e ↔ e = ⟨start, .forward⟩ ∧ p.closers start = ∅ := by
  obtain ⟨stop, heq, hleast⟩ | ⟨heq, hnone⟩ := matchForward_isLeast_or_eq_empty p start
  · rw [heq]
    refine ⟨nofun, fun ⟨_, hnone⟩ => ?_⟩
    exact absurd (hnone ▸ hleast.1) (Set.notMem_empty _)
  · rw [heq, Except.error.injEq, and_iff_left hnone, eq_comm]

/-! ## To the left -/

/-- The positions before `start` from which on one bracket more is opened than closed. -/
def openers (p : Program) (start : Nat) : Set Nat :=
  {j | j < start ∧
    (p.extract j start).count beginLoop.toByte = (p.extract j start).count endLoop.toByte + 1}

theorem mem_openers_iff : j ∈ p.openers start ↔ j < start ∧ p.excess j start = 1 := by
  refine and_congr_right fun hj => ?_
  have hcount := excess_eq_count_sub_count p (Nat.le_of_lt hj)
  omega

/-- The scan stops at the last of these positions. -/
theorem OpensLast.isGreatest (h : p.OpensLast 0 start found) :
    IsGreatest (p.openers start) found := by
  have hopens := h.opens
  refine ⟨mem_openers_iff.mpr ⟨h.lt, by omega⟩, fun j hj => ?_⟩
  obtain ⟨hlt, hsum⟩ := mem_openers_iff.mp hj
  by_contra hless
  have := h.before j (by omega) (Nat.le_of_lt hlt)
  omega

theorem NeverOpens.openers_eq_empty (h : p.NeverOpens 0 start) : p.openers start = ∅ := by
  refine Set.eq_empty_of_forall_notMem fun j hj => ?_
  obtain ⟨hlt, hsum⟩ := mem_openers_iff.mp hj
  have := h j (Nat.le_of_lt hlt)
  omega

/-- A scan that starts beyond the end gives up at once, whatever stands in the program. -/
theorem matchBackward_of_size_lt (h : p.size < start) :
    p.matchBackward start = .error ⟨start, .backward⟩ := by
  obtain ⟨pos, rfl⟩ := Nat.exists_eq_succ_of_ne_zero (Nat.ne_zero_of_lt h)
  rw [matchBackward, openBefore, Array.getElem?_eq_none (Nat.le_of_lt_succ h)]

/-- **To the left**, a scan that starts inside the program finds the last of the positions, or there
is none. -/
theorem matchBackward_isGreatest_or_eq_empty (h : start ≤ p.size) :
    (∃ found, p.matchBackward start = .ok found ∧ IsGreatest (p.openers start) found) ∨
      (p.matchBackward start = .error ⟨start, .backward⟩ ∧ p.openers start = ∅) := by
  have hspec := openBefore_spec p 0 h
  unfold matchBackward
  cases hc : openBefore p 0 start with
  | some found =>
    rw [hc] at hspec
    exact Or.inl ⟨found, rfl, hspec.isGreatest⟩
  | none =>
    rw [hc] at hspec
    exact Or.inr ⟨rfl, hspec.openers_eq_empty⟩

theorem matchBackward_eq_ok_iff_isGreatest :
    p.matchBackward start = .ok found ↔ start ≤ p.size ∧ IsGreatest (p.openers start) found := by
  by_cases hle : start ≤ p.size
  · rw [and_iff_right hle]
    obtain ⟨last, heq, hgreatest⟩ | ⟨heq, hnone⟩ := matchBackward_isGreatest_or_eq_empty hle
    · rw [heq, Except.ok.injEq]
      refine ⟨?_, hgreatest.unique⟩
      rintro rfl
      exact hgreatest
    · rw [heq, hnone]
      exact ⟨nofun, fun h => absurd h.1 (Set.notMem_empty _)⟩
  · rw [matchBackward_of_size_lt (Nat.lt_of_not_le hle)]
    exact ⟨nofun, fun h => absurd h.1 hle⟩

theorem matchBackward_eq_error_iff :
    p.matchBackward start = .error e ↔
      e = ⟨start, .backward⟩ ∧ (p.size < start ∨ p.openers start = ∅) := by
  by_cases hle : start ≤ p.size
  · obtain ⟨last, heq, hgreatest⟩ | ⟨heq, hnone⟩ := matchBackward_isGreatest_or_eq_empty hle
    · rw [heq]
      refine ⟨nofun, ?_⟩
      rintro ⟨-, hlt | hnone⟩
      · exact absurd hle (Nat.not_le_of_lt hlt)
      · exact absurd (hnone ▸ hgreatest.1) (Set.notMem_empty _)
    · rw [heq, Except.error.injEq, and_iff_left (Or.inr hnone), eq_comm]
  · have hlt := Nat.lt_of_not_le hle
    rw [matchBackward_of_size_lt hlt, Except.error.injEq, and_iff_left (Or.inl hlt), eq_comm]

/-! ## The byte at the start

A scan begins behind the byte or before it, so it never sees whether there is a bracket at all. -/

/-- Both scans look past the byte at the start: another byte there leaves the counts alone. -/
theorem closers_setIfInBounds (p : Program) (start : Nat) (b : UInt8) :
    closers (p.setIfInBounds start b) start = p.closers start := by
  have hsame : ∀ j, (p.setIfInBounds start b).extract (start + 1) j = p.extract (start + 1) j := by
    intro j
    unfold Array.setIfInBounds
    split
    · rw [Array.extract_set, dif_pos (Nat.lt_succ_self start)]
    · rfl
  simp only [closers, hsame, Array.size_setIfInBounds]

theorem openers_setIfInBounds (p : Program) (start : Nat) (b : UInt8) :
    openers (p.setIfInBounds start b) start = p.openers start := by
  have hsame : ∀ j, (p.setIfInBounds start b).extract j start = p.extract j start := by
    intro j
    unfold Array.setIfInBounds
    split
    · rw [Array.extract_set]
      split
      · rfl
      · exact dif_neg (by omega)
    · rfl
  simp only [openers, hsame]

/-- The answer to the right is told by the positions that it is searched among, so a program may be
changed wherever that leaves them alone. -/
theorem matchForward_congr (h : q.closers start = p.closers start) :
    q.matchForward start = p.matchForward start := by
  cases hp : p.matchForward start with
  | ok found => rwa [matchForward_eq_ok_iff_isLeast, h, ← matchForward_eq_ok_iff_isLeast]
  | error e => rwa [matchForward_eq_error_iff, h, ← matchForward_eq_error_iff]

theorem matchBackward_congr (hsize : q.size = p.size) (h : q.openers start = p.openers start) :
    q.matchBackward start = p.matchBackward start := by
  cases hp : p.matchBackward start with
  | ok found =>
    rwa [matchBackward_eq_ok_iff_isGreatest, hsize, h, ← matchBackward_eq_ok_iff_isGreatest]
  | error e => rwa [matchBackward_eq_error_iff, hsize, h, ← matchBackward_eq_error_iff]

/-- **Scans from anywhere.** Let a scan start at any position, inside or outside the program.

To the right it finds the first position behind the start, inside the program, up to which one
bracket more is closed than opened. If there is none, it reports its start and its direction. To the
left it finds the last position before the start from which on one bracket more is opened than
closed, unless it starts beyond the end; if there is none, or if it starts beyond the end, it
reports its start and its direction. So it does from the beginning, in front of which nothing
stands.

No other byte at the start makes a difference to either scan. -/
theorem scans_find_nearest (p : Program) (start : Nat) :
    (∀ found, p.matchForward start = .ok found ↔ IsLeast (p.closers start) found) ∧
    (∀ e, p.matchForward start = .error e ↔ e = ⟨start, .forward⟩ ∧ p.closers start = ∅) ∧
    (∀ found, p.matchBackward start = .ok found ↔
      start ≤ p.size ∧ IsGreatest (p.openers start) found) ∧
    (∀ e, p.matchBackward start = .error e ↔
      e = ⟨start, .backward⟩ ∧ (p.size < start ∨ p.openers start = ∅)) ∧
    p.matchBackward 0 = .error ⟨0, .backward⟩ ∧
    ∀ b, matchForward (p.setIfInBounds start b) start = p.matchForward start ∧
      matchBackward (p.setIfInBounds start b) start = p.matchBackward start := by
  refine ⟨fun _ => matchForward_eq_ok_iff_isLeast, fun _ => matchForward_eq_error_iff,
    fun _ => matchBackward_eq_ok_iff_isGreatest, fun _ => matchBackward_eq_error_iff,
    matchBackward_zero p, fun b => ⟨?_, ?_⟩⟩
  · exact matchForward_congr (closers_setIfInBounds p start b)
  · exact matchBackward_congr Array.size_setIfInBounds (openers_setIfInBounds p start b)

end TapeMachine.Program
