import TapeMachine.Bracket
import TapeMachine.Bracket.Balance

/-!
# What a scan finds

A scan keeps a depth, and what it measures is `Program.excess`: going right, the depth is what was
open at the beginning plus the excess of the stretch walked over; going left it is what was closed
at the beginning minus that excess. So each scan stops at the first place where its depth falls
below zero, and gives up only if there is none.

* `Program.closeFrom_spec`, `Program.openBefore_spec` — one statement about each scan, which covers
  both of its outcomes;
* `ClosesFirst`, `OpensLast` — the place where a scan stops; `NeverCloses`, `NeverOpens` — why it
  does not.

Depths are integers here, so that the two directions read alike.

Both statements go by induction along the recursion of the scan. The step is the same for every
byte, whatever it counts: an answer for the stretch without that byte is an answer for the stretch
with it, at the depth before it (`ClosingAnswer.of_succ`, `OpeningAnswer.of_succ`). It is there that
the depth must not be negative. For the place found must be the *first*, and the byte in front could
be one too.
-/

namespace TapeMachine.Program

variable {p : Program} {depth depth' : Int} {pos found found' : Nat}

/-! ## To the right -/

/-- The brackets from `pos` through `found` close one more than is open, and no fewer do. -/
structure ClosesFirst (p : Program) (depth : Int) (pos found : Nat) : Prop where
  /-- the place found is not before the beginning -/
  le : pos ≤ found
  /-- there one bracket too many is closed -/
  closes : depth + p.excess pos (found + 1) = -1
  /-- until there only open brackets are closed -/
  before : ∀ k, pos ≤ k → k ≤ found → 0 ≤ depth + p.excess pos k

/-- Nothing is closed from `pos` on but what is open. -/
def NeverCloses (p : Program) (depth : Int) (pos : Nat) : Prop :=
  ∀ k, pos ≤ k → 0 ≤ depth + p.excess pos k

/-- What a scan to the right may answer. -/
def ClosingAnswer (p : Program) (depth : Int) (pos : Nat) : Option Nat → Prop
  | some found => p.ClosesFirst depth pos found
  | none => p.NeverCloses depth pos

/-- There is at most one first place: of two of them, the earlier one would close too much on the
way to the later one. -/
theorem ClosesFirst.unique (h : p.ClosesFirst depth pos found)
    (h' : p.ClosesFirst depth pos found') : found = found' := by
  rcases Nat.lt_trichotomy found found' with hlt | heq | hgt
  · have hlow := h'.before (found + 1) (Nat.le_succ_of_le h.le) hlt
    have := h.closes
    omega
  · exact heq
  · have hlow := h.before (found' + 1) (Nat.le_succ_of_le h'.le) hgt
    have := h'.closes
    omega

/-- The two answers of a scan exclude each other, so that an answer which is known to be right is
the answer that is given. -/
theorem ClosesFirst.not_neverCloses (h : p.ClosesFirst depth pos found) :
    ¬ p.NeverCloses depth pos := by
  intro hn
  have hlow := hn (found + 1) (Nat.le_succ_of_le h.le)
  have := h.closes
  omega

/-- The bracket that closes too much is a closing one, and everything before it is closed. A single
byte changes the depth by one at most, so the depth cannot jump over zero. -/
theorem ClosesFirst.bracketAt_found (h : p.ClosesFirst depth pos found) :
    p.bracketAt found = -1 ∧ depth + p.excess pos found = 0 := by
  have hlow := h.before found h.le (Nat.le_refl found)
  have hsum := h.closes
  have hbyte := neg_one_le_bracketAt p found
  rw [excess_succ_right p h.le] at hsum
  exact ⟨by omega, by omega⟩

/-- A byte taken at the front of a stretch counts towards the depth. Nothing is closed too early by
it, since the depth before it is not negative. -/
theorem ClosesFirst.of_succ (hd : 0 ≤ depth) (hd' : depth' = depth + p.bracketAt pos)
    (h : p.ClosesFirst depth' (pos + 1) found) : p.ClosesFirst depth pos found where
  le := Nat.le_of_succ_le h.le
  closes := by
    have hsum := h.closes
    rw [excess_eq_add p (Nat.lt_add_one_of_le (Nat.le_of_succ_le h.le))]
    omega
  before := by
    intro k hk hkf
    rcases Nat.eq_or_lt_of_le hk with rfl | hlt
    · -- at the new byte nothing has been walked over yet
      rw [excess_self]
      omega
    · have hsum := h.before k hlt hkf
      rw [excess_eq_add p hlt]
      omega

theorem NeverCloses.of_succ (hd : 0 ≤ depth) (hd' : depth' = depth + p.bracketAt pos)
    (h : p.NeverCloses depth' (pos + 1)) : p.NeverCloses depth pos := by
  intro k hk
  rcases Nat.eq_or_lt_of_le hk with rfl | hlt
  · rw [excess_self]
    omega
  · have hsum := h k hlt
    rw [excess_eq_add p hlt]
    omega

theorem ClosingAnswer.of_succ {answer : Option Nat} (hd : 0 ≤ depth)
    (hd' : depth' = depth + p.bracketAt pos) (h : p.ClosingAnswer depth' (pos + 1) answer) :
    p.ClosingAnswer depth pos answer := by
  cases answer with
  | some found => exact ClosesFirst.of_succ hd hd' h
  | none => exact NeverCloses.of_succ hd hd' h

theorem neverCloses_of_size_le (hd : 0 ≤ depth) (h : p.size ≤ pos) : p.NeverCloses depth pos := by
  intro k hk
  rw [excess_of_size_le h hk]
  omega

/-- **The scan to the right** stops at the first place where one bracket too many is closed, and
comes to the end of the program only if there is none. Both outcomes stand in one statement, because
the recursion passes on whichever it is. -/
theorem closeFrom_spec (p : Program) (nested pos : Nat) :
    p.ClosingAnswer nested pos (closeFrom p nested pos) := by
  fun_induction closeFrom p nested pos with
  | case1 nested pos hpos hb ih =>
    have hbyte : p.bracketAt pos = 1 := bracketAt_beginLoop (by simp [instruction?, hpos, hb])
    exact ih.of_succ (by omega) (by omega)
  | case2 pos hpos hb =>
    -- nothing is open, so this is the place; there is none before it
    have hbyte : p.bracketAt pos = -1 := bracketAt_endLoop (by simp [instruction?, hpos, hb])
    refine ⟨Nat.le_refl pos, ?_, ?_⟩
    · rw [excess_succ_self, hbyte]
      rfl
    · intro k hk hkf
      obtain rfl := Nat.le_antisymm hk hkf
      simp
  | case3 pos hpos hb n ih =>
    -- one of the open brackets is closed here, and the scan goes on
    have hbyte : p.bracketAt pos = -1 := bracketAt_endLoop (by simp [instruction?, hpos, hb])
    exact ih.of_succ (by omega) (by omega)
  | case4 nested pos hpos hnb hne ih =>
    have hbyte : p.bracketAt pos = 0 :=
      bracketAt_of_ne (by simpa [instruction?, hpos] using hnb)
        (by simpa [instruction?, hpos] using hne)
    exact ih.of_succ (by omega) (by omega)
  | case5 nested pos hpos =>
    exact neverCloses_of_size_le (by omega) (Nat.le_of_not_lt hpos)

/-! ## To the left

The same the other way round. Here it is the end of the stretch that moves, and the byte that is
taken stands at the end. -/

/-- The brackets from `found` up to `pos` open one more than is closed, and no fewer do. -/
structure OpensLast (p : Program) (depth : Int) (pos found : Nat) : Prop where
  /-- the place found is before the beginning -/
  lt : found < pos
  /-- there one bracket too many is opened -/
  opens : depth - p.excess found pos = -1
  /-- until there only closed brackets are opened -/
  before : ∀ k, found < k → k ≤ pos → 0 ≤ depth - p.excess k pos

/-- Nothing is opened before `pos` but what is closed. -/
def NeverOpens (p : Program) (depth : Int) (pos : Nat) : Prop :=
  ∀ k, k ≤ pos → 0 ≤ depth - p.excess k pos

/-- What a scan to the left may answer. -/
def OpeningAnswer (p : Program) (depth : Int) (pos : Nat) : Option Nat → Prop
  | some found => p.OpensLast depth pos found
  | none => p.NeverOpens depth pos

/-- There is at most one last place, for the same reason as to the right. -/
theorem OpensLast.unique (h : p.OpensLast depth pos found)
    (h' : p.OpensLast depth pos found') : found = found' := by
  rcases Nat.lt_trichotomy found found' with hlt | heq | hgt
  · have hlow := h.before found' hlt (Nat.le_of_lt h'.lt)
    have := h'.opens
    omega
  · exact heq
  · have hlow := h'.before found hgt (Nat.le_of_lt h.lt)
    have := h.opens
    omega

theorem OpensLast.not_neverOpens (h : p.OpensLast depth pos found) :
    ¬ p.NeverOpens depth pos := by
  intro hn
  have hlow := hn found (Nat.le_of_lt h.lt)
  have := h.opens
  omega

/-- The bracket that opens too much is an opening one, and everything after it is opened. -/
theorem OpensLast.bracketAt_found (h : p.OpensLast depth pos found) :
    p.bracketAt found = 1 ∧ depth - p.excess (found + 1) pos = 0 := by
  have hlow := h.before (found + 1) (Nat.lt_succ_self found) h.lt
  have hsum := h.opens
  have hbyte := bracketAt_le_one p found
  rw [excess_eq_add p h.lt] at hsum
  exact ⟨by omega, by omega⟩

/-- A byte taken at the end of a stretch counts towards the depth. -/
theorem OpensLast.of_succ (hd : 0 ≤ depth) (hd' : depth' = depth - p.bracketAt pos)
    (h : p.OpensLast depth' pos found) : p.OpensLast depth (pos + 1) found where
  lt := Nat.lt_succ_of_lt h.lt
  opens := by
    have hsum := h.opens
    rw [excess_succ_right p (Nat.le_of_lt h.lt)]
    omega
  before := by
    intro k hk hkp
    rcases Nat.eq_or_lt_of_le hkp with rfl | hlt
    · rw [excess_self]
      omega
    · have hle := Nat.le_of_lt_succ hlt
      have hsum := h.before k hk hle
      rw [excess_succ_right p hle]
      omega

theorem NeverOpens.of_succ (hd : 0 ≤ depth) (hd' : depth' = depth - p.bracketAt pos)
    (h : p.NeverOpens depth' pos) : p.NeverOpens depth (pos + 1) := by
  intro k hkp
  rcases Nat.eq_or_lt_of_le hkp with rfl | hlt
  · rw [excess_self]
    omega
  · have hle := Nat.le_of_lt_succ hlt
    have hsum := h k hle
    rw [excess_succ_right p hle]
    omega

theorem OpeningAnswer.of_succ {answer : Option Nat} (hd : 0 ≤ depth)
    (hd' : depth' = depth - p.bracketAt pos) (h : p.OpeningAnswer depth' pos answer) :
    p.OpeningAnswer depth (pos + 1) answer := by
  cases answer with
  | some found => exact OpensLast.of_succ hd hd' h
  | none => exact NeverOpens.of_succ hd hd' h

/-- A scan that has more to close opens too much no earlier. It follows that nothing is open behind
a closing bracket, if nothing was in front of it. -/
theorem NeverOpens.mono (hle : depth ≤ depth') (h : p.NeverOpens depth pos) :
    p.NeverOpens depth' pos := by
  intro k hk
  have := h k hk
  omega

theorem neverOpens_zero (p : Program) (hd : 0 ≤ depth) : p.NeverOpens depth 0 := by
  intro k hk
  obtain rfl := Nat.le_zero.mp hk
  rw [excess_self]
  omega

/-- **The scan to the left** stops at the last place where one bracket too many is opened, and comes
to the beginning of the program only if there is none. It must begin inside the program. -/
theorem openBefore_spec (p : Program) (nested : Nat) {pos : Nat} (hpos : pos ≤ p.size) :
    p.OpeningAnswer nested pos (openBefore p nested pos) := by
  fun_induction openBefore p nested pos with
  | case1 nested => exact neverOpens_zero p (Int.natCast_nonneg nested)
  | case2 nested pos hb =>
    -- the scan would have begun beyond the end
    have := Array.getElem?_eq_none_iff.mp hb
    omega
  | case3 nested pos b hb hi ih =>
    have hbyte : p.bracketAt pos = -1 := bracketAt_endLoop (by simp [instruction?, hb, hi])
    exact (ih (Nat.le_of_succ_le hpos)).of_succ (by omega) (by omega)
  | case4 pos b hb hi =>
    have hbyte : p.bracketAt pos = 1 := bracketAt_beginLoop (by simp [instruction?, hb, hi])
    refine ⟨Nat.lt_succ_self pos, ?_, ?_⟩
    · rw [excess_succ_self, hbyte]
      rfl
    · intro k hk hkp
      obtain rfl := Nat.le_antisymm hkp hk
      simp
  | case5 pos b hb hi n ih =>
    have hbyte : p.bracketAt pos = 1 := bracketAt_beginLoop (by simp [instruction?, hb, hi])
    exact (ih (Nat.le_of_succ_le hpos)).of_succ (by omega) (by omega)
  | case6 nested pos b hb hnb hne ih =>
    have hbyte : p.bracketAt pos = 0 :=
      bracketAt_of_ne (by simpa [instruction?, hb] using hne)
        (by simpa [instruction?, hb] using hnb)
    exact (ih (Nat.le_of_succ_le hpos)).of_succ (by omega) (by omega)

end TapeMachine.Program
