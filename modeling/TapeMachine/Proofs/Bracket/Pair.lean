import TapeMachine.Proofs.Bracket.Scan

/-!
# Pairs of brackets

A stretch of a program is balanced (`Program.BalancedBetween`) when it closes exactly what it opens.
Two brackets form a pair (`Program.Paired`) when the stretch between them is balanced. This says
nothing about how a pair is found; that both scans find the pairs and nothing else is the content of
`matchForward_cases` and `matchBackward_cases`.

* A bracket is in at most one pair (`Paired.stop_unique`, `Paired.start_unique`).
* In a balanced stretch every bracket is in one (`BalancedBetween.exists_stop`,
  `BalancedBetween.exists_start`).
* In a balanced program every bracket is in one, and only in a balanced program
  (`balanced_iff_paired`).

A pair is a symmetric notion and a scan is not: the one looks for the end of the pair with what is
open in hand, and the other for its beginning with what is closed. Both are brought back to pairs at
once (`closesFirst_iff_paired`, `opensLast_iff_paired`), and from here on scans are only mentioned
where a program makes one.
-/

namespace TapeMachine.Program

variable {p : Program} {i j k start start' stop stop' : Nat}

/-! ## Balanced stretches

A stretch, unlike a program, can be cut and joined, and so it is stretches that proofs by induction
on a program are about. -/

/-- The bytes from `i` up to `j` close all the brackets that they open, and no others. -/
structure BalancedBetween (p : Program) (i j : Nat) : Prop where
  /-- the stretch may be empty -/
  le : i ≤ j
  /-- all that is opened is closed -/
  total : p.excess i j = 0
  /-- nothing is closed that was opened before the stretch -/
  never_below : ∀ k, i ≤ k → k ≤ j → 0 ≤ p.excess i k

namespace BalancedBetween

theorem refl (p : Program) (i : Nat) : p.BalancedBetween i i where
  le := Nat.le_refl i
  total := excess_self p i
  never_below := by
    intro k hik hki
    obtain rfl := Nat.le_antisymm hik hki
    exact Int.le_of_eq (excess_self p _).symm

/-- A byte that is no bracket is balanced. With `refl` and `trans` this builds the balanced
stretches up; the missing case, two brackets around a balanced stretch, is `Paired.balancedBetween`.
-/
theorem of_byte (h : p.bracketAt i = 0) : p.BalancedBetween i (i + 1) where
  le := Nat.le_succ i
  total := by rw [excess_succ_self, h]
  never_below := by
    intro k hik hki
    rcases Nat.eq_or_lt_of_le hik with rfl | hlt
    · exact Int.le_of_eq (excess_self p _).symm
    · obtain rfl := Nat.le_antisymm hki hlt
      exact Int.le_of_eq ((excess_succ_self p i).trans h).symm

/-- Balanced stretches can be joined. A place in the second one is not below zero, because the first
one leaves the count where it was. -/
theorem trans (h : p.BalancedBetween i j) (h' : p.BalancedBetween j k) :
    p.BalancedBetween i k where
  le := Nat.le_trans h.le h'.le
  total := by rw [← excess_add p h.le h'.le, h.total, h'.total, Int.add_zero]
  never_below := by
    intro l hil hlk
    rcases Nat.le_total l j with hlj | hjl
    · exact h.never_below l hil hlj
    · rw [← excess_add p h.le hjl, h.total, Int.zero_add]
      exact h'.never_below l hjl hlk

end BalancedBetween

/-- What is balanced as a whole is balanced from its beginning to its end. -/
theorem balanced_iff : p.Balanced ↔ p.BalancedBetween 0 p.size := by
  refine ⟨?_, ?_⟩
  · rintro ⟨hbelow, htotal⟩
    exact ⟨Nat.zero_le _, htotal, fun k _ hk => hbelow k hk⟩
  · intro h
    exact ⟨fun k hk => h.never_below k (Nat.zero_le k) hk, h.total⟩

/-! ## Pairs -/

/-- The brackets at two positions belong together. -/
structure Paired (p : Program) (start stop : Nat) : Prop where
  /-- a bracket is opened at the start -/
  opens : p.instruction? start = some .beginLoop
  /-- and one is closed at the stop -/
  closes : p.instruction? stop = some .endLoop
  /-- what is between is balanced -/
  inside : p.BalancedBetween (start + 1) stop

/-- From the left, a pair ends where one bracket too many is closed. That the scan stops at the
*first* such place is what keeps the stretch in between balanced. -/
theorem closesFirst_iff_paired (ho : p.instruction? start = some .beginLoop) :
    p.ClosesFirst 0 (start + 1) stop ↔ p.Paired start stop := by
  refine ⟨?_, ?_⟩
  · intro h
    obtain ⟨hbyte, hsum⟩ := h.bracketAt_found
    refine ⟨ho, instruction?_of_bracketAt_neg (by omega), h.le, by omega, ?_⟩
    intro k hk hks
    have := h.before k hk hks
    omega
  · intro h
    refine ⟨h.inside.le, ?_, ?_⟩
    · rw [excess_succ_right p h.inside.le, h.inside.total, bracketAt_endLoop h.closes]
      rfl
    · intro k hk hks
      have := h.inside.never_below k hk hks
      omega

/-- From the right, a pair begins where one bracket too many is opened. -/
theorem opensLast_iff_paired (hc : p.instruction? stop = some .endLoop) :
    p.OpensLast 0 stop start ↔ p.Paired start stop := by
  -- if the stretch counts nothing, its end from `k` on opens as many as its beginning closes
  have hsplit : ∀ k, start + 1 ≤ k → k ≤ stop →
      p.excess (start + 1) k + p.excess k stop = p.excess (start + 1) stop :=
    fun k hk hks => excess_add p hk hks
  refine ⟨?_, ?_⟩
  · intro h
    obtain ⟨hbyte, hsum⟩ := h.bracketAt_found
    refine ⟨instruction?_of_bracketAt_pos (by omega), hc, h.lt, by omega, ?_⟩
    intro k hk hks
    have := h.before k hk hks
    have := hsplit k hk hks
    omega
  · intro h
    refine ⟨h.inside.le, ?_, ?_⟩
    · rw [excess_eq_add p h.inside.le, h.inside.total, bracketAt_beginLoop h.opens]
      rfl
    · intro k hk hks
      have := h.inside.never_below k hk hks
      have := hsplit k hk hks
      have := h.inside.total
      omega

namespace Paired

theorem lt (h : p.Paired start stop) : start < stop := h.inside.le

/-- An opening bracket is closed at most once, since a scan stops at one place. -/
theorem stop_unique (h : p.Paired start stop) (h' : p.Paired start stop') : stop = stop' :=
  ClosesFirst.unique ((closesFirst_iff_paired h.opens).mpr h)
    ((closesFirst_iff_paired h'.opens).mpr h')

/-- A closing bracket closes at most one. -/
theorem start_unique (h : p.Paired start stop) (h' : p.Paired start' stop) : start = start' :=
  OpensLast.unique ((opensLast_iff_paired h.closes).mpr h)
    ((opensLast_iff_paired h'.closes).mpr h')

theorem not_neverCloses (h : p.Paired start stop) : ¬ p.NeverCloses 0 (start + 1) :=
  ((closesFirst_iff_paired h.opens).mpr h).not_neverCloses

theorem not_neverOpens (h : p.Paired start stop) : ¬ p.NeverOpens 0 stop :=
  ((opensLast_iff_paired h.closes).mpr h).not_neverOpens

/-- A pair together with what is between is balanced. The opening bracket lifts the count of
everything inside by one, so that even the closing bracket does not bring it below zero. -/
theorem balancedBetween (h : p.Paired start stop) : p.BalancedBetween start (stop + 1) where
  le := Nat.le_succ_of_le (Nat.le_of_lt h.lt)
  total := by
    rw [excess_eq_add p (Nat.lt_succ_of_lt h.lt), excess_succ_right p h.inside.le, h.inside.total,
      bracketAt_beginLoop h.opens, bracketAt_endLoop h.closes]
    rfl
  never_below := by
    intro k hk hks
    rcases Nat.eq_or_lt_of_le hk with rfl | hlt
    · exact Int.le_of_eq (excess_self p _).symm
    · rw [excess_eq_add p hlt, bracketAt_beginLoop h.opens]
      rcases Nat.eq_or_lt_of_le hks with rfl | hle
      · rw [excess_succ_right p h.inside.le, h.inside.total, bracketAt_endLoop h.closes]
        decide
      · have := h.inside.never_below k hlt (Nat.le_of_lt_succ hle)
        omega

end Paired

/-! ## The answers of the scans -/

/-- **To the right**, an opening bracket has its partner, or nothing after it is closed that was
open before. Whoever meets a jump splits into these two cases, and needs to know no more of the
scan. -/
theorem matchForward_cases (ho : p.instruction? start = some .beginLoop) :
    (∃ stop, p.Paired start stop ∧ p.matchForward start = .ok stop) ∨
      (p.NeverCloses 0 (start + 1) ∧ p.matchForward start = .error ⟨start, .forward⟩) := by
  have hspec := closeFrom_spec p 0 (start + 1)
  unfold matchForward
  cases hc : closeFrom p 0 (start + 1) with
  | some stop =>
    rw [hc] at hspec
    exact Or.inl ⟨stop, (closesFirst_iff_paired ho).mp hspec, rfl⟩
  | none =>
    rw [hc] at hspec
    exact Or.inr ⟨hspec, rfl⟩

/-- **To the left**, a closing bracket has its partner, or nothing before it is opened that is still
open. -/
theorem matchBackward_cases (hc : p.instruction? stop = some .endLoop) :
    (∃ start, p.Paired start stop ∧ p.matchBackward stop = .ok start) ∨
      (p.NeverOpens 0 stop ∧ p.matchBackward stop = .error ⟨stop, .backward⟩) := by
  have hspec := openBefore_spec p 0 (Nat.le_of_lt (lt_size_of_instruction? hc))
  unfold matchBackward
  cases ho : openBefore p 0 stop with
  | some start =>
    rw [ho] at hspec
    exact Or.inl ⟨start, (opensLast_iff_paired hc).mp hspec, rfl⟩
  | none =>
    rw [ho] at hspec
    exact Or.inr ⟨hspec, rfl⟩

/-! ## Brackets in a balanced stretch

In a stretch that closes all it opens, and never more than that, every bracket has a partner, and
has it in the stretch. -/

/-- **Closed inside.** What is opened in a balanced stretch is closed before its end. The rest of
the stretch closes more than it opens, so the scan from there finds something, and finds it before
the end of the stretch; it could not pass that end with an open bracket. -/
theorem BalancedBetween.exists_stop (h : p.BalancedBetween i j) (hik : i ≤ k) (hkj : k < j)
    (ho : p.instruction? k = some .beginLoop) : ∃ stop, stop < j ∧ p.Paired k stop := by
  -- what is left of the stretch closes more than it opens
  have hrest : p.excess (k + 1) j < 0 := by
    have hbefore := h.never_below k hik (Nat.le_of_lt hkj)
    have hsplit := excess_add p hik (Nat.le_of_lt hkj)
    rw [excess_eq_add p hkj, bracketAt_beginLoop ho, h.total] at hsplit
    omega
  obtain ⟨stop, hpair, -⟩ | ⟨hn, -⟩ := matchForward_cases ho
  · refine ⟨stop, Nat.lt_of_not_le fun hle => ?_, hpair⟩
    have hinside := hpair.inside.never_below j hkj hle
    omega
  · have hnever := hn j hkj
    omega

/-- **Opened inside.** What is closed in a balanced stretch is opened after its beginning. -/
theorem BalancedBetween.exists_start (h : p.BalancedBetween i j) (hik : i ≤ k) (hkj : k < j)
    (hc : p.instruction? k = some .endLoop) : ∃ start, i ≤ start ∧ p.Paired start k := by
  -- what the stretch holds up to here opens more than it closes
  have hopen : 0 < p.excess i k := by
    have hhere := h.never_below (k + 1) (Nat.le_succ_of_le hik) hkj
    rw [excess_succ_right p hik, bracketAt_endLoop hc] at hhere
    omega
  obtain ⟨start, hpair, -⟩ | ⟨hn, -⟩ := matchBackward_cases hc
  · refine ⟨start, Nat.le_of_not_lt fun hlt => ?_, hpair⟩
    have hinside := hpair.inside.never_below i hlt hik
    have hsplit := excess_add p (Nat.succ_le_of_lt hlt) hik
    rw [Nat.succ_eq_add_one, hpair.inside.total] at hsplit
    omega
  · have hnever := hn i hik
    omega

/-! ## Balanced programs -/

theorem Balanced.exists_stop (h : p.Balanced) (ho : p.instruction? start = some .beginLoop) :
    ∃ stop, p.Paired start stop := by
  obtain ⟨stop, -, hpair⟩ :=
    (balanced_iff.mp h).exists_stop (Nat.zero_le start) (lt_size_of_instruction? ho) ho
  exact ⟨stop, hpair⟩

theorem Balanced.exists_start (h : p.Balanced) (hc : p.instruction? stop = some .endLoop) :
    ∃ start, p.Paired start stop := by
  obtain ⟨start, -, hpair⟩ :=
    (balanced_iff.mp h).exists_start (Nat.zero_le stop) (lt_size_of_instruction? hc) hc
  exact ⟨start, hpair⟩

/-- If every closing bracket closes one, none closes too much. The induction is a strong one: from a
closing bracket it goes back to the beginning of the pair, not to the byte before. -/
theorem excess_nonneg_of_paired
    (hstart : ∀ stop, p.instruction? stop = some .endLoop → ∃ start, p.Paired start stop)
    (k : Nat) : 0 ≤ p.excess 0 k := by
  induction k using Nat.strongRecOn with
  | ind k ih =>
    rcases k with _ | k
    · exact Int.le_of_eq (excess_self p _).symm
    · by_cases hc : p.instruction? k = some .endLoop
      · -- what came before the pair was not too much, and the pair counts nothing
        obtain ⟨start, hpair⟩ := hstart k hc
        have hlt := hpair.lt
        rw [← excess_add p (Nat.zero_le start) hpair.balancedBetween.le,
          hpair.balancedBetween.total, Int.add_zero]
        exact ih start (by omega)
      · have hbyte : 0 ≤ p.bracketAt k :=
          Int.not_lt.mp fun hneg => hc (instruction?_of_bracketAt_neg hneg)
        rw [excess_succ_right p (Nat.zero_le k)]
        have := ih k (Nat.lt_succ_self k)
        omega

/-- If every opening bracket is closed, nothing is left open. This is the same from the other end,
so the induction is on the distance to it. -/
theorem excess_nonpos_of_paired
    (hstop : ∀ start, p.instruction? start = some .beginLoop → ∃ stop, p.Paired start stop)
    {k : Nat} (hk : k ≤ p.size) : p.excess k p.size ≤ 0 := by
  obtain ⟨n, hn⟩ := Nat.exists_eq_add_of_le hk
  induction n using Nat.strongRecOn generalizing k with
  | ind n ih =>
    rcases Nat.eq_or_lt_of_le hk with heq | hlt
    · rw [← heq]
      exact Int.le_of_eq (excess_self p k)
    · by_cases ho : p.instruction? k = some .beginLoop
      · -- the pair counts nothing, and what comes after it is not too much
        obtain ⟨stop, hpair⟩ := hstop k ho
        have hle := lt_size_of_instruction? hpair.closes
        have := hpair.lt
        rw [← excess_add p hpair.balancedBetween.le hle, hpair.balancedBetween.total,
          Int.zero_add]
        exact ih (p.size - (stop + 1)) (by omega) hle (by omega)
      · have hbyte : p.bracketAt k ≤ 0 :=
          Int.not_lt.mp fun hpos => ho (instruction?_of_bracketAt_pos hpos)
        have hrest : p.excess (k + 1) p.size ≤ 0 := ih (p.size - (k + 1)) (by omega) hlt (by omega)
        rw [excess_eq_add p hlt]
        omega

/-- **Balanced programs** are those in which every bracket has a partner. One half needs brackets to
be counted from the left and the other from the right: opening brackets without a partner leave the
sum too high at the end, and closing ones make it too low on the way. -/
theorem balanced_iff_paired :
    p.Balanced ↔
      (∀ start, p.instruction? start = some .beginLoop → ∃ stop, p.Paired start stop) ∧
        ∀ stop, p.instruction? stop = some .endLoop → ∃ start, p.Paired start stop := by
  refine ⟨?_, ?_⟩
  · intro h
    exact ⟨fun _ => h.exists_stop, fun _ => h.exists_start⟩
  · rintro ⟨hstop, hstart⟩
    have hbelow := excess_nonneg_of_paired hstart
    have habove := excess_nonpos_of_paired hstop (Nat.zero_le p.size)
    exact ⟨fun k _ => hbelow k, Int.le_antisymm habove (hbelow p.size)⟩

end TapeMachine.Program
