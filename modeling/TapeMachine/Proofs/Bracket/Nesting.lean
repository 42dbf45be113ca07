import Mathlib.Order.Interval.Set.Basic
import TapeMachine.Proofs.Bracket.Pair

/-!
# Pairs are nested

A scan that starts at a bracket and succeeds leads to another bracket, and the scan in the other
direction leads back (`Program.findsStop_iff_findsStart`). What two brackets enclose is an interval
of positions. Two such intervals are disjoint, or one of them lies inside the other
(`Paired.disjoint_or_subset`), and no bracket in it belongs to one outside (`Paired.closed_inside`,
`Paired.opened_inside`).

Brackets without a partner stand between the pairs and never in one. Those that close nothing come
before those that are never closed (`lt_of_unmatched`).

None of this assumes that the program is balanced. What a pair encloses is balanced even in a
program that is not, and so the lemmas on balanced stretches apply inside of every pair.
-/

namespace TapeMachine.Program

variable {p : Program} {i j start start' stop stop' : Nat} {e e' : UnmatchedBracket}

/-! ## There and back

A scan from one bracket of a pair comes to the other, and the scan back comes to the first. So the
two scans say the same about which brackets belong together. -/

/-- From the opening bracket at `start`, the scan to the right comes to `stop`. -/
def FindsStop (p : Program) (start stop : Nat) : Prop :=
  p.instruction? start = some .beginLoop ∧ p.matchForward start = .ok stop

/-- From the closing bracket at `stop`, the scan to the left comes to `start`. -/
def FindsStart (p : Program) (start stop : Nat) : Prop :=
  p.instruction? stop = some .endLoop ∧ p.matchBackward stop = .ok start

instance (p : Program) (start stop : Nat) : Decidable (p.FindsStart start stop) :=
  inferInstanceAs (Decidable (_ ∧ _))

/-- The scan to the right goes from the start to the stop of a pair. -/
theorem findsStop_iff_paired : p.FindsStop start stop ↔ p.Paired start stop := by
  refine ⟨?_, fun h => ⟨h.opens, ?_⟩⟩
  · rintro ⟨ho, hfound⟩
    obtain ⟨stop', hpair, heq⟩ | ⟨-, heq⟩ := matchForward_cases ho
    · cases heq.symm.trans hfound
      exact hpair
    · cases heq.symm.trans hfound
  · obtain ⟨stop', hpair, heq⟩ | ⟨hn, -⟩ := matchForward_cases h.opens
    · rw [heq, hpair.stop_unique h]
    · exact absurd hn h.not_neverCloses

/-- The scan to the left goes from the stop to the start of a pair. -/
theorem findsStart_iff_paired : p.FindsStart start stop ↔ p.Paired start stop := by
  refine ⟨?_, fun h => ⟨h.closes, ?_⟩⟩
  · rintro ⟨hc, hfound⟩
    obtain ⟨start', hpair, heq⟩ | ⟨-, heq⟩ := matchBackward_cases hc
    · cases heq.symm.trans hfound
      exact hpair
    · cases heq.symm.trans hfound
  · obtain ⟨start', hpair, heq⟩ | ⟨hn, -⟩ := matchBackward_cases h.closes
    · rw [heq, hpair.start_unique h]
    · exact absurd hn h.not_neverOpens

/-! ## Nesting

Of two pairs that overlap, one begins inside the other. What is opened there is closed there, so it
lies inside as a whole. -/

/-- What is opened in a pair is closed there. -/
theorem Paired.closed_inside (h : p.Paired start stop) (hi : start < i) (his : i < stop)
    (ho : p.instruction? i = some .beginLoop) : ∃ j, i < j ∧ j < stop ∧ p.Paired i j := by
  obtain ⟨j, hj, hpair⟩ := h.inside.exists_stop hi his ho
  exact ⟨j, hpair.lt, hj, hpair⟩

/-- What is closed in a pair is opened there. -/
theorem Paired.opened_inside (h : p.Paired start stop) (hi : start < i) (his : i < stop)
    (hc : p.instruction? i = some .endLoop) : ∃ j, start < j ∧ j < i ∧ p.Paired j i := by
  obtain ⟨j, hj, hpair⟩ := h.inside.exists_start hi his hc
  exact ⟨j, hj, hpair.lt, hpair⟩

/-- A pair that begins in another one ends there. It cannot begin at the end of the other, where a
bracket closes; and if it begins between the two, its own end is there as well. -/
theorem Paired.disjoint_or_subset_of_lt (h : p.Paired start stop) (h' : p.Paired start' stop')
    (hlt : start < start') :
    Set.Icc start stop ∩ Set.Icc start' stop' = ∅ ∨
      Set.Icc start' stop' ⊆ Set.Ioo start stop := by
  rcases Nat.lt_trichotomy stop start' with hbefore | rfl | hinside
  · refine Or.inl (Set.eq_empty_of_forall_notMem fun i hi => ?_)
    exact Nat.lt_irrefl i (Nat.lt_of_le_of_lt hi.1.2 (Nat.lt_of_lt_of_le hbefore hi.2.1))
  · cases h.closes.symm.trans h'.opens
  · obtain ⟨j, -, hj, hpair⟩ := h.closed_inside hlt hinside h'.opens
    rw [hpair.stop_unique h'] at hj
    exact Or.inr (Set.Icc_subset_Ioo hlt hj)

/-- **Nesting.** Two pairs are disjoint, or one of them lies inside the other. Which one depends on
which begins first; if they begin at one place, they are one pair. -/
theorem Paired.disjoint_or_subset (h : p.Paired start stop) (h' : p.Paired start' stop')
    (hne : (start, stop) ≠ (start', stop')) :
    Set.Icc start stop ∩ Set.Icc start' stop' = ∅ ∨
      Set.Icc start' stop' ⊆ Set.Ioo start stop ∨
      Set.Icc start stop ⊆ Set.Ioo start' stop' := by
  rcases Nat.lt_trichotomy start start' with hlt | rfl | hgt
  · exact (h.disjoint_or_subset_of_lt h' hlt).imp_right Or.inl
  · exact absurd (congrArg _ (h.stop_unique h')) hne
  · rw [Set.inter_comm]
    exact (h'.disjoint_or_subset_of_lt h hgt).imp_right Or.inr

/-! ## Brackets without a partner -/

/-- What closes nothing comes before what is never closed. In the other order, the stretch between
the two would be the reason why each of them has a partner. -/
theorem lt_of_unmatched (hc : p.instruction? i = some .endLoop)
    (hi : p.matchBackward i = .error e) (ho : p.instruction? j = some .beginLoop)
    (hj : p.matchForward j = .error e') : i < j := by
  obtain ⟨start, -, heq⟩ | ⟨hopens, -⟩ := matchBackward_cases hc
  · cases heq.symm.trans hi
  obtain ⟨stop, -, heq⟩ | ⟨hcloses, -⟩ := matchForward_cases ho
  · cases heq.symm.trans hj
  rcases Nat.lt_trichotomy i j with hlt | rfl | hgt
  · exact hlt
  · cases hc.symm.trans ho
  · -- the bracket at `j` would still be open at `i`, where nothing is open
    have hsum := excess_eq_add p hgt
    rw [bracketAt_beginLoop ho] at hsum
    have hnone := hopens j (Nat.le_of_lt hgt)
    have hsome := hcloses i hgt
    omega

/-- **The scans pair brackets.** In every program, balanced or not, these hold of the two scans when
they start at brackets.

* The scan to the right comes from one bracket to another exactly if the scan to the left comes from
  the other back to the one. One of them opens, the other closes, and they stand in this order.
* Two different pairs of brackets do not overlap: they are disjoint, or one lies strictly inside the
  other.
* Every bracket that stands between the two of a pair has its partner between them.
* A closing bracket without a partner stands before every opening bracket without one. -/
theorem scans_pair_nested (p : Program) :
    (∀ start stop, p.FindsStop start stop ↔ p.FindsStart start stop) ∧
    (∀ start stop, p.FindsStop start stop → start < stop) ∧
    (∀ start stop start' stop', p.FindsStop start stop → p.FindsStop start' stop' →
      (start, stop) ≠ (start', stop') →
        Set.Icc start stop ∩ Set.Icc start' stop' = ∅ ∨
          Set.Icc start' stop' ⊆ Set.Ioo start stop ∨
          Set.Icc start stop ⊆ Set.Ioo start' stop') ∧
    (∀ start stop i, p.FindsStop start stop → i ∈ Set.Ioo start stop →
      (p.instruction? i = some .beginLoop → ∃ j ∈ Set.Ioo i stop, p.FindsStop i j) ∧
      (p.instruction? i = some .endLoop → ∃ j ∈ Set.Ioo start i, p.FindsStart j i)) ∧
    ∀ i j e e', p.instruction? i = some .endLoop → p.matchBackward i = .error e →
      p.instruction? j = some .beginLoop → p.matchForward j = .error e' → i < j := by
  refine ⟨fun _ _ => findsStop_iff_paired.trans findsStart_iff_paired.symm, ?_⟩
  -- from here on nothing is said of the scans, only of pairs
  simp only [findsStop_iff_paired, findsStart_iff_paired]
  refine ⟨fun _ _ h => h.lt, fun _ _ _ _ h h' => h.disjoint_or_subset h', ?_,
    fun _ _ _ _ hc hi ho hj => lt_of_unmatched hc hi ho hj⟩
  rintro start stop i h ⟨hi, his⟩
  refine ⟨fun ho => ?_, fun hc => ?_⟩
  · obtain ⟨j, hij, hj, hpair⟩ := h.closed_inside hi his ho
    exact ⟨j, ⟨hij, hj⟩, hpair⟩
  · obtain ⟨j, hj, hji, hpair⟩ := h.opened_inside hi his hc
    exact ⟨j, ⟨hj, hji⟩, hpair⟩

/-- The brackets of `][[[]]`: the first two have no partner, and of the two pairs of the others one
lies inside the other. -/
theorem scans_pair_nested_unbalanced :
    FindsStart #[93, 91, 91, 91, 93, 93] 2 5 ∧ FindsStart #[93, 91, 91, 91, 93, 93] 3 4 ∧
      FindsStop #[93, 91, 91, 91, 93, 93] 2 5 ∧ FindsStop #[93, 91, 91, 91, 93, 93] 3 4 ∧
      (2, 5) ≠ (3, 4) ∧
      (Set.Icc 2 5 ∩ Set.Icc 3 4 = ∅ ∨ Set.Icc 3 4 ⊆ Set.Ioo 2 5 ∨
        Set.Icc 2 5 ⊆ Set.Ioo 3 4) ∧
      3 ∈ Set.Ioo 2 5 ∧
      (∃ j ∈ Set.Ioo 3 5, FindsStop #[93, 91, 91, 91, 93, 93] 3 j) ∧
      matchBackward #[93, 91, 91, 91, 93, 93] 0 = .error ⟨0, .backward⟩ ∧
      matchForward #[93, 91, 91, 91, 93, 93] 1 = .error ⟨1, .forward⟩ ∧ 0 < 1 := by
  obtain ⟨hiff, -, hnested, hinside, hunmatched⟩ := scans_pair_nested #[93, 91, 91, 91, 93, 93]
  have houter : FindsStart #[93, 91, 91, 91, 93, 93] 2 5 := by decide
  have hinner : FindsStart #[93, 91, 91, 91, 93, 93] 3 4 := by decide
  have hstop := (hiff 2 5).mpr houter
  have hstop' := (hiff 3 4).mpr hinner
  have hmem : 3 ∈ Set.Ioo 2 5 := ⟨by decide, by decide⟩
  have hback : matchBackward #[93, 91, 91, 91, 93, 93] 0 = .error ⟨0, .backward⟩ := by decide
  have hforth : matchForward #[93, 91, 91, 91, 93, 93] 1 = .error ⟨1, .forward⟩ := by
    have hopen : Instruction.ofByte? 91 = some .beginLoop := by decide
    have hclose : Instruction.ofByte? 93 = some .endLoop := by decide
    simp [matchForward, closeFrom, hopen, hclose]
  exact ⟨houter, hinner, hstop, hstop', by decide, hnested 2 5 3 4 hstop hstop' (by decide), hmem,
    (hinside 2 5 3 hstop hmem).1 (by decide), hback, hforth,
    hunmatched 0 1 _ _ (by decide) hback (by decide) hforth⟩

end TapeMachine.Program
