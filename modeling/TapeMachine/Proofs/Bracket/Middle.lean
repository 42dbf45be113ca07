import TapeMachine.Proofs.Bracket.Append

/-!
# Balanced code in the middle

Let `s` stand between `p` and `q`. The positions outside of `s` are `repositioned` when other code
stands in its place. If `s` is balanced, no pair leads into it or out of it
(`outside_iff_of_paired`), and a pair that leads across it asks of `p` and of `q` what it would ask
without `s` (`balancedBetween_across_iff`). So the pairs outside of it are the same with any other
balanced code in its place, or with none (`paired_replaced_iff`), and so are the partners
(`partner?_replaced`).

There are three places where a bracket of a pair can stand, in front of the code, inside and behind,
and hence nine cases for a pair. Balance rules out those with one bracket inside and the other
outside. With both in front or both behind, the pair is one of `p` or of `q`. What remains is the
pair that leads across, and it is the only case in which the code is walked over at all.
-/

namespace TapeMachine.Program

variable {p s s' q : Program} {i j pos other start stop : Nat}

/-! ## Outside of the code

Positions of the code itself have no counterpart when other code stands in its place. Only those
outside are taken along. -/

/-- Where a position outside of the code is found when `s'` stands behind `p` in the place of `s`.
-/
def repositioned (p s s' : Program) (pos : Nat) : Nat :=
  if pos < p.size then pos else pos + s'.size - s.size

/-- A position that is not one of `s`, which stands behind `p`. -/
def Outside (p s : Program) (pos : Nat) : Prop := pos < p.size ∨ p.size + s.size ≤ pos

theorem repositioned_of_lt (h : pos < p.size) : repositioned p s s' pos = pos := if_pos h

theorem repositioned_add (pos : Nat) :
    repositioned p s s' (p.size + s.size + pos) = p.size + s'.size + pos := by
  rw [repositioned, if_neg (by omega)]
  omega

namespace Outside

/-- A position outside of one code goes to a position outside of the other. -/
theorem repositioned (h : Outside p s pos) : Outside p s' (repositioned p s s' pos) := by
  rcases h with hlt | hge
  · rw [repositioned_of_lt hlt]
    exact Or.inl hlt
  · obtain ⟨pos, rfl⟩ := Nat.exists_eq_add_of_le hge
    rw [repositioned_add]
    exact Or.inr (Nat.le_add_right _ _)

/-- Putting the code back puts all positions back. -/
theorem repositioned_repositioned (h : Outside p s pos) (s' : Program) :
    Program.repositioned p s' s (Program.repositioned p s s' pos) = pos := by
  rcases h with hlt | hge
  · rw [repositioned_of_lt hlt, repositioned_of_lt hlt]
  · obtain ⟨pos, rfl⟩ := Nat.exists_eq_add_of_le hge
    rw [repositioned_add, repositioned_add]

/-- What is behind a position stays behind it, unless the code begins there. A run steps from
position to position, and this is how a step outside of the code is carried over. -/
theorem succ (h : Outside p s pos) (s' : Program) (hne : pos + 1 ≠ p.size) :
    Outside p s (pos + 1) ∧
      Program.repositioned p s s' (pos + 1) = Program.repositioned p s s' pos + 1 := by
  rcases h with hlt | hge
  · have hlt' : pos + 1 < p.size := Nat.lt_of_le_of_ne hlt hne
    exact ⟨Or.inl hlt', by rw [repositioned_of_lt hlt', repositioned_of_lt hlt]⟩
  · obtain ⟨pos, rfl⟩ := Nat.exists_eq_add_of_le hge
    refine ⟨Or.inr (Nat.le_add_right_of_le hge), ?_⟩
    rw [Nat.add_assoc, repositioned_add, repositioned_add]
    rfl

end Outside

/-! ## What stands where

The three parts, their pairs and their counts, each found again in the whole. -/

section Parts

variable (p s q)

theorem getElem?_front (h : pos < p.size) : (p ++ s ++ q)[pos]? = p[pos]? := by
  have hlt : pos < (p ++ s).size := by
    rw [Array.size_append]
    omega
  rw [Array.getElem?_append_left hlt, Array.getElem?_append_left h]

theorem getElem?_middle (h : pos < s.size) : (p ++ s ++ q)[p.size + pos]? = s[pos]? := by
  have hlt : p.size + pos < (p ++ s).size := by
    rw [Array.size_append]
    omega
  rw [Array.getElem?_append_left hlt, Array.getElem?_append_right (Nat.le_add_right _ _),
    Nat.add_sub_cancel_left]

theorem getElem?_behind (pos : Nat) : (p ++ s ++ q)[p.size + s.size + pos]? = q[pos]? := by
  rw [← Array.size_append, Array.getElem?_append_right (Nat.le_add_right _ _),
    Nat.add_sub_cancel_left]

theorem instruction?_front (h : pos < p.size) :
    instruction? (p ++ s ++ q) pos = p.instruction? pos := by
  rw [instruction?, getElem?_front p s q h, instruction?]

theorem instruction?_middle (h : pos < s.size) :
    instruction? (p ++ s ++ q) (p.size + pos) = s.instruction? pos := by
  rw [instruction?, getElem?_middle p s q h, instruction?]

theorem instruction?_behind (pos : Nat) :
    instruction? (p ++ s ++ q) (p.size + s.size + pos) = q.instruction? pos := by
  rw [instruction?, getElem?_behind, instruction?]

theorem paired_front_iff (h : stop < p.size) :
    Paired (p ++ s ++ q) start stop ↔ p.Paired start stop := by
  rw [Array.append_assoc, paired_append_left_iff _ h]

theorem paired_middle_iff (h : stop < s.size) :
    Paired (p ++ s ++ q) (p.size + start) (p.size + stop) ↔ s.Paired start stop := by
  rw [Array.append_assoc, paired_append_right_iff, paired_append_left_iff _ h]

theorem paired_behind_iff :
    Paired (p ++ s ++ q) (p.size + s.size + start) (p.size + s.size + stop) ↔
      q.Paired start stop := by
  rw [← Array.size_append, paired_append_right_iff]

theorem excess_front (hj : j ≤ p.size) : excess (p ++ s ++ q) i j = p.excess i j := by
  have hshifted : p.excess i j = excess (p ++ s ++ q) (0 + i) (0 + j) :=
    excess_shifted fun k _ hk => by
      rw [Nat.zero_add, instruction?_front p s q (Nat.lt_of_lt_of_le hk hj)]
  rw [hshifted, Nat.zero_add, Nat.zero_add]

theorem excess_middle (hj : j ≤ s.size) :
    excess (p ++ s ++ q) (p.size + i) (p.size + j) = s.excess i j :=
  (excess_shifted fun _ _ hk =>
    (instruction?_middle p s q (Nat.lt_of_lt_of_le hk hj)).symm).symm

theorem excess_behind (i j : Nat) :
    excess (p ++ s ++ q) (p.size + s.size + i) (p.size + s.size + j) = q.excess i j :=
  (excess_shifted fun k _ _ => (instruction?_behind p s q k).symm).symm

end Parts

/-- Balanced code is balanced wherever it stands. -/
theorem Balanced.balancedBetween_middle (hs : s.Balanced) (p q : Program) :
    BalancedBetween (p ++ s ++ q) p.size (p.size + s.size) :=
  (balancedBetween_shifted_iff fun _ _ hk => (instruction?_middle p s q hk).symm).mp
    (balanced_iff.mp hs)

/-! ## Pairs

A pair has both of its ends in the code or none. Where both are outside, one in front and one
behind, the stretch between them leads across the code, and balanced code leaves its count alone. -/

/-- **Inside and outside.** No pair leads into balanced code or out of it. Every bracket of the code
has its partner in the code, and a bracket has only one. -/
theorem outside_iff_of_paired (hs : s.Balanced) (h : Paired (p ++ s ++ q) start stop) :
    Outside p s start ↔ Outside p s stop := by
  -- a bracket inside has its partner inside, and no other
  refine ⟨fun hstart => ?_, fun hstop => ?_⟩
  · by_contra hstop
    obtain ⟨k, rfl⟩ := Nat.exists_eq_add_of_le (Nat.le_of_not_lt (not_or.mp hstop).1)
    have hk : k < s.size := by
      have := (not_or.mp hstop).2
      omega
    obtain ⟨start', hpair⟩ :=
      hs.exists_start ((instruction?_middle p s q hk).symm.trans h.closes)
    have hlt := hpair.lt
    have := h.start_unique ((paired_middle_iff p s q hk).mpr hpair)
    unfold Outside at hstart
    omega
  · by_contra hstart
    obtain ⟨k, rfl⟩ := Nat.exists_eq_add_of_le (Nat.le_of_not_lt (not_or.mp hstart).1)
    have hk : k < s.size := by
      have := (not_or.mp hstart).2
      omega
    obtain ⟨stop', hpair⟩ :=
      hs.exists_stop ((instruction?_middle p s q hk).symm.trans h.opens)
    have hlt := lt_size_of_instruction? hpair.closes
    have := h.stop_unique ((paired_middle_iff p s q hlt).mpr hpair)
    unfold Outside at hstop
    omega

/-- **Across.** A stretch that leads across balanced code is balanced if what it has of the two
parts around fits together. The right side does not mention the code, which is the point: it is the
same for every code that could stand there. -/
theorem balancedBetween_across_iff (hs : s.Balanced) (hi : i ≤ p.size) :
    BalancedBetween (p ++ s ++ q) i (p.size + s.size + j) ↔
      p.excess i p.size + q.excess 0 j = 0 ∧ (∀ k, i ≤ k → k ≤ p.size → 0 ≤ p.excess i k) ∧
        ∀ k ≤ j, 0 ≤ p.excess i p.size + q.excess 0 k := by
  have hfront : ∀ k ≤ p.size, excess (p ++ s ++ q) i k = p.excess i k :=
    fun k hk => excess_front p s q hk
  have hmiddle : ∀ k ≤ s.size,
      excess (p ++ s ++ q) i (p.size + k) = p.excess i p.size + s.excess 0 k := fun k hk => by
    rw [← excess_add _ hi (Nat.le_add_right _ _), hfront _ (Nat.le_refl _)]
    exact congrArg _ (excess_middle p s q (i := 0) hk)
  have hbehind : ∀ k,
      excess (p ++ s ++ q) i (p.size + s.size + k) = p.excess i p.size + q.excess 0 k :=
    fun k => by
      rw [← excess_add _ (Nat.le_trans hi (Nat.le_add_right _ s.size)) (Nat.le_add_right _ _),
        hmiddle _ (Nat.le_refl _), hs.2, Int.add_zero]
      exact congrArg _ (excess_behind p s q 0 k)
  refine ⟨fun h => ⟨?_, ?_, ?_⟩, fun ⟨htotal, hbelow, hbelow'⟩ => ⟨?_, ?_, ?_⟩⟩
  · rw [← hbehind]
    exact h.total
  · intro k hik hk
    rw [← hfront k hk]
    exact h.never_below k hik (by omega)
  · intro k hk
    rw [← hbehind]
    exact h.never_below _ (by omega) (by omega)
  · omega
  · rw [hbehind]
    exact htotal
  · intro k hik hk
    rcases Nat.le_total k p.size with hle | hge
    · rw [hfront k hle]
      exact hbelow k hik hle
    rcases Nat.le_total k (p.size + s.size) with hle | hge'
    · -- within the code the count is what it was in front and what the code adds
      obtain ⟨k, rfl⟩ := Nat.exists_eq_add_of_le hge
      have hinside := hs.1 k (by omega)
      have hwhole := hbelow p.size hi (Nat.le_refl _)
      rw [hmiddle k (by omega)]
      omega
    · obtain ⟨k, rfl⟩ := Nat.exists_eq_add_of_le hge'
      rw [hbehind]
      exact hbelow' k (by omega)

/-- **The pairs** outside of balanced code are the same with other balanced code in its place. The
cases are those in which each of the two brackets stands in front of the code or behind it. -/
theorem paired_replaced_iff (q : Program) (hs : s.Balanced) (hs' : s'.Balanced)
    (hstart : Outside p s start) (hstop : Outside p s stop) :
    Paired (p ++ s' ++ q) (repositioned p s s' start) (repositioned p s s' stop) ↔
      Paired (p ++ s ++ q) start stop := by
  rcases hstop with hstop | hstop
  · rw [repositioned_of_lt hstop, paired_front_iff p s q hstop, paired_front_iff p s' q hstop]
    rcases hstart with hstart | hstart
    · rw [repositioned_of_lt hstart]
    · -- neither begins behind its end
      refine ⟨fun h => ?_, fun h => ?_⟩
      · have := h.lt
        unfold repositioned at this
        split at this <;> omega
      · have := h.lt
        omega
  · obtain ⟨stop, rfl⟩ := Nat.exists_eq_add_of_le hstop
    rw [repositioned_add]
    rcases hstart with hstart | hstart
    · have hinside : BalancedBetween (p ++ s' ++ q) (start + 1) (p.size + s'.size + stop) ↔
          BalancedBetween (p ++ s ++ q) (start + 1) (p.size + s.size + stop) := by
        rw [balancedBetween_across_iff hs hstart, balancedBetween_across_iff hs' hstart]
      have hopens : instruction? (p ++ s' ++ q) start = instruction? (p ++ s ++ q) start := by
        rw [instruction?_front p s q hstart, instruction?_front p s' q hstart]
      have hcloses : instruction? (p ++ s' ++ q) (p.size + s'.size + stop) =
          instruction? (p ++ s ++ q) (p.size + s.size + stop) := by
        rw [instruction?_behind, instruction?_behind]
      rw [repositioned_of_lt hstart]
      refine ⟨fun h => ?_, fun h => ?_⟩
      · exact ⟨hopens.symm.trans h.opens, hcloses.symm.trans h.closes, hinside.mp h.inside⟩
      · exact ⟨hopens.trans h.opens, hcloses.trans h.closes, hinside.mpr h.inside⟩
    · obtain ⟨start, rfl⟩ := Nat.exists_eq_add_of_le hstart
      rw [repositioned_add, paired_behind_iff, paired_behind_iff]

/-! ## Partners -/

/-- A jump from outside of the code leads outside. -/
theorem outside_of_partner? (hs : s.Balanced) (hpos : Outside p s pos)
    (h : partner? (p ++ s ++ q) pos = some other) : Outside p s other := by
  rcases partner?_eq_some_iff.mp h with hpair | hpair
  · exact (outside_iff_of_paired hs hpair).mp hpos
  · exact (outside_iff_of_paired hs hpair).mpr hpos

/-- **The partners** outside of balanced code are the same with other balanced code in its
place. -/
theorem partner?_replaced (q : Program) (hs : s.Balanced) (hs' : s'.Balanced)
    (hpos : Outside p s pos) :
    partner? (p ++ s' ++ q) (repositioned p s s' pos) =
      (partner? (p ++ s ++ q) pos).map (repositioned p s s') := by
  -- for positions outside, to be partners is to be a pair in one order or the other
  have hpartner : ∀ other, Outside p s other →
      (partner? (p ++ s' ++ q) (repositioned p s s' pos) = some (repositioned p s s' other) ↔
        partner? (p ++ s ++ q) pos = some other) := fun other hother => by
    rw [partner?_eq_some_iff, partner?_eq_some_iff, paired_replaced_iff q hs hs' hpos hother,
      paired_replaced_iff q hs hs' hother hpos]
  refine Option.ext fun other' => ?_
  rw [Option.map_eq_some_iff]
  refine ⟨fun h => ?_, ?_⟩
  · have hother := outside_of_partner? hs' hpos.repositioned h
    have hback := hother.repositioned_repositioned s
    rw [← hback] at h
    exact ⟨_, (hpartner _ hother.repositioned).mp h, hback⟩
  · rintro ⟨other, h, rfl⟩
    exact (hpartner other (outside_of_partner? hs hpos h)).mpr h

end TapeMachine.Program
