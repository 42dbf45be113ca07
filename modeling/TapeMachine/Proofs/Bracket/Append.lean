import TapeMachine.Proofs.Bracket.Stack

/-!
# Pairs in a longer program

Whether two brackets belong together is decided by the text from the one to the other: the same text
makes them a pair anywhere (`paired_shifted_iff`). So in a program that is made of two parts the
pairs of each part stay pairs, and a bracket of the first part that has a partner keeps it
(`partner?_append_of_eq_some`). One that is not closed there may be closed in the second part.

There are no others if the first part is `Closed`, which means that it closes every bracket that it
opens. Then all partners are the same as in the parts (`Closed.partner?_append_left`,
`Closed.partner?_append_right`). The first part may close brackets that it has not opened; such a
bracket has no partner in the second part either.

That is weaker than to ask for a balanced first part, and it is what running one program after
another needs: a run that comes to the end of the first part has not tried to jump from a bracket
without a partner, but there may well be one.
-/

namespace TapeMachine.Program

variable {p q : Program} {d i j pos other start stop : Nat}

/-! ## The same text elsewhere

Depth, balance and pairs are read off the text between two positions and nothing else. So they can
be moved along with the text. -/

/-- A stretch counts the same wherever it stands. All that follows is read off this sum: to move a
stretch is to move the positions that are added up. -/
theorem excess_shifted (h : ∀ k, i ≤ k → k < j → p.instruction? k = q.instruction? (d + k)) :
    p.excess i j = q.excess (d + i) (d + j) := by
  have hlen : d + j - (d + i) = j - i := by omega
  rw [excess, excess, hlen, ← List.map_add_range', List.map_map]
  refine congrArg List.sum (List.map_congr_left fun k hk => ?_)
  rw [List.mem_range'_1] at hk
  rw [Function.comp_apply, bracketAt, bracketAt, h k hk.1 (by omega)]

/-- A stretch is balanced wherever it stands. -/
theorem balancedBetween_shifted_iff
    (h : ∀ k, i ≤ k → k < j → p.instruction? k = q.instruction? (d + k)) :
    p.BalancedBetween i j ↔ q.BalancedBetween (d + i) (d + j) := by
  have hcount : ∀ k, k ≤ j → p.excess i k = q.excess (d + i) (d + k) :=
    fun k hk => excess_shifted fun l hl hlk => h l hl (Nat.lt_of_lt_of_le hlk hk)
  refine ⟨?_, ?_⟩
  · intro hbal
    refine ⟨Nat.add_le_add_left hbal.le d, (hcount j (Nat.le_refl j)).symm.trans hbal.total, ?_⟩
    intro k hik hkj
    obtain ⟨k, rfl⟩ := Nat.exists_eq_add_of_le (show d ≤ k by omega)
    rw [← hcount k (by omega)]
    exact hbal.never_below k (by omega) (by omega)
  · intro hbal
    refine ⟨Nat.le_of_add_le_add_left hbal.le, (hcount j (Nat.le_refl j)).trans hbal.total, ?_⟩
    intro k hik hkj
    rw [hcount k hkj]
    exact hbal.never_below (d + k) (by omega) (by omega)

/-- **Pairs are local.** Two brackets are a pair wherever the text from the one to the other
stands. What surrounds the text does not matter, since a pair is a property of what it encloses. -/
theorem paired_shifted_iff
    (h : ∀ k, start ≤ k → k ≤ stop → p.instruction? k = q.instruction? (d + k)) :
    p.Paired start stop ↔ q.Paired (d + start) (d + stop) := by
  have hinside : p.BalancedBetween (start + 1) stop ↔
      q.BalancedBetween (d + start + 1) (d + stop) :=
    balancedBetween_shifted_iff fun k hk hks => h k (by omega) (by omega)
  refine ⟨?_, ?_⟩
  · intro hpair
    have hle := Nat.le_of_lt hpair.lt
    exact ⟨(h start (Nat.le_refl _) hle).symm.trans hpair.opens,
      (h stop hle (Nat.le_refl _)).symm.trans hpair.closes, hinside.mp hpair.inside⟩
  · intro hpair
    have hle : start ≤ stop := Nat.le_of_add_le_add_left (Nat.le_of_lt hpair.lt)
    exact ⟨(h start (Nat.le_refl _) hle).trans hpair.opens,
      (h stop hle (Nat.le_refl _)).trans hpair.closes, hinside.mpr hpair.inside⟩

/-! ## Two parts

A pair inside one part is a pair of the whole. Whether there are others, between the parts, depends
on what the first part leaves open. -/

theorem instruction?_append_left (q : Program) (h : pos < p.size) :
    instruction? (p ++ q) pos = p.instruction? pos := by
  rw [instruction?, Array.getElem?_append_left h, instruction?]

theorem instruction?_append_right (p q : Program) (pos : Nat) :
    instruction? (p ++ q) (p.size + pos) = q.instruction? pos := by
  rw [instruction?, Array.getElem?_append_right (Nat.le_add_right _ _), Nat.add_sub_cancel_left,
    instruction?]

/-- The pairs that end in the first part are its own, since they begin there as well. -/
theorem paired_append_left_iff (q : Program) (h : stop < p.size) :
    Paired (p ++ q) start stop ↔ p.Paired start stop := by
  have hshifted : p.Paired start stop ↔ Paired (p ++ q) (0 + start) (0 + stop) :=
    paired_shifted_iff fun k _ hk => by
      rw [Nat.zero_add, instruction?_append_left q (Nat.lt_of_le_of_lt hk h)]
  rw [hshifted, Nat.zero_add, Nat.zero_add]

/-- The pairs that begin in the second part are its own. -/
theorem paired_append_right_iff (p q : Program) :
    Paired (p ++ q) (p.size + start) (p.size + stop) ↔ q.Paired start stop :=
  (paired_shifted_iff fun k _ _ => (instruction?_append_right p q k).symm).symm

/-- In front of anything, a partner stays a partner. There is no condition on the two parts: both
halves of the pair are in the first one. -/
theorem partner?_append_of_eq_some (q : Program) (h : p.partner? pos = some other) :
    partner? (p ++ q) pos = some other := by
  rcases partner?_eq_some_iff.mp h with hpair | hpair
  · have hlt := lt_size_of_instruction? hpair.closes
    exact ((paired_append_left_iff q hlt).mpr hpair).partner?_start
  · have hlt := lt_size_of_instruction? hpair.closes
    exact ((paired_append_left_iff q hlt).mpr hpair).partner?_stop

/-- A closing bracket finds its partner before it, so what follows makes no difference. -/
theorem partner?_append_of_endLoop (q : Program) (hc : p.instruction? pos = some .endLoop) :
    partner? (p ++ q) pos = p.partner? pos := by
  have hlt := lt_size_of_instruction? hc
  refine Option.ext fun other => ?_
  rw [partner?_endLoop hc, partner?_endLoop ((instruction?_append_left q hlt).trans hc),
    paired_append_left_iff q hlt]

/-- An opening bracket that is not closed in the first part is closed in the second or not at
all. -/
theorem size_le_of_partner?_append (ho : p.instruction? pos = some .beginLoop)
    (hnone : p.partner? pos = none) (h : partner? (p ++ q) pos = some other) : p.size ≤ other := by
  refine Nat.le_of_not_lt fun hlt => ?_
  have hpair := (partner?_beginLoop ((instruction?_append_left q
    (lt_size_of_instruction? ho)).trans ho)).mp h
  exact (partner?_eq_none_iff.mp hnone other).1 ((paired_append_left_iff q hlt).mp hpair)

/-- Every bracket that is opened is closed. -/
def Closed (p : Program) : Prop :=
  ∀ start < p.size, p.instruction? start = some .beginLoop → (p.partner? start).isSome

instance (p : Program) : Decidable p.Closed :=
  inferInstanceAs (Decidable
    (∀ start < p.size, p.instruction? start = some .beginLoop → (p.partner? start).isSome))

theorem Closed.exists_paired (h : p.Closed) (ho : p.instruction? start = some .beginLoop) :
    ∃ stop, p.Paired start stop := by
  obtain ⟨stop, hstop⟩ := Option.isSome_iff_exists.mp (h start (lt_size_of_instruction? ho) ho)
  exact ⟨stop, (partner?_beginLoop ho).mp hstop⟩

/-- No pair leads out of a part that is closed. The bracket has a partner in its own part, and no
second one. -/
theorem Closed.stop_lt_size (h : p.Closed) (hpair : Paired (p ++ q) start stop)
    (hstart : start < p.size) : stop < p.size := by
  have ho : p.instruction? start = some .beginLoop :=
    (instruction?_append_left q hstart).symm.trans hpair.opens
  obtain ⟨stop', hpair'⟩ := h.exists_paired ho
  have hlt := lt_size_of_instruction? hpair'.closes
  rwa [hpair.stop_unique ((paired_append_left_iff q hlt).mpr hpair')]

/-! ## Partners -/

/-- **In front** of anything, a closed part keeps its partners. For a bracket that closes, this
would hold of any part; it is the brackets that open which need it to be closed. -/
theorem Closed.partner?_append_left (h : p.Closed) (q : Program) (hpos : pos < p.size) :
    partner? (p ++ q) pos = p.partner? pos := by
  have hfrom : ∀ stop, Paired (p ++ q) pos stop ↔ p.Paired pos stop := by
    intro stop
    refine ⟨?_, ?_⟩
    · intro hpair
      exact (paired_append_left_iff q (h.stop_lt_size hpair hpos)).mp hpair
    · intro hpair
      exact (paired_append_left_iff q (lt_size_of_instruction? hpair.closes)).mpr hpair
  refine Option.ext fun other => ?_
  rw [partner?_eq_some_iff, partner?_eq_some_iff, hfrom other, paired_append_left_iff q hpos]

/-- **Behind** a closed part, every part keeps its partners. -/
theorem Closed.partner?_append_right (h : p.Closed) (q : Program) (pos : Nat) :
    partner? (p ++ q) (p.size + pos) = (q.partner? pos).map (p.size + ·) := by
  refine Option.ext fun other => ?_
  rw [partner?_eq_some_iff, Option.map_eq_some_iff]
  refine ⟨?_, ?_⟩
  · intro hpair
    -- the partner cannot be in the first part, from which no pair leads here
    have hge : p.size ≤ other := by
      rcases hpair with hpair | hpair
      · exact Nat.le_of_lt (Nat.lt_of_le_of_lt (Nat.le_add_right _ _) hpair.lt)
      · refine Nat.le_of_not_lt fun hlt => ?_
        have := h.stop_lt_size hpair hlt
        omega
    obtain ⟨other, rfl⟩ := Nat.exists_eq_add_of_le hge
    rw [paired_append_right_iff, paired_append_right_iff] at hpair
    exact ⟨other, partner?_eq_some_iff.mpr hpair, rfl⟩
  · rintro ⟨other, hother, rfl⟩
    rw [paired_append_right_iff, paired_append_right_iff]
    exact partner?_eq_some_iff.mp hother

end TapeMachine.Program
