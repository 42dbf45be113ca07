import Mathlib.Logic.Relation
import TapeMachine.Engine.Counting

/-!
# Scans in machine words

A scan that begins inside the program and counts right up to 64 bits (`Counting.Sound`) never needs
a number of more bits, and finds the same partners as the scan that counts in numbers of any size
(`Counting.Sound.map_partner`). Where it begins matters: to the right of the largest word there is
no room for even one turn.

The invariant is `Counting.Scan.Walked`. The depth grows by one with each byte at most, so it is
bounded by the distance that the scan has come, and that is less than the length of the program. A
bound on the depth alone would not be kept by a turn, which is why position and depth are bounded
together. The invariant leaves room for one more turn (`Scan.Walked.turned`), a turn keeps it
(`Scan.Walked.turn`), and so every state that a scan visits has it
(`Counting.Sound.walked_of_visits`).

The scan is a loop that nothing in its definition makes end. What makes it end is that the bytes
ahead of it (`Direction.ahead`) become fewer with every turn, and the comparison with the search in
numbers goes by induction on them (`Counting.Sound.map_scan`). Both directions are treated at once:
`Direction.move`, `Direction.entry` and `Direction.exit` are all that tells them apart.
-/

namespace TapeMachine

namespace Direction

variable {d : Direction} {i : Option Instruction} {depth : Nat}

/-- The position that a scan looks at after another one. -/
def move : Direction → Nat → Option Nat
  | forward, pos => some (pos + 1)
  | backward, 0 => none
  | backward, pos + 1 => some pos

theorem move_forward_eq_some_iff {m n : Nat} : forward.move n = some m ↔ m = n + 1 := by
  rw [move, Option.some.injEq, eq_comm]

theorem move_backward_eq_some_iff {m n : Nat} : backward.move n = some m ↔ n = m + 1 := by
  cases n with
  | zero => simp [move]
  | succ n => rw [move, Option.some.injEq, Nat.succ_inj]

/-- How many bytes of a program of a given length a scan has ahead of it. -/
def ahead (size : Nat) : Direction → Nat → Nat
  | forward, pos => size - pos
  | backward, pos => pos

/-- Every move leaves fewer bytes ahead. -/
theorem ahead_lt {size pos next : Nat} (hmove : d.move pos = some next) (hlt : next < size) :
    d.ahead size next < d.ahead size pos := by
  cases d with
  | forward =>
    rw [move_forward_eq_some_iff] at hmove
    rw [ahead, ahead]
    omega
  | backward =>
    rw [move_backward_eq_some_iff] at hmove
    rw [ahead, ahead]
    omega

/-- The depth of a scan after what stands at a position. -/
def depthAfter (d : Direction) (i : Option Instruction) (depth : Nat) : Nat :=
  if i = some d.entry then depth + 1 else if i = some d.exit then depth - 1 else depth

theorem depthAfter_of_entry (h : i = some d.entry) : d.depthAfter i depth = depth + 1 := if_pos h

theorem depthAfter_of_exit (h : i = some d.exit) : d.depthAfter i depth = depth - 1 := by
  have hne : i ≠ some d.entry := by
    rw [h]
    cases d <;> decide
  rw [depthAfter, if_neg hne, if_pos h]

theorem depthAfter_of_ne (hentry : i ≠ some d.entry) (hexit : i ≠ some d.exit) :
    d.depthAfter i depth = depth := by
  rw [depthAfter, if_neg hentry, if_neg hexit]

theorem depthAfter_le : d.depthAfter i depth ≤ depth + 1 := by
  unfold depthAfter
  split
  · exact Nat.le_refl _
  · split
    · omega
    · exact Nat.le_succ depth

end Direction

namespace Program

variable {p : Program} {d : Direction} {nested position pos : Nat}

/-- What a scan finds from a position on, in a direction. A depth of `nested + 1` in a scan is
`nested` for the search, which stops at the bracket itself and not behind it. -/
def search (p : Program) : Direction → (nested position : Nat) → Option Nat
  | .forward, nested, position => p.closeFrom nested (position + 1)
  | .backward, nested, position => p.openBefore nested position

/-- The partner of a bracket, looked for in a direction. -/
def matchIn (p : Program) : Direction → Nat → Except UnmatchedBracket Nat
  | .forward => p.matchForward
  | .backward => p.matchBackward

/-- The partner is what a search finds that begins in no loop but its own. -/
theorem matchIn_eq (p : Program) (d : Direction) (start : Nat) :
    p.matchIn d start =
      match p.search d 0 start with
      | some pos => .ok pos
      | none => .error ⟨start, d⟩ := by
  cases d with
  | forward => rfl
  | backward => rfl

theorem search_eq_none (h : ∀ pos, d.move position = some pos → p.size ≤ pos) :
    p.search d nested position = none := by
  cases d with
  | forward => rw [search, closeFrom.eq_def, dif_neg (Nat.not_lt_of_le (h _ rfl))]
  | backward =>
    cases position with
    | zero => rfl
    | succ pos => simp [search, openBefore, Array.getElem?_eq_none (h pos rfl)]

/-- A search takes the next byte. It is over if this closes the last loop, and goes on otherwise. -/
theorem search_eq (hmove : d.move position = some pos) (hlt : pos < p.size) :
    p.search d nested position =
      match d.depthAfter (p.instruction? pos) (nested + 1) with
      | 0 => some pos
      | n + 1 => p.search d n pos := by
  have hi : p.instruction? pos = Instruction.ofByte? p[pos] := by simp [instruction?, hlt]
  cases d with
  | forward =>
    obtain rfl := Direction.move_forward_eq_some_iff.mp hmove
    rw [search, closeFrom.eq_def, dif_pos hlt, hi]
    split
    · next hb =>
      rw [Direction.depthAfter_of_entry (d := .forward) hb]
      rfl
    · next hb =>
      rw [Direction.depthAfter_of_exit (d := .forward) hb]
      cases nested with
      | zero => rfl
      | succ nested => rfl
    · next hentry hexit =>
      rw [Direction.depthAfter_of_ne (d := .forward) hentry hexit]
      rfl
  | backward =>
    obtain rfl := Direction.move_backward_eq_some_iff.mp hmove
    rw [search, openBefore.eq_def, hi]
    simp only [Array.getElem?_eq_getElem hlt]
    split
    · next hb =>
      rw [Direction.depthAfter_of_entry (d := .backward) hb]
      rfl
    · next hb =>
      rw [Direction.depthAfter_of_exit (d := .backward) hb]
      cases nested with
      | zero => rfl
      | succ nested => rfl
    · next hentry hexit =>
      rw [Direction.depthAfter_of_ne (d := .backward) hentry hexit]
      rfl

end Program

namespace Counting

variable {ν : Type} {a : Counting ν} {d : Direction} {p : Program} {s t : Scan ν}

/-- Counting is right as long as the numbers have no more than 64 bits. Nothing is asked for larger
ones, where the two kinds of words differ. -/
structure Sound (a : Counting ν) : Prop where
  /-- one is one -/
  value_one : a.value a.one = 1
  /-- the next number, if 64 bits are enough for it -/
  exists_succ {n : ν} (h : a.value n + 1 < 2 ^ 64) :
    ∃ m, a.succ n = some m ∧ a.value m = a.value n + 1
  /-- the previous number, unless it would be negative -/
  exists_pred {n : ν} (h : a.value n ≠ 0) : ∃ m, a.pred n = some m ∧ a.value m = a.value n - 1

theorem toNat_add_one {n : UInt64} (h : n.toNat + 1 < 2 ^ 64) : (n + 1).toNat = n.toNat + 1 := by
  rw [UInt64.toNat_add]
  exact Nat.mod_eq_of_lt h

theorem toNat_sub_one {n : UInt64} (h : n.toNat ≠ 0) : (n - 1).toNat = n.toNat - 1 :=
  UInt64.toNat_sub_of_le _ _ (UInt64.le_iff_toNat_le.mpr (Nat.one_le_iff_ne_zero.mpr h))

theorem sound_wrapping : wrapping.Sound where
  value_one := rfl
  exists_succ h := ⟨_, rfl, toNat_add_one h⟩
  exists_pred h := ⟨_, rfl, toNat_sub_one h⟩

/-- Words that stop are right within the range, which means that they do not stop there. -/
theorem sound_checked : checked.Sound where
  value_one := rfl
  exists_succ h := ⟨_, if_pos h, toNat_add_one h⟩
  exists_pred h := ⟨_, if_neg h, toNat_sub_one h⟩

/-! ## One turn

A turn counts the position and may count the depth. Both have to be possible, and both come out as
they would in numbers. -/

/-- The next position, if 64 bits are enough for it. Counting down needs no room. -/
theorem Sound.map_next (ha : a.Sound) (d : Direction) {position : ν}
    (h : a.value position + 1 < 2 ^ 64) :
    (a.next d position).map (Option.map a.value) = some (d.move (a.value position)) := by
  cases d with
  | forward =>
    obtain ⟨m, hm, hvalue⟩ := ha.exists_succ h
    rw [next, hm, Direction.move, ← hvalue]
    rfl
  | backward =>
    rw [next]
    split
    · next hzero =>
      rw [hzero]
      rfl
    · next hzero =>
      obtain ⟨m, hm, hvalue⟩ := ha.exists_pred hzero
      obtain ⟨n, hn⟩ := Nat.exists_eq_succ_of_ne_zero hzero
      rw [hm, hn]
      rw [hn] at hvalue
      exact congrArg (fun m => some (some m)) hvalue

/-- The next depth, if 64 bits are enough for it and the scan is still in a loop. -/
theorem Sound.map_deepened (ha : a.Sound) (d : Direction) (b : UInt8) {depth : ν}
    (hpos : a.value depth ≠ 0) (hlt : a.value depth + 1 < 2 ^ 64) :
    (a.deepened d b depth).map a.value =
      some (d.depthAfter (Instruction.ofByte? b) (a.value depth)) := by
  unfold deepened Direction.depthAfter
  split
  · obtain ⟨m, hm, hvalue⟩ := ha.exists_succ hlt
    rw [hm, ← hvalue]
    rfl
  · split
    · obtain ⟨m, hm, hvalue⟩ := ha.exists_pred hpos
      rw [hm, ← hvalue]
      rfl
    · rfl

/-- What a turn of a scan can come to. -/
inductive Turned (a : Counting ν) (d : Direction) (p : Program) (s : Scan ν) : Prop where
  /-- there is no byte to look at -/
  | stops (turn : a.turn d p s = some none)
      (outside : ∀ pos, d.move (a.value s.position) = some pos → p.size ≤ pos)
  /-- the next byte is counted -/
  | moves (t : Scan ν) (turn : a.turn d p s = some (some t))
      (move : d.move (a.value s.position) = some (a.value t.position))
      (inside : a.value t.position < p.size)
      (depth : a.value t.depth =
        d.depthAfter (p.instruction? (a.value t.position)) (a.value s.depth))

/-- **One turn** needs room for the next depth and for the next position. -/
theorem Sound.turned (ha : a.Sound) (d : Direction) (p : Program) (hdepth : a.value s.depth ≠ 0)
    (hdepthLt : a.value s.depth + 1 < 2 ^ 64) (hpositionLt : a.value s.position + 1 < 2 ^ 64) :
    a.Turned d p s := by
  obtain ⟨moved, hnext, hmove⟩ := Option.map_eq_some_iff.mp (ha.map_next d hpositionLt)
  -- there may be no next position, or no byte at it
  cases moved with
  | none =>
    refine .stops (by rw [turn, hnext]; rfl) fun pos h => ?_
    cases hmove.trans h
  | some position =>
    cases hb : p[a.value position]? with
    | none =>
      refine .stops (by simp [turn, hnext, hb]) fun pos h => ?_
      cases hmove.trans h
      exact Array.getElem?_eq_none_iff.mp hb
    | some b =>
      obtain ⟨depth, hdeepened, hvalue⟩ :=
        Option.map_eq_some_iff.mp (ha.map_deepened d b hdepth hdepthLt)
      refine .moves ⟨depth, position⟩ (by simp [turn, hnext, hb, hdeepened]) hmove.symm
        (Array.getElem?_eq_some_iff.mp hb).1 ?_
      rw [Program.instruction?, hb, Option.bind_some, ← hvalue]

/-! ## Turn after turn

What holds of all states that a scan comes to is shown by induction on its turns. -/

/-- A scan that is not over takes a turn. -/
def Turns (a : Counting ν) (d : Direction) (p : Program) (s t : Scan ν) : Prop :=
  a.value s.depth ≠ 0 ∧ a.turn d p s = some (some t)

/-- The scan from a position comes to a state of it. -/
def Visits (a : Counting ν) (d : Direction) (p : Program) (start : ν) : Scan ν → Prop :=
  Relation.ReflTransGen (a.Turns d p) ⟨a.one, start⟩

/-- A scan has come from a position to another one in the program, in a direction, and no deeper
than by one for each byte. -/
structure Scan.Walked (a : Counting ν) (d : Direction) (p : Program) (start : Nat) (s : Scan ν) :
    Prop where
  /-- the scan is inside the program -/
  position_lt : a.value s.position < p.size
  /-- the depth is one and the distance at most -/
  depth_le :
    match d with
    | .forward => start ≤ a.value s.position ∧ a.value s.depth + start ≤ a.value s.position + 1
    | .backward => a.value s.position ≤ start ∧ a.value s.depth + a.value s.position ≤ start + 1

/-- The depth is no more than the length of the program, since the distance is less. -/
theorem Scan.Walked.depth_le_size {start : Nat} (h : s.Walked a d p start)
    (hstart : start < p.size) : a.value s.depth ≤ p.size := by
  obtain ⟨hlt, hle⟩ := h
  cases d with
  | forward => omega
  | backward => omega

theorem scan_of_depth_eq_zero (h : a.value s.depth = 0) :
    a.scan d p s = some (some s.position) := by
  rw [scan, if_pos h]
  rfl

section Visits

variable {start : ν} (ha : a.Sound) (hp : p.size < 2 ^ 63) (hstart : a.value start < p.size)
include ha hp hstart

/-- There is always room for one more turn, and much of it: the length has no more than 63 bits. -/
theorem Scan.Walked.turned (hs : s.Walked a d p (a.value start)) (hdepth : a.value s.depth ≠ 0) :
    a.Turned d p s := by
  have hdepthLe := hs.depth_le_size hstart
  have hpositionLt := hs.position_lt
  exact ha.turned d p hdepth (by omega) (by omega)

/-- A turn goes no further than to the next byte. The depth grows by one at most, while the distance
grows by one. -/
theorem Scan.Walked.turn (hs : s.Walked a d p (a.value start)) (h : a.Turns d p s t) :
    t.Walked a d p (a.value start) := by
  obtain ⟨hne, hturn⟩ := h
  cases hs.turned ha hp hstart hne with
  | stops hstop => cases hstop.symm.trans hturn
  | moves t' hnext hmove hlt hafter =>
    cases hnext.symm.trans hturn
    have hdeeper : a.value t.depth ≤ a.value s.depth + 1 := hafter ▸ Direction.depthAfter_le
    refine ⟨hlt, ?_⟩
    obtain ⟨-, hle⟩ := hs
    cases d with
    | forward =>
      rw [Direction.move_forward_eq_some_iff] at hmove
      exact ⟨by omega, by omega⟩
    | backward =>
      rw [Direction.move_backward_eq_some_iff] at hmove
      exact ⟨by omega, by omega⟩

/-- **In range.** As long as a scan goes on, it stays in the program, and no deeper than the
distance that it has come. The induction is on the turns that it has taken. -/
theorem Sound.walked_of_visits (h : a.Visits d p start s) : s.Walked a d p (a.value start) := by
  induction h with
  | refl =>
    have hone : a.value a.one ≤ 1 := Nat.le_of_eq ha.value_one
    refine ⟨hstart, ?_⟩
    cases d with
    | forward => exact ⟨Nat.le_refl _, Nat.add_comm _ 1 ▸ Nat.add_le_add_right hone _⟩
    | backward => exact ⟨Nat.le_refl _, Nat.add_comm _ 1 ▸ Nat.add_le_add_right hone _⟩
  | tail _ hturn ih => exact ih.turn ha hp hstart hturn

/-! ## The whole scan -/

variable {nested pos : Nat}

/-- A scan that comes to an end of the program finds nothing. -/
theorem Sound.scan_eq_none (hs : a.Visits d p start s) (hdepth : a.value s.depth = nested + 1)
    (h : ∀ pos, d.move (a.value s.position) = some pos → p.size ≤ pos) :
    a.scan d p s = some none := by
  have hne : a.value s.depth ≠ 0 := hdepth ▸ Nat.succ_ne_zero nested
  cases (ha.walked_of_visits hp hstart hs).turned ha hp hstart hne with
  | stops hturn =>
    rw [scan, if_neg hne, hturn]
    rfl
  | moves t _ hmove hlt => exact absurd (h _ hmove) (Nat.not_le_of_lt hlt)

/-- A scan that does not goes on behind the next byte, in a state that it visits. -/
theorem Sound.exists_scan_eq (hs : a.Visits d p start s) (hdepth : a.value s.depth = nested + 1)
    (hmove : d.move (a.value s.position) = some pos) (hlt : pos < p.size) :
    ∃ t, a.scan d p s = a.scan d p t ∧ a.Visits d p start t ∧ a.value t.position = pos ∧
      a.value t.depth = d.depthAfter (p.instruction? pos) (nested + 1) := by
  have hne : a.value s.depth ≠ 0 := hdepth ▸ Nat.succ_ne_zero nested
  cases (ha.walked_of_visits hp hstart hs).turned ha hp hstart hne with
  | stops _ houtside => exact absurd (houtside _ hmove) (Nat.not_le_of_lt hlt)
  | moves t hturn hmove' _ hafter =>
    obtain rfl := Option.some.inj (hmove'.symm.trans hmove)
    refine ⟨t, ?_, .tail hs ⟨hne, hturn⟩, rfl, hdepth ▸ hafter⟩
    rw [scan, if_neg hne, hturn]
    rfl

/-- **The whole scan** finds what the search in numbers finds. -/
theorem Sound.map_scan (hs : a.Visits d p start s) (hdepth : a.value s.depth = nested + 1) :
    (a.scan d p s).map (Option.map a.value) = some (p.search d nested (a.value s.position)) := by
  -- by induction on how many bytes lie ahead
  induction hn : d.ahead p.size (a.value s.position) using Nat.strongRecOn
    generalizing s nested with
  | ind n ih =>
    by_cases hnext : ∃ pos, d.move (a.value s.position) = some pos ∧ pos < p.size
    · obtain ⟨pos, hmove, hlt⟩ := hnext
      obtain ⟨t, hscan, ht, rfl, hafter⟩ := ha.exists_scan_eq hp hstart hs hdepth hmove hlt
      rw [hscan, Program.search_eq hmove hlt]
      split
      · next hzero =>
        rw [scan_of_depth_eq_zero (hafter.trans hzero)]
        rfl
      · next m hm => exact ih _ (hn ▸ Direction.ahead_lt hmove hlt) ht (hafter.trans hm) rfl
    · have hend : ∀ pos, d.move (a.value s.position) = some pos → p.size ≤ pos :=
        fun pos hmove => Nat.le_of_not_lt fun hlt => hnext ⟨pos, hmove, hlt⟩
      rw [ha.scan_eq_none hp hstart hs hdepth hend, Program.search_eq_none hend]
      rfl

/-- **Partners** are found in words as they are in numbers. -/
theorem Sound.map_partner (d : Direction) :
    (a.partner d p start).map (Except.map a.value) = some (p.matchIn d (a.value start)) := by
  have hscan := ha.map_scan hp hstart (d := d) .refl ha.value_one
  obtain ⟨answer, hanswer, hvalue⟩ := Option.map_eq_some_iff.mp hscan
  rw [partner, hanswer, Program.matchIn_eq, ← hvalue]
  cases answer with
  | some pos => rfl
  | none => rfl

end Visits

end Counting

end TapeMachine
