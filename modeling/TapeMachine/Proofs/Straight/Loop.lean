import Mathlib.Order.Bounds.Basic
import Mathlib.Order.Nat
import Mathlib.Tactic.ByContra
import TapeMachine.Proofs.Straight.Effect

/-!
# Loops of straight code

A loop around straight code that comes back to where it began (`Straight.Returns`) does the same in
every round: it changes the cell that is tested by the same number, and all others too. So it ends
exactly if some number of rounds takes the tested cell to zero (`Straight.Clears`), and the least
such number tells what has been added to each cell: `linear_loop`.

`Tape.afterRounds` is the tape after so many rounds. Another round leads from one to the next
(`reaches_round`), and the loop goes on for as long as no number of rounds so far has taken the
tested cell to zero (`reaches_rounds`).

Whether a number of rounds clears the cell is a question of divisibility, and nothing is assumed of
how much a round changes it by. Any number of divisors and wraparounds may be involved: a loop can
count by threes, or up instead of down, and still come to zero.
-/

namespace TapeMachine

variable {κ : Type} {w : Nat}

/-! ## Rounds

After `n` rounds every cell has been changed by `n` times what one round changes it by. Nothing here
mentions the brackets. -/

/-- Straight code that comes back to the cell where it began. -/
structure Straight.Returns (bs : List UInt8) : Prop where
  /-- it only counts and moves -/
  isStraight : ∀ b ∈ bs, Straight.isStraight b
  /-- and moves around the ring, if it moves anywhere -/
  displacement : Straight.displacement bs ≡ 0 [ZMOD 65536]

/-- When straight code has been run `n` times from this cell, the cell is zero. -/
def Straight.Clears (bs : List UInt8) (c : Cell w) (n : Nat) : Prop :=
  (2 ^ w : Int) ∣ c.toNat + n * Straight.change 0 0 bs

instance (bs : List UInt8) (c : Cell w) : DecidablePred (Straight.Clears bs c) := fun n =>
  inferInstanceAs (Decidable ((2 ^ w : Int) ∣ c.toNat + n * Straight.change 0 0 bs))

namespace Tape

variable (t : Tape w) (mp : Addr) (bs : List UInt8)

/-- The tape when straight code has been run `n` times from an address. -/
def afterRounds (n : Nat) : Tape w := t.raised fun a => n * Straight.change a mp bs

@[simp] theorem afterRounds_zero : t.afterRounds mp bs 0 = t := by
  rw [afterRounds]
  simp only [Int.natCast_zero, Int.zero_mul, raised_zero]

theorem get_afterRounds_add (d : Addr) (n : Nat) :
    (t.afterRounds mp bs n).get (mp + d) =
      t.get (mp + d) + BitVec.ofInt w (n * Straight.change d 0 bs) := by
  rw [afterRounds, get_raised, Straight.change_eq_change_zero, UInt16.add_comm,
    UInt16.add_sub_cancel]

/-- The tested cell is zero when the code clears it in so many rounds. -/
theorem get_afterRounds_eq_zero_iff (n : Nat) :
    (t.afterRounds mp bs n).get mp = 0 ↔ Straight.Clears bs (t.get mp) n := by
  have hget := t.get_afterRounds_add mp bs 0 n
  rw [UInt16.add_zero] at hget
  rw [hget, Cell.add_ofInt_eq_zero_iff, Straight.Clears]

variable {mp bs}

theorem get_afterRounds_of_change_eq_zero {a : Addr} (h : Straight.change (a - mp) 0 bs = 0)
    (n : Nat) : (t.afterRounds mp bs n).get a = t.get a := by
  rw [afterRounds, get_raised, Straight.change_eq_change_zero, h, Int.mul_zero, Cell.ofInt_zero]
  exact BitVec.add_zero _

variable (mp)

/-- One more round. The pointer is back where it was, since the displacement is a multiple of the
length of the ring. -/
theorem performed_afterRounds (h : Straight.Returns bs) (n ip : Nat) :
    Engine.performed ⟨t.afterRounds mp bs n, mp, ip⟩ bs =
      ⟨t.afterRounds mp bs (n + 1), mp, ip + bs.length⟩ := by
  have hmp : mp + UInt16.ofInt (Straight.displacement bs) = mp := by
    rw [Addr.ofInt_congr h.displacement]
    exact UInt16.add_zero mp
  rw [Engine.performed, hmp, afterRounds, raised_raised, afterRounds]
  simp only [Int.natCast_succ, Int.add_mul, Int.one_mul]

end Tape

namespace Program

open Instruction Straight

/-! ## The loop

The loop is a program by itself, with the first bracket at zero and its partner behind the body. -/

/-- The loop with this body. -/
def loop (body : Program) : Program := #[beginLoop.toByte] ++ body ++ #[endLoop.toByte]

variable [Console κ w] {body : Program} {tape : Tape w} {mp : Addr} {k : κ} {n : Nat}

theorem size_loop (body : Program) : (loop body).size = 1 + body.size + 1 := by
  rw [loop, Array.size_append, Array.size_append]
  rfl

/-- The brackets of a loop are a pair, if the body is balanced. -/
theorem Balanced.paired_loop (h : body.Balanced) : (loop body).Paired 0 (1 + body.size) where
  opens := instruction?_front #[beginLoop.toByte] body #[endLoop.toByte] (Nat.lt_succ_self 0)
  closes := instruction?_behind #[beginLoop.toByte] body #[endLoop.toByte] 0
  inside := h.balancedBetween_middle #[beginLoop.toByte] #[endLoop.toByte]

theorem balanced_loop (h : body.Balanced) : (loop body).Balanced := by
  rw [balanced_iff, size_loop]
  exact h.paired_loop.balancedBetween

theorem paired_loop (h : Returns body.toList) : (loop body).Paired 0 (1 + body.size) :=
  (balanced_of_isStraight h.isStraight).paired_loop

/-- **One round** leads from the beginning of the body to the bracket behind it. -/
theorem reaches_round (h : Returns body.toList) (tape : Tape w) (mp : Addr) (k : κ) (n : Nat) :
    (loop body).Reaches ⟨⟨tape.afterRounds mp body.toList n, mp, 1⟩, k⟩
      ⟨⟨tape.afterRounds mp body.toList (n + 1), mp, 1 + body.size⟩, k⟩ := by
  rw [← Array.length_toList, ← Tape.performed_afterRounds _ _ h]
  exact reaches_middle #[beginLoop.toByte] #[endLoop.toByte] h.isStraight rfl k

/-- Behind the body, the loop is run again as long as the tested cell is not zero. -/
theorem completes_again (h : Returns body.toList)
    (hno : ¬ Clears body.toList (tape.get mp) n) :
    (loop body).Completes ⟨⟨tape.afterRounds mp body.toList n, mp, 1 + body.size⟩, k⟩
      ⟨⟨tape.afterRounds mp body.toList n, mp, 1⟩, k⟩ :=
  .again (paired_loop h).closes (mt (Tape.get_afterRounds_eq_zero_iff ..).mp hno)
    (paired_loop h).partner?_stop

/-- **Many rounds.** The loop goes on as long as the tested cell has not been zero. The induction is
on the rounds; the first test, in front of them, is made at the beginning of the loop and all others
at its end. -/
theorem reaches_rounds (h : Returns body.toList)
    (hno : ∀ i ≤ n, ¬ Clears body.toList (tape.get mp) i) :
    (loop body).Reaches ⟨⟨tape, mp, 0⟩, k⟩ ⟨⟨tape.afterRounds mp body.toList n, mp, 1⟩, k⟩ := by
  induction n with
  | zero =>
    have hnonzero : tape.get mp ≠ 0 := by
      have := mt (Tape.get_afterRounds_eq_zero_iff ..).mp (hno 0 (Nat.le_refl 0))
      rwa [Tape.afterRounds_zero] at this
    rw [Tape.afterRounds_zero]
    exact .single (.enter (paired_loop h).opens hnonzero)
  | succ n ih =>
    have hbefore := ih fun i hi => hno i (Nat.le_succ_of_le hi)
    exact (hbefore.trans (reaches_round h tape mp k n)).tail
      (completes_again h (hno (n + 1) (Nat.le_refl _)))

/-- **The end.** The loop ends after the first round that leaves the tested cell zero. -/
theorem ends_loop (h : Returns body.toList)
    (hn : IsLeast {n | Clears body.toList (tape.get mp) n} n) (k : κ) :
    (loop body).Ends ⟨⟨tape, mp, 0⟩, k⟩ (.ok ())
      ⟨⟨tape.afterRounds mp body.toList n, mp, (loop body).size⟩, k⟩ := by
  have hend : ∀ t : Tape w, (loop body).Ends ⟨⟨t, mp, (loop body).size⟩, k⟩ (.ok ())
      ⟨⟨t, mp, (loop body).size⟩, k⟩ := fun _ => ends_of_size_le (Nat.le_refl _)
  have hzero : (tape.afterRounds mp body.toList n).get mp = 0 :=
    (Tape.get_afterRounds_eq_zero_iff ..).mpr hn.1
  -- with no round at all the loop is skipped, and otherwise it is left
  cases n with
  | zero =>
    rw [Tape.afterRounds_zero] at hzero ⊢
    rw [(Completes.skip (paired_loop h).opens hzero (paired_loop h).partner?_start).ends_iff,
      ← size_loop]
    exact hend _
  | succ n =>
    have hno : ∀ i ≤ n, ¬ Clears body.toList (tape.get mp) i :=
      fun i hi hc => Nat.not_succ_le_self n (Nat.le_trans (hn.2 hc) hi)
    rw [(reaches_rounds h hno).ends_iff, (reaches_round h tape mp k n).ends_iff,
      (Completes.leave (paired_loop h).closes hzero).ends_iff, ← size_loop]
    exact hend _

/-- **No end.** If the tested cell is never zero, neither is the loop ever left: the run comes back
inside of it again and again, each time with another number of rounds behind it. -/
theorem not_ends_loop (h : Returns body.toList)
    (hno : ∀ n, ¬ Clears body.toList (tape.get mp) n) (k : κ) (outcome : Outcome)
    (u : Config κ w) : ¬ (loop body).Ends ⟨⟨tape, mp, 0⟩, k⟩ outcome u := by
  let S : Config κ w → Prop := fun s =>
    ∃ n, s = ⟨⟨tape.afterRounds mp body.toList n, mp, 1⟩, k⟩
  have hS : ∀ s, S s → ∃ t s', (loop body).Reaches s t ∧ (loop body).Completes t s' ∧ S s' := by
    rintro _ ⟨n, rfl⟩
    exact ⟨_, _, reaches_round h tape mp k n, completes_again h (hno (n + 1)), n + 1, rfl⟩
  rw [(reaches_rounds (n := 0) h fun i _ => hno i).ends_iff]
  exact not_ends_of_progress hS ⟨0, rfl⟩

/-! ## Some loops

What a loop does is computed from the change of its body at each distance. -/

/-- Code that counts down once in a round takes as many rounds as the value of the cell. With fewer
rounds there is something between zero and `2 ^ w` left, which no power of two divides. -/
theorem isLeast_clears_toNat {bs : List UInt8} (h : change 0 0 bs = -1) (c : Cell w) :
    IsLeast {n | Clears bs c n} c.toNat := by
  have hclears : ∀ n, Clears bs c n ↔ (2 ^ w : Int) ∣ c.toNat - n := by
    intro n
    rw [Clears, h, Int.mul_neg_one, Int.sub_eq_add_neg]
  refine ⟨(hclears _).mpr ?_, fun n hn => ?_⟩
  · rw [Int.sub_self]
    exact Int.dvd_zero _
  · have hlt : (c.toNat : Int) < 2 ^ w := by exact_mod_cast c.isLt
    by_contra hless
    have := Int.le_of_dvd (by omega) ((hclears n).mp hn)
    omega

/-- A loop that changes the tested cell alone leaves it zero, however many rounds it takes. -/
theorem ends_loop_clear (h : Returns body.toList) (halone : ∀ d ≠ 0, change d 0 body.toList = 0)
    (hex : ∃ n, Clears body.toList (tape.get mp) n) (k : κ) :
    (loop body).Ends ⟨⟨tape, mp, 0⟩, k⟩ (.ok ()) ⟨⟨tape.set mp 0, mp, (loop body).size⟩, k⟩ := by
  have hn := Nat.isLeast_find hex
  have hcleared : tape.afterRounds mp body.toList (Nat.find hex) = tape.set mp 0 := by
    refine Tape.ext_get fun a => ?_
    rw [Tape.get_set]
    split
    · next heq => rw [← heq, (Tape.get_afterRounds_eq_zero_iff ..).mpr hn.1]
    · next hne =>
      have hdist : a - mp ≠ 0 := by grind
      exact Tape.get_afterRounds_of_change_eq_zero _ (halone _ hdist) _
  rw [← hcleared]
  exact ends_loop h hn k

/-- `[-]` clears the cell, by as many rounds as its value. -/
theorem ends_loop_decrement (tape : Tape w) (mp : Addr) (k : κ) :
    (loop #[decrement.toByte]).Ends ⟨⟨tape, mp, 0⟩, k⟩ (.ok ()) ⟨⟨tape.set mp 0, mp, 3⟩, k⟩ := by
  refine ends_loop_clear ⟨List.all_eq_true.mp rfl, .rfl⟩ (fun d hd => ?_)
    ⟨_, (isLeast_clears_toNat (by decide) _).1⟩ k
  simp [change, Ne.symm hd]

/-- `[+]` clears it as well, by counting on to the largest value and around. -/
theorem ends_loop_increment (tape : Tape w) (mp : Addr) (k : κ) :
    (loop #[increment.toByte]).Ends ⟨⟨tape, mp, 0⟩, k⟩ (.ok ()) ⟨⟨tape.set mp 0, mp, 3⟩, k⟩ := by
  have hone : change 0 0 [increment.toByte] = 1 := by decide
  refine ends_loop_clear ⟨List.all_eq_true.mp rfl, .rfl⟩ (fun d hd => ?_)
    ⟨2 ^ w - (tape.get mp).toNat, ?_⟩ k
  · simp [change, Ne.symm hd]
  · have hsum : (tape.get mp).toNat + (2 ^ w - (tape.get mp).toNat) = 2 ^ w :=
      Nat.add_sub_of_le (Nat.le_of_lt (tape.get mp).isLt)
    rw [Clears, hone, Int.mul_one, ← Int.natCast_add, hsum, Int.natCast_pow]
    exact Int.dvd_refl _

/-- `[->+<]` takes the cell to its right neighbour along the ring, which is the first cell for the
last one. -/
theorem ends_loop_add (tape : Tape w) (mp : Addr) (k : κ) :
    (loop #[decrement.toByte, right.toByte, increment.toByte, left.toByte]).Ends
      ⟨⟨tape, mp, 0⟩, k⟩ (.ok ())
      ⟨⟨(tape.set mp 0).set (mp + 1) (tape.get (mp + 1) + tape.get mp), mp, 6⟩, k⟩ := by
  have hchange : ∀ d, change d 0
      [decrement.toByte, right.toByte, increment.toByte, left.toByte] =
        (if 0 = d then -1 else 0) + if 1 = d then 1 else 0 := by
    intro d
    simp [change]
  have hleast := isLeast_clears_toNat (hchange 0) (tape.get mp)
  have hadded : tape.afterRounds mp
      [decrement.toByte, right.toByte, increment.toByte, left.toByte] (tape.get mp).toNat =
        (tape.set mp 0).set (mp + 1) (tape.get (mp + 1) + tape.get mp) := by
    refine Tape.ext_get fun a => ?_
    rw [Tape.get_set, Tape.get_set]
    -- the right neighbour, the tested cell, and all others
    split
    · next heq =>
      rw [← heq, Tape.get_afterRounds_add, hchange 1, if_neg (by decide), if_pos rfl, Int.zero_add,
        Int.mul_one, Cell.ofInt_toNat]
    · next hnext =>
      split
      · next heq => rw [← heq, (Tape.get_afterRounds_eq_zero_iff ..).mpr hleast.1]
      · next hne =>
        have hzero : 0 ≠ a - mp := by grind
        have hone : 1 ≠ a - mp := by grind
        refine Tape.get_afterRounds_of_change_eq_zero _ ?_ _
        rw [hchange, if_neg hzero, if_neg hone, Int.add_zero]
  rw [← hadded]
  exact ends_loop ⟨List.all_eq_true.mp rfl, .rfl⟩ hleast k

/-- `[--]` never ends on an odd cell, which stays odd since the number of values of a cell is even.
-/
theorem not_ends_loop_odd (hodd : (tape.get mp).toNat % 2 = 1) (k : κ) (outcome : Outcome)
    (u : Config κ w) :
    ¬ (loop #[decrement.toByte, decrement.toByte]).Ends ⟨⟨tape, mp, 0⟩, k⟩ outcome u := by
  have htwo : change 0 0 [decrement.toByte, decrement.toByte] = -2 := by decide
  refine not_ends_loop ⟨List.all_eq_true.mp rfl, .rfl⟩ (fun n hn => ?_) k outcome u
  rw [Clears, htwo] at hn
  cases w with
  | zero =>
    -- there is no odd value without a bit
    have := (tape.get mp).isLt
    omega
  | succ w =>
    have heven : (2 : Int) ∣ 2 ^ (w + 1) := ⟨2 ^ w, by rw [Int.pow_succ, Int.mul_comm]⟩
    have := Int.dvd_trans heven hn
    omega

/-- **Linear loops.** Let the body only count and move, and come back to where it began. If some
number of rounds takes the tested cell to zero, the loop ends well, asks nothing of the console and
comes back to the tested cell; by the least such number of rounds, each cell has been changed as
often as the body changes it, modulo the number of values of a cell. If no number of rounds takes
the tested cell to zero, the loop never ends.

So `[-]` and `[+]` clear a cell, `[->+<]` adds it to its right neighbour along the ring, and `[--]`
never ends on a cell that is odd.

The console can be any, so also one that keeps a list of what it is asked. -/
theorem linear_loop (tape : Tape w) (mp : Addr) (k : κ) :
    (∀ body : Program, Returns body.toList →
      ((∃ n, Clears body.toList (tape.get mp) n) →
        ∃ n tape', IsLeast {n | Clears body.toList (tape.get mp) n} n ∧
          (loop body).Ends ⟨⟨tape, mp, 0⟩, k⟩ (.ok ()) ⟨⟨tape', mp, (loop body).size⟩, k⟩ ∧
          ∀ d, tape'.get (mp + d) =
            tape.get (mp + d) + BitVec.ofInt w (n * change d 0 body.toList)) ∧
      ((∀ n, ¬ Clears body.toList (tape.get mp) n) →
        ∀ outcome u, ¬ (loop body).Ends ⟨⟨tape, mp, 0⟩, k⟩ outcome u)) ∧
    (loop #[decrement.toByte]).Ends ⟨⟨tape, mp, 0⟩, k⟩ (.ok ()) ⟨⟨tape.set mp 0, mp, 3⟩, k⟩ ∧
    (loop #[increment.toByte]).Ends ⟨⟨tape, mp, 0⟩, k⟩ (.ok ()) ⟨⟨tape.set mp 0, mp, 3⟩, k⟩ ∧
    (loop #[decrement.toByte, right.toByte, increment.toByte, left.toByte]).Ends
      ⟨⟨tape, mp, 0⟩, k⟩ (.ok ())
      ⟨⟨(tape.set mp 0).set (mp + 1) (tape.get (mp + 1) + tape.get mp), mp, 6⟩, k⟩ ∧
    ((tape.get mp).toNat % 2 = 1 → ∀ outcome u,
      ¬ (loop #[decrement.toByte, decrement.toByte]).Ends ⟨⟨tape, mp, 0⟩, k⟩ outcome u) := by
  refine ⟨fun body h => ⟨fun hex => ?_, fun hno => not_ends_loop h hno k⟩, ?_, ?_, ?_, ?_⟩
  · have hn := Nat.isLeast_find hex
    exact ⟨_, _, hn, ends_loop h hn k, fun d => Tape.get_afterRounds_add tape mp _ d _⟩
  · exact ends_loop_decrement tape mp k
  · exact ends_loop_increment tape mp k
  · exact ends_loop_add tape mp k
  · exact fun hodd => not_ends_loop_odd hodd k

/-- `[--->++<]` on the last cell, which holds a one. It takes 171 rounds to count that down by
threes to zero, and the first cell, which is the right neighbour, is then 342 modulo 256. -/
theorem linear_loop_threes :
    Returns (#[45, 45, 45, 62, 43, 43, 60] : Program).toList ∧
      ∃ tape : Tape 8,
        (loop #[45, 45, 45, 62, 43, 43, 60]).Ends
          (⟨⟨Tape.blank.set 65535 1, 65535, 0⟩, ⟨⟨[]⟩, .empty⟩⟩ : Config (Queue 8 × Collector 8) 8)
          (.ok ()) ⟨⟨tape, 65535, 9⟩, ⟨⟨[]⟩, .empty⟩⟩ ∧
        tape.get 65535 = 0 ∧ tape.get 0 = 86 := by
  have hreturns : Returns (#[45, 45, 45, 62, 43, 43, 60] : Program).toList :=
    ⟨List.all_eq_true.mp rfl, .rfl⟩
  have hthree : change 0 0 [45, 45, 45, 62, 43, 43, 60] = -3 := by decide
  have htwo : change 1 0 [45, 45, 45, 62, 43, 43, 60] = 2 := by decide
  have hone : (Tape.blank.set 65535 1 : Tape 8).get 65535 = 1 := Tape.get_set_self ..
  have hclears : ∀ n, Clears [45, 45, 45, 62, 43, 43, 60] (1 : Cell 8) n ↔
      (256 : Int) ∣ 1 + n * -3 := fun n => by
    rw [Clears, hthree]
    rfl
  have hleast : IsLeast {n | Clears [45, 45, 45, 62, 43, 43, 60] (1 : Cell 8) n} 171 := by
    refine ⟨(hclears 171).mpr (by decide), fun n hn => ?_⟩
    have := (hclears n).mp hn
    omega
  obtain ⟨n, tape, hn, hends, hget⟩ :=
    ((linear_loop (Tape.blank.set 65535 1 : Tape 8) 65535
      (⟨⟨[]⟩, .empty⟩ : Queue 8 × Collector 8)).1 #[45, 45, 45, 62, 43, 43, 60] hreturns).1
        ⟨171, by rw [hone]; exact hleast.1⟩
  rw [hone] at hn
  obtain rfl := hn.unique hleast
  refine ⟨hreturns, tape, hends, ?_, ?_⟩
  · have hlast := hget 0
    rw [hthree] at hlast
    exact hlast.trans (by rw [UInt16.add_zero, hone]; decide)
  · have hfirst := hget 1
    rw [htwo] at hfirst
    exact hfirst.trans (by
      rw [Tape.get_set_of_ne _ _ (by decide), Tape.get_blank]
      decide)

end Program

end TapeMachine
