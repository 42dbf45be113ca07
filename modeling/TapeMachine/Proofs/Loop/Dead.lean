import TapeMachine.Proofs.Straight.Loop
import TapeMachine.Proofs.Straight.Replacement

/-!
# A loop behind a loop

A machine that leaves or skips a loop has a zero in its current cell
(`Completes.get_eq_zero_of_paired`), and comments change nothing about that. So if only comments
stand between a loop and the next one, the next one is skipped whenever the machine comes to it.

Nothing else leads there, whatever stands around the two loops: a jump lands behind a bracket, and
between the loops there is none but the end of the first. `AtZeroBehind` is what a machine keeps to,
and under it the program is in step with the one that has no second loop (`inStep_without`). So the
second loop is dead code, in balanced programs and in others (`loop_after_loop_dead`).

The cell need not be zero everywhere between the loops, only when a machine gets there by running. A
run that begins there can find any cell, and so the statement is about runs that begin at the first
loop or in front of it. From there the zero is carried along: out of the loop by either bracket,
over the comments by doing nothing, and into the second loop, which is skipped.
-/

namespace TapeMachine.Program

variable {κ : Type} {w : Nat} [Console κ w] {p q x : Program} {first last previous : Nat}
  {c t : Config κ w}

/-! ## Behind a loop

Between the loops there are comments only. So a state there comes from the first loop, through
states that have the same tape. -/

/-- **Behind a loop** the current cell is zero, when the loop has just been left or skipped. The
step that leads there has tested it and found it so. -/
theorem Completes.get_eq_zero_of_paired (h : p.Completes c t) (hpair : p.Paired first last)
    (hc : c.engine.instructionPointer = first ∨ c.engine.instructionPointer = last)
    (ht : t.engine.instructionPointer = last + 1) :
    t.engine.tape.get t.engine.memoryPointer = 0 := by
  obtain ⟨⟨tape, mp, ip⟩, k⟩ := c
  have hunique : ∀ {t'}, p.Completes ⟨⟨tape, mp, ip⟩, k⟩ t' → t = t' :=
    fun h' => Progress.running.inj (h.step.symm.trans h'.step)
  -- from either bracket the test of the cell tells where the step leads
  by_cases hcell : tape.get mp = 0
  · have hleaves : p.Completes ⟨⟨tape, mp, ip⟩, k⟩ ⟨⟨tape, mp, last + 1⟩, k⟩ := by
      rcases hc with rfl | rfl
      · exact .skip hpair.opens hcell hpair.partner?_start
      · exact .leave hpair.closes hcell
    rw [hunique hleaves]
    exact hcell
  · -- otherwise the loop is run, and its body lies before its end
    have hruns : p.Completes ⟨⟨tape, mp, ip⟩, k⟩ ⟨⟨tape, mp, first + 1⟩, k⟩ := by
      rcases hc with rfl | rfl
      · exact .enter hpair.opens hcell
      · exact .again hpair.closes hcell hpair.partner?_stop
    rw [hunique hruns] at ht
    exact absurd (Nat.succ.inj ht) (Nat.ne_of_lt hpair.lt)

/-- Behind its last loop, the program has only comments. -/
structure EndsWithLoop (x : Program) (first last : Nat) : Prop where
  /-- the brackets of the loop -/
  paired : x.Paired first last
  /-- what stands behind it -/
  comment : ∀ pos, last < pos → pos < x.size →
    ∃ byte, x[pos]? = some byte ∧ Instruction.ofByte? byte = none

/-- In front of a second loop: the machine is not in that loop, and behind the first one its current
cell is zero. -/
structure AtZeroBehind (x s : Program) (last : Nat) (c : Config κ w) : Prop where
  /-- it is not in the second loop, nor about to enter or skip it -/
  outside : Outside x s c.engine.instructionPointer
  /-- the cell that the second loop will test -/
  zero : last < c.engine.instructionPointer → c.engine.instructionPointer < x.size →
    c.engine.tape.get c.engine.memoryPointer = 0

namespace EndsWithLoop

variable {s : Program}

theorem last_lt_size (hx : x.EndsWithLoop first last) : last < x.size :=
  lt_size_of_instruction? hx.paired.closes

/-- **One step.** Wherever a machine comes to behind the first loop, its current cell is zero. -/
theorem get_eq_zero (hx : x.EndsWithLoop first last) (hc : AtZeroBehind x s last c)
    (h : Completes (x ++ s ++ q) c t)
    (hprevious : previous = c.engine.instructionPointer ∨
      partner? (x ++ s ++ q) c.engine.instructionPointer = some previous)
    (ht : t.engine.instructionPointer = previous + 1) (hle : last ≤ previous)
    (hlt : previous < x.size) : t.engine.tape.get t.engine.memoryPointer = 0 := by
  have hpair : Paired (x ++ s ++ q) first last :=
    (paired_front_iff x s q hx.last_lt_size).mpr hx.paired
  rcases Nat.eq_or_lt_of_le hle with rfl | hbehind
  · -- from the loop itself, by one bracket or the other
    refine h.get_eq_zero_of_paired hpair ?_ ht
    rcases hprevious with heq | hpartner
    · exact Or.inr heq.symm
    · rcases partner?_eq_some_iff.mp hpartner with hother | hother
      · exact Or.inl (hother.start_unique hpair)
      · cases hother.opens.symm.trans hpair.closes
  · -- from a comment, which has changed nothing and to which no jump leads
    obtain ⟨byte, hbyte, hnone⟩ := hx.comment previous hbehind hlt
    rw [← getElem?_front x s q hlt] at hbyte
    rcases hprevious with rfl | hpartner
    · obtain ⟨⟨tape, mp, ip⟩, k⟩ := c
      obtain rfl := Progress.running.inj (h.step.symm.trans (Completes.comment hbyte hnone).step)
      exact hc.zero hbehind hlt
    · have hno : instruction? (x ++ s ++ q) previous = none := by
        rw [instruction?, hbyte, Option.bind_some, hnone]
      rcases partner?_eq_some_iff.mp hpartner with hother | hother
      · cases hother.closes.symm.trans hno
      · cases hother.opens.symm.trans hno

end EndsWithLoop

/-! ## Without the second loop

The program without the second loop goes straight on where the other one skips it. -/

section Without

variable {a b : Program}

/-- The brackets of a loop in the middle of a program belong together, if the body is balanced. -/
theorem Balanced.paired_loop_middle (h : b.Balanced) (p q : Program) :
    Paired (p ++ loop b ++ q) p.size (p.size + (1 + b.size)) := by
  have hlt : 1 + b.size < (loop b).size := by
    rw [size_loop]
    exact Nat.lt_succ_self _
  exact (paired_middle_iff p (loop b) q hlt).mpr h.paired_loop

/-- On a zero cell the second loop is skipped in one step. -/
theorem completes_skip_loop (hb : b.Balanced) (hip : t.engine.instructionPointer = x.size)
    (hzero : t.engine.tape.get t.engine.memoryPointer = 0) :
    Completes (x ++ loop b ++ q) t
      ⟨{ t.engine with instructionPointer := x.size + (loop b).size }, t.console⟩ := by
  obtain ⟨⟨tape, mp, ip⟩, k⟩ := t
  obtain rfl : ip = x.size := hip
  have hpair := hb.paired_loop_middle x q
  rw [size_loop]
  exact .skip hpair.opens hzero hpair.partner?_start

/-- **In step.** Outside of the second loop, the program does what it does without it. The longer
program takes one step more whenever it comes to the loop. -/
theorem inStep_without (hx : x.EndsWithLoop first last) (hb : b.Balanced) (q : Program) :
    InStep (x ++ loop b ++ q) (x ++ q) (repositioned x (loop b) #[])
      (AtZeroBehind (κ := κ) (w := w) x (loop b) last) where
  echoes := by
    intro c hc
    have hempty : Balanced #[] := balanced_of_isStraight nofun
    have he := echoes_replaced q (balanced_loop hb) hempty hc.outside
    rwa [Array.append_empty] at he
  lands := by
    intro c t previous hc h hprevious ht
    have hout : Outside x (loop b) previous := by
      rcases hprevious with rfl | hpartner
      · exact hc.outside
      · exact outside_of_partner? (balanced_loop hb) hc.outside hpartner
    by_cases hfront : previous + 1 = x.size
    · -- in front of the second loop, which is skipped
      have hlt : previous < x.size := by omega
      have hzero := hx.get_eq_zero hc h hprevious ht (by have := hx.last_lt_size; omega) hlt
      refine ⟨_, .single (completes_skip_loop hb (ht.trans hfront) hzero),
        ⟨Or.inr (Nat.le_refl _), fun _ hlt => absurd hlt (by simp)⟩, ?_⟩
      have hplace : repositioned x (loop b) #[] (x.size + (loop b).size) = x.size :=
        repositioned_add 0
      rw [Config.renumbered, hplace, repositioned_of_lt hlt, hfront]
      exact .refl
    · -- anywhere else the two programs are at corresponding positions already
      obtain ⟨hout', hnext⟩ := hout.succ #[] hfront
      rw [← ht] at hout' hnext
      refine ⟨t, .refl, ⟨hout', fun hbehind hlt => ?_⟩, ?_⟩
      · rw [ht] at hbehind hlt
        exact hx.get_eq_zero hc h hprevious ht (Nat.le_of_lt_succ hbehind) (by omega)
      · rw [← hnext]
        exact .refl

variable {d : Program}

/-- Everything up to the second loop ends with the first one, if only comments stand between. -/
theorem endsWithLoop (ha : a.Balanced)
    (hd : ∀ byte ∈ d.toList, Instruction.ofByte? byte = none) (p : Program) :
    EndsWithLoop (p ++ loop a ++ d) p.size (p.size + (1 + a.size)) where
  paired := ha.paired_loop_middle p d
  comment := by
    intro pos hlast hlt
    have hsize : (p ++ loop a).size = p.size + (1 + a.size) + 1 := by
      rw [Array.size_append, size_loop]
      rfl
    obtain ⟨k, rfl⟩ := Nat.exists_eq_add_of_le (show (p ++ loop a).size ≤ pos by omega)
    have hsum : (p ++ loop a ++ d).size = (p ++ loop a).size + d.size := Array.size_append
    have hk : k < d.size := by omega
    rw [Array.getElem?_append_right (Nat.le_add_right _ _), Nat.add_sub_cancel_left,
      Array.getElem?_eq_getElem hk]
    exact ⟨_, rfl, hd _ (Array.getElem_mem_toList hk)⟩

/-- **A loop behind a loop** is dead code, if only comments stand between the two, in the middle of
any program, balanced or not. From any state at or in front of the first loop, runs end with the
second loop exactly if they end without it: with the same outcome, tape, memory pointer and console,
except that the positions behind the second loop have moved. And they stop nowhere in the second
loop, nor report a bracket there.

The console can be any, so also one that keeps a list of what it is asked. -/
theorem loop_after_loop_dead (ha : a.Balanced) (hb : b.Balanced)
    (hd : ∀ byte ∈ d.toList, Instruction.ofByte? byte = none) (p q : Program) {ip : Nat}
    (hip : ip ≤ p.size) (tape : Tape w) (mp : Addr) (k : κ) :
    (∀ pos, repositioned (p ++ loop a ++ d) (loop b) #[] pos =
      if pos < (p ++ loop a ++ d).size then pos else pos - (b.size + 2)) ∧
    (∀ outcome' u', Ends (p ++ loop a ++ d ++ q) ⟨⟨tape, mp, ip⟩, k⟩ outcome' u' ↔
      ∃ outcome u, Ends (p ++ loop a ++ d ++ loop b ++ q) ⟨⟨tape, mp, ip⟩, k⟩ outcome u ∧
        outcome' = outcome.renumbered (repositioned (p ++ loop a ++ d) (loop b) #[]) ∧
        u' = u.renumbered (repositioned (p ++ loop a ++ d) (loop b) #[])) ∧
    ∀ outcome u, Ends (p ++ loop a ++ d ++ loop b ++ q) ⟨⟨tape, mp, ip⟩, k⟩ outcome u →
      Outside (p ++ loop a ++ d) (loop b) u.engine.instructionPointer ∧
      ∀ bracket, outcome = .error (.unmatchedBracket bracket) →
        Outside (p ++ loop a ++ d) (loop b) bracket.position := by
  have hx := endsWithLoop ha hd p
  have hlt : ip < (p ++ loop a ++ d).size := by
    have := hx.last_lt_size
    omega
  -- the run begins in front of the second loop, where nothing is asked of the tape
  have hstart : AtZeroBehind (p ++ loop a ++ d) (loop b) (p.size + (1 + a.size))
      (⟨⟨tape, mp, ip⟩, k⟩ : Config κ w) :=
    ⟨Or.inl hlt, fun hbehind => absurd hbehind (by simp only; omega)⟩
  have hplace : Config.renumbered (repositioned (p ++ loop a ++ d) (loop b) #[])
      (⟨⟨tape, mp, ip⟩, k⟩ : Config κ w) = ⟨⟨tape, mp, ip⟩, k⟩ := by
    rw [Config.renumbered, repositioned_of_lt hlt]
  have hstep := inStep_without (κ := κ) (w := w) hx hb q
  refine ⟨fun pos => ?_, fun outcome' u' => ?_, fun outcome u hends => ?_⟩
  · rw [repositioned, size_loop, Nat.add_comm 1]
    rfl
  · conv_lhs => rw [← hplace]
    exact hstep.ends_iff hstart
  · obtain ⟨⟨v, hv, hu⟩, -⟩ := hstep.ends hstart hends
    have hout : Outside (p ++ loop a ++ d) (loop b) u.engine.instructionPointer := hu ▸ hv.outside
    refine ⟨hout, ?_⟩
    rintro bracket rfl
    rwa [hends.position_eq]

/-- `[]x[.]+]` without `[.]`. Only the last two bytes have moved, and so has the report on the last
one. -/
theorem loop_after_loop_dead_unmatchedBracket :
    Balanced #[] ∧ Balanced #[46] ∧
      (∀ byte ∈ (#[120] : Program).toList, Instruction.ofByte? byte = none) ∧
      Ends (#[] ++ loop #[] ++ #[120] ++ #[43, 93])
        (⟨Engine.initial, ⟨⟨[]⟩, .empty⟩⟩ : Config (Queue 8 × Collector 8) 8)
        (.error (.unmatchedBracket ⟨4, .backward⟩))
        ⟨⟨Tape.blank.set 0 (Tape.blank.get 0 + 1), 0, 4⟩, ⟨⟨[]⟩, .empty⟩⟩ := by
  have hempty : Balanced #[] := by decide
  have houtput : Balanced #[46] := by decide
  have hcomment : ∀ byte ∈ (#[120] : Program).toList, Instruction.ofByte? byte = none :=
    List.forall_mem_singleton.mpr rfl
  refine ⟨hempty, houtput, hcomment, ?_⟩
  have hzero : (Tape.blank : Tape 8).get 0 = 0 := Tape.get_blank 0
  have hone : (Tape.blank.set 0 (Tape.blank.get 0 + 1) : Tape 8).get 0 ≠ 0 := by
    rw [Tape.get_set_self, Tape.get_blank]
    decide
  have hfirst : partner? (#[] ++ loop #[] ++ #[120] ++ loop #[46] ++ #[43, 93]) 0 = some 1 := by
    decide
  have hbyte : (#[] ++ loop #[] ++ #[120] ++ loop #[46] ++ #[43, 93] : Program)[2]? = some 120 := by
    decide
  have hsecond : partner? (#[] ++ loop #[] ++ #[120] ++ loop #[46] ++ #[43, 93]) 3 = some 5 := by
    decide
  refine ((loop_after_loop_dead hempty houtput hcomment #[] #[43, 93] (Nat.le_refl 0) Tape.blank 0
    _).2.1 _ _).mpr ⟨.error (.unmatchedBracket ⟨7, .backward⟩),
      ⟨⟨Tape.blank.set 0 (Tape.blank.get 0 + 1), 0, 7⟩, ⟨⟨[]⟩, .empty⟩⟩, ?_, rfl, rfl⟩
  rw [(Completes.skip (by decide) hzero hfirst).ends_iff,
    (Completes.comment hbyte (by decide)).ends_iff,
    (Completes.skip (by decide) hzero hsecond).ends_iff,
    (Completes.increment (by decide)).ends_iff]
  exact Fails.ends (.unopened (by decide) hone (by decide))

end Without

end TapeMachine.Program
