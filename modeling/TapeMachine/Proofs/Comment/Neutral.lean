import TapeMachine.Proofs.Comment.Rank
import TapeMachine.Proofs.Engine.Numbering

/-!
# Comments are neutral

A program and the same program without its comments do the same, from every position of the one and
its rank in the other (`ends_stripped_iff`): an instruction is mirrored at its rank, and a comment
is skipped, since it has the rank of what comes behind it.

The two runs do not keep step, because the one with comments has more to do. All that is shown here
is where the instructions and their partners stand; that the runs then end alike is what a numbering
is for.
-/

namespace TapeMachine.Program

variable {κ : Type} {w : Nat} [Console κ w] {p : Program} {pos : Nat} {i : Instruction}

theorem map_ofByte?_of_instruction? (h : p.instruction? pos = some i) :
    (p[pos]?).map Instruction.ofByte? = some (some i) := by
  obtain ⟨byte, hbyte, hi⟩ := exists_byte_of_instruction? h
  rw [hbyte, Option.map_some, hi]

/-- An instruction is found at its rank, and its partner at the rank of the partner. Both have the
next rank behind them. -/
theorem mirrors_stripped (h : p.instruction? pos = some i) : Mirrors p p.stripped p.rank pos where
  byte := by
    rw [map_ofByte?_of_instruction? h, map_ofByte?_of_instruction? (instruction?_stripped h)]
  next := fun _ => rank_succ_of_some h
  partner := by
    intro other hother
    rw [partner?_stripped h, hother, Option.map_some]
    refine ⟨rfl, ?_⟩
    rcases partner?_eq_some_iff.mp hother with hpair | hpair
    · exact rank_succ_of_some hpair.closes
    · exact rank_succ_of_some hpair.opens
  alone := by
    intro hnone
    rw [partner?_stripped h, hnone, Option.map_none]

/-- Every position is mirrored at its rank, or holds a comment and is skipped. The positions behind
the end are all mirrored, since nothing is at either place. -/
theorem mirrors_or_skips_stripped (p : Program) (pos : Nat) :
    Mirrors p p.stripped p.rank pos ∨ Skips p p.rank pos := by
  cases hi : p.instruction? pos with
  | some i => exact Or.inl (mirrors_stripped hi)
  | none =>
    rcases Nat.lt_or_ge pos p.size with hlt | hge
    · have hbyte : p[pos]? = some p[pos] := Array.getElem?_eq_getElem hlt
      have hcomment : Instruction.ofByte? p[pos] = none := by
        rwa [instruction?, hbyte, Option.bind_some] at hi
      exact Or.inr ⟨⟨p[pos], hbyte, hcomment⟩, rank_succ_of_none hi⟩
    · exact Or.inl (.of_size_le hge (Nat.le_of_eq (rank_of_size_le hge).symm))

/-- **Comments are neutral.** A run of a program ends exactly if the run without its comments does
that begins at the rank of the same position, and it ends in the same way: on the same tape, with
the memory pointer and the console as they are there, and at the position that has the rank found
there. A bracket without a partner is reported at its rank. A run that ends well is at the end of
both.

The console can be any, so also one that keeps a list of what it is asked. -/
theorem ends_stripped_iff (p : Program) (tape : Tape w) (mp : Addr) {start : Nat}
    (hstart : start ≤ p.size) (k : κ) :
    (∀ outcome' u', p.stripped.Ends ⟨⟨tape, mp, p.rank start⟩, k⟩ outcome' u' ↔
      ∃ outcome u, p.Ends ⟨⟨tape, mp, start⟩, k⟩ outcome u ∧ outcome' = outcome.renumbered p.rank ∧
        u' = u.renumbered p.rank) ∧
    ∀ u, p.Ends ⟨⟨tape, mp, start⟩, k⟩ (.ok ()) u →
      u.engine.instructionPointer = p.size ∧
        (u.renumbered p.rank).engine.instructionPointer = p.stripped.size := by
  refine ⟨?_, ?_⟩
  · intro outcome' u'
    exact ends_renumbered_iff (s := ⟨⟨tape, mp, start⟩, k⟩) (mirrors_or_skips_stripped p)
  · intro u hends
    have hsize := (ends_ok_iff.mp hends).2.trans (Nat.max_eq_right hstart)
    exact ⟨hsize, (congrArg p.rank hsize).trans (rank_of_size_le (Nat.le_refl p.size))⟩

/-- A run of `xy-z]` that begins inside the comment in front. It counts down and finds that the loop
has no beginning; without the comments this is `-]`, and the bracket has rank one. -/
theorem ends_stripped_iff_unmatchedBracket :
    stripped #[120, 121, 45, 122, 93] = #[45, 93] ∧
      1 ≤ (#[120, 121, 45, 122, 93] : Program).size ∧
      Ends (stripped #[120, 121, 45, 122, 93])
        (⟨⟨Tape.blank, 0, rank #[120, 121, 45, 122, 93] 1⟩, ⟨⟨[]⟩, .empty⟩⟩ :
          Config (Queue 8 × Collector 8) 8)
        (.error (.unmatchedBracket ⟨1, .backward⟩))
        ⟨⟨Tape.blank.set 0 (Tape.blank.get 0 - 1), 0, 1⟩, ⟨⟨[]⟩, .empty⟩⟩ := by
  have hstart : 1 ≤ (#[120, 121, 45, 122, 93] : Program).size := by decide
  have hnonzero : (Tape.blank.set 0 (Tape.blank.get 0 - 1) : Tape 8).get 0 ≠ 0 := by
    rw [Tape.get_set_self, Tape.get_blank]
    decide
  refine ⟨by decide, hstart, ?_⟩
  refine ((ends_stripped_iff _ Tape.blank 0 hstart _).1 _ _).mpr
    ⟨.error (.unmatchedBracket ⟨4, .backward⟩),
      ⟨⟨Tape.blank.set 0 (Tape.blank.get 0 - 1), 0, 4⟩, ⟨⟨[]⟩, .empty⟩⟩, ?_, rfl, rfl⟩
  rw [(Completes.comment rfl (by decide)).ends_iff, (Completes.decrement (by decide)).ends_iff,
    (Completes.comment rfl (by decide)).ends_iff]
  exact Fails.ends (.unopened (by decide) hnonzero (by decide))

end TapeMachine.Program
