import TapeMachine.Proofs.Bracket.Append
import TapeMachine.Proofs.Engine.Numbering

/-!
# One program after another

Whatever the brackets in them, a program in front of another completes what it completes alone
(`Completes.append`), because a bracket that has a partner keeps it. So a run of the first that ends
tells how the run of both begins (`ends_append_of_ends`).

A program made of two parts does what the parts do in turn on one machine, if the first part closes
every bracket that it opens (`ends_append_iff_in_turn`). Then both parts find their brackets as they
would alone: a bracket of the first part is mirrored where it stands, and one of the second part as
many bytes further on as the first part has.

A run of both parts is cut where it comes to the end of the first (`Closed.ends_append_cases`).

The two results ask for different things. The first asks nothing of either program and says less: a
`[` that the first program leaves open fails there, but may find its partner in the second. The
second asks that there is no such `[`. A `]` without a partner is allowed in both, since what stands
behind a `]` never gives it one.
-/

namespace TapeMachine.Program

variable {κ : Type} {w : Nat} [Console κ w] {p q : Program} {pos : Nat} {s t u : Config κ w}
  {failure : Failure} {outcome : Outcome} {k : κ}

/-! ## In front of anything

Nothing is assumed of the two programs here. A bracket that has a partner keeps it, so what is
completed stays completed. -/

/-- What the first part holds and completes, it holds in front of anything. It need not be mirrored:
a bracket without a partner may have one in the longer program. -/
theorem carries_append (q : Program) (hpos : pos < p.size) : Carries p (p ++ q) id pos where
  byte := by rw [id, Array.getElem?_append_left hpos]
  next := fun _ => rfl
  partner := fun _ hother => ⟨partner?_append_of_eq_some q hother, rfl⟩

/-- What is completed in the first part is completed in front of anything, because a partner that
has been found stays the partner. -/
theorem Completes.append (h : p.Completes s t) (q : Program) : Completes (p ++ q) s t :=
  h.renumbered (carries_append q h.instructionPointer_le.1)

/-- What the first part does alone it does in front of the second. -/
theorem Reaches.append (h : p.Reaches s t) (q : Program) : Reaches (p ++ q) s t :=
  Relation.ReflTransGen.mono (fun _ _ hstep => hstep.append q) _ _ h

/-- What the first part fails at, it fails at in front of anything, except that a bracket which it
has opened may be closed behind it. -/
theorem Fails.append (h : p.Fails s failure k) (q : Program) :
    Fails (p ++ q) s failure k ∨
      ∃ pos other, failure = .unmatchedBracket ⟨pos, .forward⟩ ∧ p.size ≤ other ∧
        matchForward (p ++ q) pos = .ok other ∧
        Completes (p ++ q) s ⟨{ s.engine with instructionPointer := other + 1 }, s.console⟩ := by
  have hlt := h.instructionPointer_lt
  cases h with
  | @unclosed tape mp pos k instr zero partner =>
    -- the only failure that what stands behind can undo
    have instr' := (instruction?_append_left q hlt).trans instr
    cases hother : partner? (p ++ q) pos with
    | none => exact Or.inl (.unclosed instr' zero hother)
    | some other =>
      refine Or.inr ⟨pos, other, rfl, size_le_of_partner?_append instr partner hother, ?_,
        .skip instr' zero hother⟩
      rw [matchForward_eq_partner? instr', hother]
  | unopened instr nonzero partner =>
    exact Or.inl (.unopened ((instruction?_append_left q hlt).trans instr) nonzero
      ((partner?_append_of_endLoop q instr).trans partner))
  | flush instr flush => exact Or.inl (.flush ((instruction?_append_left q hlt).trans instr) flush)
  | read instr flush read =>
    exact Or.inl (.read ((instruction?_append_left q hlt).trans instr) flush read)
  | write instr write => exact Or.inl (.write ((instruction?_append_left q hlt).trans instr) write)

/-- **Appending is harmless.** A run of a program that ends is also the beginning of the run of
every longer program, whatever brackets either of them leaves open.

If the program comes to its end, the longer one goes on from there. If it fails, the longer one
fails in the same way, unless it was for a bracket that had not been closed: that bracket can have
its partner in what follows, and then the run goes on behind it. -/
theorem ends_append_of_ends (q : Program) (hle : s.engine.instructionPointer ≤ p.size) :
    p.Ends s outcome t →
      match outcome with
      | .ok () =>
        t.engine.instructionPointer = p.size ∧ Reaches (p ++ q) s t ∧
          ∀ outcome' u, Ends (p ++ q) s outcome' u ↔ Ends (p ++ q) t outcome' u
      | .error (.console f) => Ends (p ++ q) s (.error (.console f)) t
      | .error (.unmatchedBracket ⟨pos, .backward⟩) =>
        Ends (p ++ q) s (.error (.unmatchedBracket ⟨pos, .backward⟩)) t
      | .error (.unmatchedBracket ⟨pos, .forward⟩) =>
        pos = t.engine.instructionPointer ∧ Reaches (p ++ q) s t ∧
          (Ends (p ++ q) s (.error (.unmatchedBracket ⟨pos, .forward⟩)) t ∨
            ∃ other, p.size ≤ other ∧ matchForward (p ++ q) pos = .ok other ∧
              step (p ++ q) t =
                .running ⟨{ t.engine with instructionPointer := other + 1 }, t.console⟩) := by
  intro h
  cases outcome with
  | ok _ =>
    obtain ⟨hreach, hmax⟩ := ends_ok_iff.mp h
    have hlonger := hreach.append q
    exact ⟨hmax.trans (Nat.max_eq_right hle), hlonger, fun _ _ => hlonger.ends_iff⟩
  | error failure =>
    cases failure with
    | console f =>
      obtain ⟨k, hreach, hf⟩ := ends_error_iff.mp h
      -- only a bracket without a partner can find one in what follows
      obtain hf' | ⟨pos, other, hbracket, -⟩ := hf.append q
      · exact ends_error_iff.mpr ⟨k, hreach.append q, hf'⟩
      · cases hbracket
    | unmatchedBracket bracket =>
      obtain ⟨hreach, hf⟩ := h.fails_of_unmatchedBracket
      have hlonger := hreach.append q
      have hagain (hf' : Fails (p ++ q) t (.unmatchedBracket bracket) t.console) :
          Ends (p ++ q) s (.error (.unmatchedBracket bracket)) t := hlonger.ends_iff.mpr hf'.ends
      obtain ⟨pos, _ | _⟩ := bracket
      -- to the right there may be a partner now, and the scan to the left never gets there
      · refine ⟨h.position_eq, hlonger, ?_⟩
        obtain hf' | ⟨pos, other, hbracket, hge, hmatch, hjump⟩ := hf.append q
        · exact Or.inl (hagain hf')
        · cases hbracket
          exact Or.inr ⟨other, hge, hmatch, hjump.step⟩
      · obtain hf' | ⟨pos, other, hbracket, -⟩ := hf.append q
        · exact hagain hf'
        · cases hbracket

/-- `[` on a zero cell has no partner, and the run stops there. With `]` behind it, it has one, and
the run goes on behind that. -/
theorem ends_append_of_ends_closed :
    Ends #[91] (⟨Engine.initial, ⟨⟨[]⟩, .empty⟩⟩ : Config (Queue 8 × Collector 8) 8)
        (.error (.unmatchedBracket ⟨0, .forward⟩)) ⟨Engine.initial, ⟨⟨[]⟩, .empty⟩⟩ ∧
      ∃ other, 1 ≤ other ∧ matchForward (#[91] ++ #[93]) 0 = .ok other ∧
        step (#[91] ++ #[93])
            (⟨Engine.initial, ⟨⟨[]⟩, .empty⟩⟩ : Config (Queue 8 × Collector 8) 8) =
          .running ⟨⟨Tape.blank, 0, other + 1⟩, ⟨⟨[]⟩, .empty⟩⟩ := by
  let start : Config (Queue 8 × Collector 8) 8 := ⟨Engine.initial, ⟨⟨[]⟩, .empty⟩⟩
  have hzero : start.engine.tape.get 0 = 0 := Tape.get_blank 0
  have hends : Ends #[91] start (.error (.unmatchedBracket ⟨0, .forward⟩)) start :=
    Fails.ends (.unclosed (by decide) hzero (by decide))
  have hskip : Completes (#[91] ++ #[93]) start ⟨⟨Tape.blank, 0, 2⟩, start.console⟩ :=
    .skip (by decide) hzero (by decide)
  obtain ⟨-, -, hfails | hjump⟩ := ends_append_of_ends #[93] (by decide) hends
  · -- the longer program does not fail there, because it goes on
    obtain ⟨hsame, -⟩ := hfails.unique (hskip.ends_iff.mpr (ends_of_size_le (by decide)))
    cases hsame
  · exact ⟨hends, hjump⟩

/-! ## Where the parts stand -/

/-- If the first part closes what it opens, its brackets have the same partners in the longer
program, and those without one still have none. -/
theorem Closed.mirrors_append_left (h : p.Closed) (q : Program) (hpos : pos < p.size) :
    Mirrors p (p ++ q) id pos where
  toCarries := carries_append q hpos
  alone := fun hnone => (h.partner?_append_left q hpos).trans hnone

/-- Then the second part finds its brackets as if it stood alone, as many bytes further on as the
first part has. -/
theorem Closed.mirrors_append_right (h : p.Closed) (q : Program) (pos : Nat) :
    Mirrors q (p ++ q) (p.size + ·) pos where
  byte := by rw [Array.getElem?_append_right (Nat.le_add_right _ _), Nat.add_sub_cancel_left]
  next := fun _ => rfl
  partner := fun _ hother => by
    rw [h.partner?_append_right, hother, Option.map_some]
    exact ⟨rfl, rfl⟩
  alone := fun hnone => by rw [h.partner?_append_right, hnone, Option.map_none]

/-! ## The first part

As long as the pointer is inside the first part, no step can tell that there is a second one. -/

/-- Inside the first part a step is a step of that part, also when it fails. -/
theorem Closed.step_append (h : p.Closed) (q : Program)
    (hlt : s.engine.instructionPointer < p.size) : step (p ++ q) s = p.step s := by
  rw [← Progress.renumbered_id (p.step s)]
  exact step_renumbered (h.mirrors_append_left q hlt)

/-- **The cut.** A run of both parts fails in the first part, as that part does alone, or it comes
to the end of the first part and goes on from there. -/
theorem Closed.ends_append_cases (h : p.Closed) (q : Program)
    (hle : s.engine.instructionPointer ≤ p.size) :
    Ends (p ++ q) s outcome u ↔
      (∃ failure, outcome = .error failure ∧ p.Ends s (.error failure) u) ∨
        ∃ t, p.Ends s (.ok ()) t ∧ Ends (p ++ q) t outcome u := by
  refine ⟨?_, ?_⟩
  · rintro ⟨n, hn⟩
    -- the steps are those of the first part until the pointer comes to its end
    induction n generalizing s with
    | zero => cases hn
    | succ n ih =>
      rcases Nat.eq_or_lt_of_le hle with heq | hlt
      · exact Or.inr ⟨s, ends_of_size_le (Nat.le_of_eq heq.symm), n + 1, hn⟩
      · rw [run_succ, h.step_append q hlt] at hn
        cases hp : p.step s with
        | running t =>
          rw [hp] at hn
          have ht := step_eq_running_iff.mp hp
          simp only [ht.ends_iff]
          exact ih ht.instructionPointer_le.2 hn
        | ended outcome t =>
          rw [hp] at hn
          cases hn
          cases outcome with
          | ok _ => exact absurd (step_eq_ok_iff.mp hp).1 (Nat.not_le_of_lt hlt)
          | error failure => exact Or.inl ⟨failure, rfl, ends_of_step hp⟩
  · rintro (⟨failure, rfl, hends⟩ | ⟨t, hends, hrest⟩)
    · obtain ⟨c, hreach, hlast⟩ := ends_iff_reaches.mp hends
      have hlt := (step_eq_error_iff.mp hlast).1.instructionPointer_lt
      refine ends_iff_reaches.mpr ⟨c, hreach.append q, ?_⟩
      rw [h.step_append q hlt, hlast]
    · exact ((ends_ok_iff.mp hends).1.append q).ends_iff.mpr hrest

/-! ## Both parts

What is left at the cut is the engine of the first run, with its pointer at the end of the first
part. -/

/-- A machine at the end of the first part is one at the beginning of the second, further on. A run
from the beginning of a program ends well at the end of it, so the place is known. -/
theorem ends_ok_eq_renumbered {tape : Tape w} {mp : Addr} {k : κ}
    (h : p.Ends ⟨⟨tape, mp, 0⟩, k⟩ (.ok ()) t) :
    t = Config.renumbered (p.size + ·) ⟨t.engine.rewind, t.console⟩ := by
  have hmax := (ends_ok_iff.mp h).2
  have hsize : t.engine.instructionPointer = p.size := hmax.trans (Nat.zero_max _)
  obtain ⟨⟨tape', mp', ip⟩, k'⟩ := t
  cases hsize
  rfl

/-- **In turn.** Let every bracket that the first program opens be closed in it. A run of both, one
after the other as one program, ends exactly if the first fails when it is run alone, or if it comes
to its end and the second ends when it is run from its beginning on the machine that is left. In the
second case the positions are those of the second program, counted from the end of the first.

The console can be any, so also one that keeps a list of what it is asked. -/
theorem ends_append_iff_in_turn (h : p.Closed) (q : Program) (tape : Tape w) (mp : Addr) (k : κ)
    (outcome : Outcome) (u : Config κ w) :
    Ends (p ++ q) ⟨⟨tape, mp, 0⟩, k⟩ outcome u ↔
      (∃ failure, outcome = .error failure ∧ p.Ends ⟨⟨tape, mp, 0⟩, k⟩ (.error failure) u) ∨
        ∃ t, p.Ends ⟨⟨tape, mp, 0⟩, k⟩ (.ok ()) t ∧
          ∃ outcome' u', q.Ends ⟨t.engine.rewind, t.console⟩ outcome' u' ∧
            outcome = outcome'.renumbered (p.size + ·) ∧ u = u'.renumbered (p.size + ·) := by
  rw [h.ends_append_cases q (Nat.zero_le _)]
  refine or_congr_right (exists_congr fun t => and_congr_right fun hends => ?_)
  have hbehind : Ends (p ++ q) (Config.renumbered (p.size + ·) ⟨t.engine.rewind, t.console⟩)
      outcome u ↔ _ :=
    ends_renumbered_iff fun pos => Or.inl (h.mirrors_append_right q pos)
  rwa [← ends_ok_eq_renumbered hends] at hbehind

/-- `][x]+` and `]`. The first leaves a one, so that the loop of the second would have to be run
again; it has no beginning, although the first part has a `]` too many itself. -/
theorem ends_append_iff_in_turn_unmatchedBracket :
    Closed #[93, 91, 120, 93, 43] ∧
      Ends (#[93, 91, 120, 93, 43] ++ #[93])
        (⟨Engine.initial, ⟨⟨[]⟩, .empty⟩⟩ : Config (Queue 8 × Collector 8) 8)
        (.error (.unmatchedBracket ⟨5, .backward⟩))
        ⟨⟨Tape.blank.set 0 (Tape.blank.get 0 + 1), 0, 5⟩, ⟨⟨[]⟩, .empty⟩⟩ := by
  have hclosed : Closed #[93, 91, 120, 93, 43] := by decide
  refine ⟨hclosed, ?_⟩
  have hone : (Tape.blank.set 0 (Tape.blank.get 0 + 1) : Tape 8).get 0 ≠ 0 := by
    rw [Tape.get_set_self, Tape.get_blank]
    decide
  have hpartner : partner? #[93, 91, 120, 93, 43] 1 = some 3 := by decide
  refine (ends_append_iff_in_turn hclosed #[93] Tape.blank 0 _ _ _).mpr
    (Or.inr ⟨⟨⟨Tape.blank.set 0 (Tape.blank.get 0 + 1), 0, 5⟩, ⟨⟨[]⟩, .empty⟩⟩, ?_,
      .error (.unmatchedBracket ⟨0, .backward⟩), _,
      Fails.ends (.unopened (by decide) hone (by decide)), rfl, rfl⟩)
  rw [(Completes.leave (by decide) (Tape.get_blank 0)).ends_iff,
    (Completes.skip (by decide) (Tape.get_blank 0) hpartner).ends_iff,
    (Completes.increment (by decide)).ends_iff]
  exact ends_of_size_le (by decide)

end TapeMachine.Program
