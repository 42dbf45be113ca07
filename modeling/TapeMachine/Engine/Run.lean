import TapeMachine.Engine.Step

/-!
# Runs

A run takes steps until one of them ends it. Steps are counted, because a program need not end.

* `Program.run` — at most so many steps, ending early when a step ends the run;
* `Program.Ends` — the run ends, after some number of steps, with the given outcome and state.

The number of steps is a bound and not a part of the result. A run that has ended is not changed by
more steps (`run_of_le`), so an ending is unique (`Ends.unique`), and steps can be taken in
instalments (`run_add`). That a run has no ending is said with `Ends` too: two machines that have
the same endings also go on for ever together.
-/

namespace TapeMachine

namespace Program

variable {κ : Type} {w : Nat}

/-- At most `steps` bytes of the program. -/
@[specialize] def run [Console κ w] (p : Program) :
    (steps : Nat) → Config κ w → Progress (Config κ w)
  | 0, s => .running s
  | steps + 1, s =>
    match step p s with
    | .running s => run p steps s
    | .ended outcome s => .ended outcome s

/-- The run of a program ends, after some number of steps, with the given outcome and state. How
many steps it takes is left open, since a changed program may take more or fewer. -/
def Ends [Console κ w] (p : Program) (s : Config κ w) (outcome : Outcome) (t : Config κ w) : Prop :=
  ∃ steps, run p steps s = .ended outcome t

/-! ## Many steps -/

section Run

variable [Console κ w] {p : Program} {s t u : Config κ w} {outcome outcome' : Outcome}

@[simp] theorem run_zero : run p 0 s = .running s := rfl

theorem run_succ (steps : Nat) :
    run p (steps + 1) s =
      match step p s with
      | .running t => run p steps t
      | .ended outcome t => .ended outcome t := rfl

/-- **Instalments.** Steps can be taken in two parts, the second from where the first left off. If
the first part has ended the run, the second changes nothing. -/
theorem run_add (m n : Nat) :
    run p (m + n) s =
      match run p m s with
      | .running t => run p n t
      | .ended outcome t => .ended outcome t := by
  -- on the first part, whose steps come first
  induction m generalizing s with
  | zero => simp
  | succ m ih =>
    rw [Nat.add_right_comm, run_succ, run_succ]
    split
    · exact ih
    · rfl

/-- A run that has ended is not changed by more steps. -/
theorem run_of_le {m n : Nat} (hle : m ≤ n) (h : run p m s = .ended outcome t) :
    run p n s = .ended outcome t := by
  obtain ⟨d, rfl⟩ := Nat.exists_eq_add_of_le hle
  simp [run_add, h]

/-- A run that ends does so after its first step, so it ends alike from states whose first step is
the same. -/
theorem run_congr {n : Nat} (hstep : step p s = step p t) (h : run p n s = .ended outcome u) :
    run p n t = .ended outcome u := by
  cases n with
  | zero => cases h
  | succ n => rwa [run_succ, hstep] at h

/-- Endings only depend on the first step: what differs before it, such as the name of the
instruction that leads to it, does not count. -/
theorem ends_congr (hstep : step p s = step p t) : Ends p s outcome u ↔ Ends p t outcome u := by
  refine ⟨?_, ?_⟩
  · rintro ⟨n, hn⟩
    exact ⟨n, run_congr hstep hn⟩
  · rintro ⟨n, hn⟩
    exact ⟨n, run_congr hstep.symm hn⟩

theorem ends_of_step (h : step p s = .ended outcome t) : Ends p s outcome t :=
  ⟨1, by rw [run_succ, h]⟩

/-- A run has at most one ending. Two numbers of steps that end it can be raised to the same one. -/
theorem Ends.unique (h : Ends p s outcome t) (h' : Ends p s outcome' u) :
    outcome = outcome' ∧ t = u := by
  obtain ⟨m, hm⟩ := h
  obtain ⟨n, hn⟩ := h'
  have := (run_of_le (Nat.le_max_left m n) hm).symm.trans (run_of_le (Nat.le_max_right m n) hn)
  cases this
  exact ⟨rfl, rfl⟩

/-- **Going on.** A run ends in the same way from every state it has come to. From here on steps are
hardly counted any more. -/
theorem ends_iff_of_run {steps : Nat} (h : run p steps s = .running t) :
    Ends p s outcome u ↔ Ends p t outcome u := by
  refine ⟨?_, ?_⟩
  · rintro ⟨n, hn⟩
    refine ⟨n, ?_⟩
    have := run_of_le (Nat.le_add_left n steps) hn
    rwa [run_add, h] at this
  · rintro ⟨n, hn⟩
    exact ⟨steps + n, by rw [run_add, h]; exact hn⟩

end Run

end Program

end TapeMachine
