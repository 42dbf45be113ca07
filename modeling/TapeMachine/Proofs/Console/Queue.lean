import TapeMachine.Input
import TapeMachine.Output
import TapeMachine.Proofs.Console.Follow

/-!
# Input in pieces

A run does not know how much there is in a queue before it has found it empty. So more cells behind
a queue are followed by more cells left over (`follows_extended`), and nothing else is different,
unless the run has ended because the queue was empty.

In that case it has stopped at the input that found it so. Running again with the missing cells goes
on from there, and this is how the run with all of them goes on from there, too. So it makes no
difference whether the input is supplied in pieces or at once (`ends_supplied_in_pieces`).

Two facts are behind this. An input that fails leaves the engine as it was, so it can be tried
again; and an empty queue is asked without anything being lost (`Fails.of_queue`).
-/

namespace TapeMachine

variable {w : Nat}

/-- An engine that reads from a queue of cells and writes to a collector. -/
def Engine.supplied (e : Engine w) (cells : List (Cell w)) (out : Collector w) :
    Config (Queue w × Collector w) w :=
  ⟨e, ⟨cells⟩, out⟩

namespace Program

variable {p : Program} {e : Engine w} {a : List (Cell w)} {out : Collector w} {f : Fault}
  {k k' : Queue w × Collector w} {u : Config (Queue w × Collector w) w} {outcome : Outcome}

/-- The second queue has the given cells in addition, behind all others. The collectors are the
same. -/
def Extended (b : List (Cell w)) (k l : Queue w × Collector w) : Prop :=
  l = (⟨k.1.cells ++ b⟩, k.2)

/-- A longer queue answers as a shorter one does while that is not empty: both give their first cell
and keep the rest, with the others still behind. -/
theorem follows_extended (b : List (Cell w)) : Console.Follows w (Extended b) where
  flush := by
    rintro k l rfl x k' ⟨⟩
    exact ⟨_, rfl, rfl⟩
  read := by
    rintro ⟨⟨_ | ⟨c, cells⟩⟩, out⟩ l rfl x k' hread
    · cases hread
    · cases hread
      exact ⟨_, rfl, rfl⟩
  write := by
    rintro c k l rfl x k' ⟨⟩
    exact ⟨_, rfl, rfl⟩

/-- The console fails only because the queue is empty, and nothing changes. A collector takes
everything and there is nothing in it to flush. -/
theorem Fails.of_queue (h : p.Fails ⟨e, k⟩ (.console f) k') :
    f = .inputExhausted ∧ k.1.cells = [] ∧ k' = k := by
  cases h with
  | flush instr flush => cases flush
  | write instr write => cases write
  | read instr flush read =>
    cases flush
    obtain ⟨⟨_ | ⟨c, cells⟩⟩, out⟩ := k
    · cases read
      exact ⟨rfl, rfl, rfl⟩
    · cases read

/-- A run that does not find the queue empty ends in the same way with a longer queue. What it has
not read it leaves there, followed by what has been added. -/
theorem Ends.extended (b : List (Cell w)) (h : p.Ends (e.supplied a out) outcome u)
    (hanswered : ∀ f, outcome ≠ .error (.console f)) :
    p.Ends (e.supplied (a ++ b) out) outcome
      (u.engine.supplied (u.console.1.cells ++ b) u.console.2) := by
  obtain ⟨-, l, hends, rfl⟩ | ⟨f, -, -, hfailed, -⟩ := h.followed_cases (follows_extended b) rfl
  · exact hends
  · exact absurd hfailed (hanswered f)

/-- **In pieces or at once.** A run takes its input from a queue. If it ends without having found
the queue empty, then it ends in the same way with more cells in the queue, and leaves them there
behind the others.

If it ends because the queue was empty, then the queue is empty now. Running the program again on
the engine that is left, with a second queue and the same output, ends exactly if the run with both
queues as one ends, with the same outcome and in the same state. -/
theorem ends_supplied_in_pieces (p : Program) (e : Engine w) (a b : List (Cell w))
    (out : Collector w) (outcome : Outcome) (u : Config (Queue w × Collector w) w) :
    p.Ends (e.supplied a out) outcome u →
      match outcome with
      | .ok () | .error (.unmatchedBracket _) =>
        p.Ends (e.supplied (a ++ b) out) outcome
          (u.engine.supplied (u.console.1.cells ++ b) u.console.2)
      | .error (.console f) =>
        f = .inputExhausted ∧ u.console.1.cells = [] ∧
          ∀ outcome' v, p.Ends (u.engine.supplied b u.console.2) outcome' v ↔
            p.Ends (e.supplied (a ++ b) out) outcome' v := by
  intro h
  obtain ⟨hanswered, -⟩ | ⟨f, k, l, rfl, hf, hreach, rfl⟩ :=
    h.followed_cases (follows_extended b) rfl
  · -- the console has answered everything
    cases outcome with
    | ok _ => exact h.extended b hanswered
    | error failure =>
      cases failure with
      | unmatchedBracket bracket => exact h.extended b hanswered
      | console f => exact absurd rfl (hanswered f)
  · obtain ⟨rfl, hempty, hk⟩ := hf.of_queue
    refine ⟨rfl, by rw [hk, hempty], fun outcome' v => ?_⟩
    -- the run with both queues comes to the same input, with the second queue left
    rw [hempty, List.nil_append, ← hk] at hreach
    exact hreach.ends_iff.symm

/-- `,,.` reads twice. With a five in the queue it stops at the second input; with a seven for the
rest it goes on from there and writes the seven, and so it does with both in one queue. -/
theorem ends_supplied_in_pieces_twice :
    Ends #[44, 44, 46] (Engine.supplied (.initial : Engine 8) [5] .empty)
        (.error (.console .inputExhausted))
        (Engine.supplied ⟨Tape.blank.set 0 5, 0, 1⟩ [] .empty) ∧
      Ends #[44, 44, 46] (Engine.supplied (.initial : Engine 8) ([5] ++ [7]) .empty) (.ok ())
        (Engine.supplied ⟨(Tape.blank.set 0 5).set 0 7, 0, 3⟩ [] ⟨#[7]⟩) := by
  have hread : Completes #[44, 44, 46] (Engine.supplied (.initial : Engine 8) [5] .empty)
      (Engine.supplied ⟨Tape.blank.set 0 5, 0, 1⟩ [] .empty) := .input (by decide) rfl rfl
  have hempty : Fails #[44, 44, 46] (Engine.supplied (⟨Tape.blank.set 0 5, 0, 1⟩ : Engine 8) []
      .empty) (.console .inputExhausted) (⟨[]⟩, .empty) := .read (by decide) rfl rfl
  have hagain : Completes #[44, 44, 46]
      (Engine.supplied (⟨Tape.blank.set 0 5, 0, 1⟩ : Engine 8) [7] .empty)
      (Engine.supplied ⟨(Tape.blank.set 0 5).set 0 7, 0, 2⟩ [] .empty) :=
    .input (by decide) rfl rfl
  have hwrite : Completes #[44, 44, 46]
      (Engine.supplied (⟨(Tape.blank.set 0 5).set 0 7, 0, 2⟩ : Engine 8) [] .empty)
      (Engine.supplied ⟨(Tape.blank.set 0 5).set 0 7, 0, 3⟩ [] ⟨#[7]⟩) :=
    .output (by decide) (by rw [Tape.get_set_self]; rfl)
  have hfirst := hread.ends_iff.mpr hempty.ends
  have hrest := hagain.ends_iff.mpr (hwrite.ends_iff.mpr (ends_of_size_le (by decide)))
  obtain ⟨-, -, hwhole⟩ := ends_supplied_in_pieces _ _ [5] [7] _ _ _ hfirst
  exact ⟨hfirst, (hwhole _ _).mp hrest⟩

end Program

end TapeMachine
