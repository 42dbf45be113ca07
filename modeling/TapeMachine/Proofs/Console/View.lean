import Mathlib.Logic.Function.Iterate
import TapeMachine.Proofs.Console.Alike

/-!
# Sources seen through a view

Often the answers of a source do not depend on all of its state, but on a view of it: for a stream,
on what arrives and not on how it is cut. `Source.SeenThrough` says what is answered to a view, and
what the view is after a read.

A source shows only what it answers, so a view has to be enough to tell this and the view after it.
What else the source keeps, such as where a chunk ends, is then of no account.

* Then the answers to many reads are read off the view (`SeenThrough.readMany_eq`).
* No run can tell sources apart that look the same, be it in one view or in two that are answered
  in the same way (`SeenThrough.run_alike`, `SeenThrough.run_alike_of_views`).
-/

namespace TapeMachine

/-- The answer to a read is a function of the view, and so is the view after it. -/
structure Source.SeenThrough {ι τ : Type} {w : Nat} [Source ι w] (view : ι → τ)
    (answer : τ → Except Fault (Cell w)) (rest : τ → τ) : Prop where
  /-- what is answered -/
  answer_eq : ∀ i, (Source.read i).1 = answer (view i)
  /-- what is left -/
  rest_eq : ∀ i, view (Source.read (w := w) i).2 = rest (view i)

namespace Source.SeenThrough

variable {ι ι' ο τ : Type} {w : Nat} [Source ι w] [Source ι' w] {view : ι → τ} {view' : ι' → τ}
  {answer : τ → Except Fault (Cell w)} {rest : τ → τ} {i : ι} {j : ι'}

theorem of_read
    (h : ∀ i, ∃ i', Source.read i = (answer (view i), i') ∧ view i' = rest (view i)) :
    SeenThrough view answer rest where
  answer_eq := by
    intro i
    obtain ⟨i', hread, -⟩ := h i
    rw [hread]
  rest_eq := by
    intro i
    obtain ⟨i', hread, hrest⟩ := h i
    rw [hread, hrest]

/-- **Many reads.** Each read is answered from what the reads before it have left. -/
theorem readMany_eq (h : SeenThrough view answer rest) (n : Nat) (i : ι) :
    (Source.readMany n i).1 = (List.range n).map (fun m => answer (rest^[m] (view i))) ∧
      view (Source.readMany (w := w) n i).2 = rest^[n] (view i) := by
  -- the first read leaves the others a view that is one `rest` further on
  induction n generalizing i with
  | zero => exact ⟨rfl, rfl⟩
  | succ n ih =>
    obtain ⟨hanswers, hleft⟩ := ih (Source.read (w := w) i).2
    rw [h.rest_eq] at hanswers hleft
    refine ⟨?_, hleft⟩
    rw [List.range_succ_eq_map, List.map_cons, List.map_map]
    exact congrArg₂ List.cons (h.answer_eq i) hanswers

/-- Sources that look the same in two views answer alike, and go on looking the same, if it is
answered to both views in the same way. -/
theorem answeredAlike (h : SeenThrough view answer rest) (h' : SeenThrough view' answer rest)
    (hij : view i = view' j) :
    AnsweredAlike (fun i j => view i = view' j) (Source.read (w := w) i) (Source.read j) where
  answer := by rw [h.answer_eq, h'.answer_eq, hij]
  related := by rw [h.rest_eq, h'.rest_eq, hij]

/-- **Runs.** Two sources that look the same make no difference to a run, next to one and the same
sink. They need not be of the same kind. -/
theorem run_alike_of_views [Sink ο w] (h : SeenThrough view answer rest)
    (h' : SeenThrough view' answer rest) (hij : view i = view' j) (p : Program) (e : Engine w)
    (o : ο) (n : Nat) :
    Progress.Alike (fun k l => view k.1 = view' l.1 ∧ k.2 = l.2) (p.run n ⟨e, (i, o)⟩)
      (p.run n ⟨e, (j, o)⟩) := by
  have hR : Console.Alike w fun (k : ι × ο) (l : ι' × ο) => view k.1 = view' l.1 ∧ k.2 = l.2 := by
    refine Console.alike_of_pair (fun i j => view i = view' j) Eq (h.answeredAlike h') ?_ ?_
    · rintro c o _ rfl
      exact ⟨rfl, rfl⟩
    · rintro o _ rfl
      exact ⟨rfl, rfl⟩
  exact Program.run_alike (k := (i, o)) (l := (j, o)) hR ⟨hij, rfl⟩ p e n

/-- In particular, two that look the same in one view. -/
theorem run_alike [Sink ο w] {i j : ι} (h : SeenThrough view answer rest) (hij : view i = view j)
    (p : Program) (e : Engine w) (o : ο) (n : Nat) :
    Progress.Alike (fun k l => view k.1 = view l.1 ∧ k.2 = l.2) (p.run n ⟨e, (i, o)⟩)
      (p.run n ⟨e, (j, o)⟩) :=
  h.run_alike_of_views h hij p e o n

end Source.SeenThrough

end TapeMachine
