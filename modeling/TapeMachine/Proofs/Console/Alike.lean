import TapeMachine.Proofs.Console.Follow

/-!
# Consoles that answer alike

Two consoles answer alike if they give the same answers, faults included, for as long as they are
asked the same (`Console.Alike`). A machine cannot tell them apart: after any number of steps, two
runs that differ only in such consoles have come equally far (`run_alike`).

A pair of a source and a sink answers like another pair if the sources do and the sinks do
(`Console.alike_of_pair`).

This is following in both directions (`Console.Alike.follows`), with the failures added: where one
console fails, the other does too, for the same fault. So nothing is left open when a run ends.
-/

namespace TapeMachine

variable {κ κ' ι ι' ο ο' : Type} {w : Nat}

/-- The answers are the same, and the consoles are related afterwards. -/
structure AnsweredAlike {α : Type} (R : κ → κ' → Prop) (a : Except Fault α × κ)
    (b : Except Fault α × κ') : Prop where
  answer : a.1 = b.1
  related : R a.2 b.2

/-- What has been answered by one console has been answered by the other. This is the form in which
the rules of the machine name an answer. -/
theorem AnsweredAlike.of_eq {α : Type} {R : κ → κ' → Prop} {a : Except Fault α × κ}
    {b : Except Fault α × κ'} {x : Except Fault α} {k : κ} (h : AnsweredAlike R a b)
    (ha : a = (x, k)) : ∃ l, b = (x, l) ∧ R k l := by
  subst ha
  exact ⟨b.2, Prod.ext h.answer.symm rfl, h.related⟩

/-- Related consoles answer every request alike. -/
structure Console.Alike (w : Nat) [Console κ w] [Console κ' w] (R : κ → κ' → Prop) : Prop where
  flush : ∀ {k l}, R k l → AnsweredAlike R (Console.flush w k) (Console.flush w l)
  read : ∀ {k l}, R k l → AnsweredAlike R (Console.read (w := w) k) (Console.read l)
  write : ∀ (c : Cell w) {k l}, R k l → AnsweredAlike R (Console.write c k) (Console.write c l)

/-- Sources that answer alike, next to sinks that do. A source is only asked for cells and a sink
only for the rest, so the two relations do not disturb each other. -/
theorem Console.alike_of_pair [Source ι w] [Source ι' w] [Sink ο w] [Sink ο' w]
    (Rι : ι → ι' → Prop) (Rο : ο → ο' → Prop)
    (hread : ∀ {i j}, Rι i j → AnsweredAlike Rι (Source.read (w := w) i) (Source.read j))
    (hwrite : ∀ (c : Cell w) {o q}, Rο o q → AnsweredAlike Rο (Sink.write c o) (Sink.write c q))
    (hflush : ∀ {o q}, Rο o q → AnsweredAlike Rο (Sink.flush w o) (Sink.flush w q)) :
    Console.Alike w fun (k : ι × ο) (l : ι' × ο') => Rι k.1 l.1 ∧ Rο k.2 l.2 where
  flush := fun h => ⟨(hflush h.2).answer, h.1, (hflush h.2).related⟩
  read := fun h => ⟨(hread h.1).answer, (hread h.1).related, h.2⟩
  write := fun c _ _ h => ⟨(hwrite c h.2).answer, h.1, (hwrite c h.2).related⟩

/-- Two runs have come equally far, with the same engine and with related consoles. -/
inductive Progress.Alike (R : κ → κ' → Prop) :
    Progress (Config κ w) → Progress (Config κ' w) → Prop where
  | running {e : Engine w} {k : κ} {l : κ'} (related : R k l) :
      Alike R (.running ⟨e, k⟩) (.running ⟨e, l⟩)
  | ended {outcome : Outcome} {e : Engine w} {k : κ} {l : κ'} (related : R k l) :
      Alike R (.ended outcome ⟨e, k⟩) (.ended outcome ⟨e, l⟩)

variable [Console κ w] [Console κ' w] {R : κ → κ' → Prop}

/-- Consoles that answer alike follow one another, in particular where the answer is no fault. -/
theorem Console.Alike.follows (hR : Console.Alike w R) : Console.Follows w R where
  flush := fun h _ _ => (hR.flush h).of_eq
  read := fun h _ _ => (hR.read h).of_eq
  write := fun c _ _ h _ _ => (hR.write c h).of_eq

namespace Program

variable {p : Program} {e : Engine w} {k k' : κ} {l : κ'} {failure : Failure}

/-- What fails with one console fails with one that answers alike, for the same reason. This is what
following alone does not give. -/
theorem Fails.alike (hR : Console.Alike w R) (h : R k l) (hf : p.Fails ⟨e, k⟩ failure k') :
    ∃ l', p.Fails ⟨e, l⟩ failure l' ∧ R k' l' := by
  cases hf with
  | unclosed instr zero partner => exact ⟨l, .unclosed instr zero partner, h⟩
  | unopened instr nonzero partner => exact ⟨l, .unopened instr nonzero partner, h⟩
  | flush instr flush =>
    obtain ⟨l', hflush, hrel⟩ := (hR.flush h).of_eq flush
    exact ⟨l', .flush instr hflush, hrel⟩
  | read instr flush read =>
    obtain ⟨l₁, hflush, hrel⟩ := (hR.flush h).of_eq flush
    obtain ⟨l₂, hread, hrel'⟩ := (hR.read hrel).of_eq read
    exact ⟨l₂, .read instr hflush hread, hrel'⟩
  | @write tape mp ip k k' f instr write =>
    obtain ⟨l', hwrite, hrel⟩ := (hR.write (tape.get mp) h).of_eq write
    exact ⟨l', .write instr hwrite, hrel⟩

/-- **One step** is the same step with either console. -/
theorem step_alike (hR : Console.Alike w R) (h : R k l) (p : Program) (e : Engine w) :
    Progress.Alike R (p.step ⟨e, k⟩) (p.step ⟨e, l⟩) := by
  obtain ⟨⟨e', k'⟩, ht, heq⟩ | ⟨failure, k', hf, heq⟩ | ⟨hge, heq⟩ := step_cases p ⟨e, k⟩
  · obtain ⟨l', hl', hrel⟩ := ht.followed hR.follows h
    rw [heq, hl'.step]
    exact .running hrel
  · obtain ⟨l', hl', hrel⟩ := hf.alike hR h
    rw [heq, hl'.step]
    exact .ended hrel
  · rw [heq, step_of_size_le_instructionPointer (s := ⟨e, l⟩) hge]
    exact .ended h

/-- **Many steps** are the same steps, so the runs end together or not at all. -/
theorem run_alike (hR : Console.Alike w R) (h : R k l) (p : Program) (e : Engine w) (n : Nat) :
    Progress.Alike R (p.run n ⟨e, k⟩) (p.run n ⟨e, l⟩) := by
  induction n generalizing e k l with
  | zero => exact .running h
  | succ n ih =>
    -- after one step the two are related again, whatever the step was
    have hstep := step_alike hR h p e
    rw [run_succ, run_succ]
    generalize p.step ⟨e, k⟩ = first, p.step ⟨e, l⟩ = second at hstep ⊢
    cases hstep with
    | running related => exact ih related _
    | ended related => exact .ended related

end Program

end TapeMachine
