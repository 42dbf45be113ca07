import TapeMachine.Proofs.Engine.Ending

/-!
# Consoles that follow one another

One console follows another if it answers as that one does for as long as that one answers at all
(`Console.Follows`). What it does when the other one fails is left open.

So a run with the one console is followed by a run with the other, step by step (`run_followed`). If
the first run ends, the second ends in the same way, or it comes to the instruction for which the
first console has failed (`Ends.followed_cases`).

The relation between the consoles is a parameter. It says what has to be kept up from one request to
the next, like an invariant of two runs at once: how many cells one queue has more than the other,
or how much of a stream has been taken. Following goes in one direction, so it can be used where the
second console can do more than the first.
-/

namespace TapeMachine

variable {κ κ' : Type} {w : Nat}

/-- The answer `b` is as good as the answer `a`, unless `a` is a fault; the consoles are related
afterwards. -/
def Matched {α : Type} (R : κ → κ' → Prop) (a : Except Fault α × κ) (b : Except Fault α × κ') :
    Prop :=
  ∀ x k, a = (.ok x, k) → ∃ l, b = (.ok x, l) ∧ R k l

/-- Requests that are granted by a console are granted by the related one, with the same answer. A
request that the first console does not grant says nothing about the second. -/
structure Console.Follows (w : Nat) [Console κ w] [Console κ' w] (R : κ → κ' → Prop) : Prop where
  flush : ∀ {k l}, R k l → Matched R (Console.flush w k) (Console.flush w l)
  read : ∀ {k l}, R k l → Matched R (Console.read (w := w) k) (Console.read l)
  write : ∀ (c : Cell w) {k l}, R k l → Matched R (Console.write c k) (Console.write c l)

namespace Program

variable [Console κ w] [Console κ' w] {R : κ → κ' → Prop} {p : Program} {e : Engine w} {k : κ}
  {l : κ'} {t u : Config κ w} {outcome : Outcome} {n : Nat}

/-- What is completed with one console is completed with one that follows it. Only input and output
ask for anything; all else is completed with any console. -/
theorem Completes.followed (hR : Console.Follows w R) (h : R k l) (hc : p.Completes ⟨e, k⟩ t) :
    ∃ l', p.Completes ⟨e, l⟩ ⟨t.engine, l'⟩ ∧ R t.console l' := by
  cases hc with
  | comment byte none => exact ⟨l, .comment byte none, h⟩
  | increment instr => exact ⟨l, .increment instr, h⟩
  | decrement instr => exact ⟨l, .decrement instr, h⟩
  | right instr => exact ⟨l, .right instr, h⟩
  | left instr => exact ⟨l, .left instr, h⟩
  | enter instr nonzero => exact ⟨l, .enter instr nonzero, h⟩
  | skip instr zero partner => exact ⟨l, .skip instr zero partner, h⟩
  | leave instr zero => exact ⟨l, .leave instr zero, h⟩
  | again instr nonzero partner => exact ⟨l, .again instr nonzero partner, h⟩
  | input instr flush read =>
    obtain ⟨l₁, hflush, hrel⟩ := hR.flush h _ _ flush
    obtain ⟨l₂, hread, hrel'⟩ := hR.read hrel _ _ read
    exact ⟨l₂, .input instr hflush hread, hrel'⟩
  | @output tape mp ip k k' instr write =>
    obtain ⟨l', hwrite, hrel⟩ := hR.write (tape.get mp) h _ _ write
    exact ⟨l', .output instr hwrite, hrel⟩

/-- A run that goes on is followed by one that goes on, to the same engine. -/
theorem run_followed (hR : Console.Follows w R) (h : R k l) (hrun : p.run n ⟨e, k⟩ = .running t) :
    ∃ l', p.run n ⟨e, l⟩ = .running ⟨t.engine, l'⟩ ∧ R t.console l' := by
  induction n generalizing e k l with
  | zero =>
    cases hrun
    exact ⟨l, rfl, h⟩
  | succ n ih =>
    rw [run_succ] at hrun
    cases hs : p.step ⟨e, k⟩ with
    | running s =>
      rw [hs] at hrun
      obtain ⟨l', hl', hrel⟩ := (step_eq_running_iff.mp hs).followed hR h
      rw [hl'.run_succ]
      exact ih hrel hrun
    | ended outcome s =>
      rw [hs] at hrun
      cases hrun

theorem Reaches.followed (hR : Console.Follows w R) (h : R k l) (hreach : p.Reaches ⟨e, k⟩ t) :
    ∃ l', p.Reaches ⟨e, l⟩ ⟨t.engine, l'⟩ ∧ R t.console l' := by
  obtain ⟨n, hn⟩ := reaches_iff_run.mp hreach
  obtain ⟨l', hl', hrel⟩ := run_followed hR h hn
  exact ⟨l', reaches_of_run hl', hrel⟩

/-- **Endings.** A run that ends is followed by one that ends in the same way, unless its console
has failed. Then the other run has come to the instruction for which it failed. -/
theorem Ends.followed_cases (hR : Console.Follows w R) (h : R k l)
    (hends : p.Ends ⟨e, k⟩ outcome u) :
    ((∀ f, outcome ≠ .error (.console f)) ∧
        ∃ l', p.Ends ⟨e, l⟩ outcome ⟨u.engine, l'⟩ ∧ R u.console l') ∨
      ∃ f k' l', outcome = .error (.console f) ∧ p.Fails ⟨u.engine, k'⟩ (.console f) u.console ∧
        p.Reaches ⟨e, l⟩ ⟨u.engine, l'⟩ ∧ R k' l' := by
  cases outcome with
  | ok _ =>
    obtain ⟨hreach, hmax⟩ := ends_ok_iff.mp hends
    obtain ⟨l', hl', hrel⟩ := hreach.followed hR h
    exact Or.inl ⟨nofun, l', ends_ok_iff.mpr ⟨hl', hmax⟩, hrel⟩
  | error failure =>
    cases failure with
    | console f =>
      obtain ⟨k', hreach, hf⟩ := ends_error_iff.mp hends
      -- the other console may grant what this one has refused, so its run is only followed so far
      obtain ⟨l', hl', hrel⟩ := hreach.followed hR h
      exact Or.inr ⟨f, k', l', rfl, hf, hl', hrel⟩
    | unmatchedBracket bracket =>
      obtain ⟨hreach, hf⟩ := hends.fails_of_unmatchedBracket
      obtain ⟨l', hl', hrel⟩ := hreach.followed hR h
      exact Or.inl ⟨nofun, l', hl'.ends_iff.mpr (hf.of_unmatchedBracket l').ends, hrel⟩

end Program

end TapeMachine
