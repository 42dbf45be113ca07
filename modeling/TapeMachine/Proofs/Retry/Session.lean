import TapeMachine.Proofs.Console.Follow

/-!
# Running again after the console has failed

A run that ends because the console did not answer can be taken up again: the engine stands at the
instruction that failed. `Program.EndsAfter` is what comes out of running the program again and
again, with whatever engine and console there are, for as long as the console is what fails.

Compare a console that sometimes fails with one that does not. If every failed request leaves
everything as it was, except that there are fewer failures to come (`Console.Recovers`), then failed
runs do no harm: what one run with the console that never fails ends with is found after running
again at most as often as there are failures (`Ends.exists_endsAfter`).

The run that never fails is the guide of the induction, one step at a time. While the console in
question fails, the guide stands still, and an inner induction on the failures to come keeps account
of that. When it answers, both take the step. An input that has flushed and then cannot read is
tried again from the flush; that this does no harm is the only thing asked of the console that never
fails (`Console.Recovers.flush_eq`).
-/

namespace TapeMachine

variable {κ : Type} {w : Nat}

namespace Program

variable [Console κ w] {p : Program} {s t u : Config κ w} {outcome outcome' : Outcome}
  {m n : Nat}

/-! ## Many runs

An engine that a run has left stands at the instruction that failed, so to run again is to take up
that instruction. Nothing is rewound. -/

/-- The program is run, and then again on the engine and the console that are left for as long as
the console failed. The number counts the times that it was run again. -/
inductive EndsAfter (p : Program) : Config κ w → (reruns : Nat) → Outcome → Config κ w → Prop where
  /-- a run ends otherwise than by a failure of the console -/
  | last {s t : Config κ w} {outcome : Outcome} (ends : p.Ends s outcome t)
      (answered : ∀ f, outcome ≠ .error (.console f)) : EndsAfter p s 0 outcome t
  /-- the console fails, and the program is run again -/
  | again {s t u : Config κ w} {f : Fault} {reruns : Nat} {outcome : Outcome}
      (ends : p.Ends s (.error (.console f)) t) (rest : EndsAfter p t reruns outcome u) :
      EndsAfter p s (reruns + 1) outcome u

/-- A completed instruction makes no difference: the first run is longer by one step. -/
theorem Completes.endsAfter (h : p.Completes s t) (hends : p.EndsAfter t n outcome u) :
    p.EndsAfter s n outcome u := by
  cases hends with
  | last ends answered => exact .last (h.ends_iff.mpr ends) answered
  | again ends rest => exact .again (h.ends_iff.mpr ends) rest

end Program

/-! ## Consoles that recover

Two consoles are compared at a time: one that fails now and then, and what it would be if it did
not. A failed request must leave the first as good as before, and must be one of finitely many. -/

/-- The answer `a` of a console `k` next to the answer `b` of a console `l`: both answer alike, or
`k` fails and is as good as `l` was before, with fewer failures to come. -/
inductive Answers {α : Type} (failures : κ → Nat) (R : κ → κ → Prop) (k l : κ) :
    (a b : Except Fault α × κ) → Prop where
  | alike {x : α} {k' l' : κ} (related : R k' l') (le : failures k' ≤ failures k) :
      Answers failures R k l (.ok x, k') (.ok x, l')
  | fails {f : Fault} {k' : κ} {b : Except Fault α × κ} (related : R k' l)
      (lt : failures k' < failures k) : Answers failures R k l (.error f, k') b

section Answers

variable {α ι ο : Type} {failures : κ → Nat} {R : κ → κ → Prop} {k k' l : κ} {x : α} {f : Fault}
  {b : Except Fault α × κ}

theorem Answers.of_ok (h : Answers failures R k l (.ok x, k') b) :
    ∃ l', b = (.ok x, l') ∧ R k' l' ∧ failures k' ≤ failures k := by
  cases h with
  | alike related le => exact ⟨_, rfl, related, le⟩

theorem Answers.of_error (h : Answers failures R k l (.error f, k') b) :
    R k' l ∧ failures k' < failures k := by
  cases h with
  | fails related lt => exact ⟨related, lt⟩

/-- With no failures to come, both answer alike. -/
theorem Answers.of_sound {a : Except Fault α × κ} (h : Answers failures R k l a b)
    (hsound : failures k = 0) :
    ∃ x k' l', a = (.ok x, k') ∧ b = (.ok x, l') ∧ R k' l' ∧ failures k' = 0 := by
  cases h with
  | alike related le => exact ⟨_, _, _, rfl, rfl, related, Nat.le_zero.mp (hsound ▸ le)⟩
  | fails related lt => exact absurd (hsound ▸ lt) (Nat.not_lt_zero _)

/-- While one answers, the other answers alike, and the failures do not become more. In this form
the consoles follow one another. -/
theorem Answers.matched {a b : Except Fault α × κ} {n : Nat} (h : Answers failures R k l a b)
    (hle : failures k ≤ n) : Matched (fun k l => R k l ∧ failures k ≤ n) a b := by
  rintro x k' rfl
  obtain ⟨l', hl', hrel, hle'⟩ := h.of_ok
  exact ⟨l', hl', hrel, Nat.le_trans hle' hle⟩

variable {failuresι : ι → Nat} {failuresο : ο → Nat} {Rι : ι → ι → Prop} {Rο : ο → ο → Prop}
  {i j : ι} {o q : ο}

/-- The answers of a source do not depend on the sink next to it. -/
theorem Answers.pair_left {a b : Except Fault α × ι} (h : Answers failuresι Rι i j a b)
    (ho : Rο o q) :
    Answers (fun k : ι × ο => failuresι k.1 + failuresο k.2) (fun k l => Rι k.1 l.1 ∧ Rο k.2 l.2)
      (i, o) (j, q) (a.1, a.2, o) (b.1, b.2, q) := by
  cases h with
  | alike related le => exact .alike ⟨related, ho⟩ (Nat.add_le_add_right le _)
  | fails related lt => exact .fails ⟨related, ho⟩ (Nat.add_lt_add_right lt _)

/-- The answers of a sink do not depend on the source next to it. -/
theorem Answers.pair_right {a b : Except Fault α × ο} (h : Answers failuresο Rο o q a b)
    (hi : Rι i j) :
    Answers (fun k : ι × ο => failuresι k.1 + failuresο k.2) (fun k l => Rι k.1 l.1 ∧ Rο k.2 l.2)
      (i, o) (j, q) (a.1, i, a.2) (b.1, j, b.2) := by
  cases h with
  | alike related le => exact .alike ⟨hi, related⟩ (Nat.add_le_add_left le _)
  | fails related lt => exact .fails ⟨hi, related⟩ (Nat.add_lt_add_left lt _)

end Answers

/-- Consoles that fail at times, next to consoles that do not: if `R k l`, then `l` is what `k`
would be without failures, and it stays so. -/
structure Console.Recovers (w : Nat) [Console κ w] (failures : κ → Nat) (R : κ → κ → Prop) :
    Prop where
  flush : ∀ {k l}, R k l → Answers failures R k l (Console.flush w k) (Console.flush w l)
  read : ∀ {k l}, R k l → Answers failures R k l (Console.read (w := w) k) (Console.read l)
  write : ∀ (c : Cell w) {k l}, R k l →
    Answers failures R k l (Console.write c k) (Console.write c l)
  /-- with a console that does not fail, flushing changes nothing -/
  flush_eq : ∀ {k l}, R k l → Console.flush w l = (.ok (), l)

/-- What a console would be without failures follows it, for as long as it answers. -/
theorem Console.Recovers.follows [Console κ w] {failures : κ → Nat} {R : κ → κ → Prop}
    (hR : Console.Recovers w failures R) (n : Nat) :
    Console.Follows w fun k l => R k l ∧ failures k ≤ n where
  flush := fun h => (hR.flush h.1).matched h.2
  read := fun h => (hR.read h.1).matched h.2
  write := fun c _ _ h => (hR.write c h.1).matched h.2

/-- A source and a sink that recover are a console that does. The failures to come are those of
both. -/
theorem Console.recovers_of_pair {ι ο : Type} [Source ι w] [Sink ο w] {failuresι : ι → Nat}
    {failuresο : ο → Nat} {Rι : ι → ι → Prop} {Rο : ο → ο → Prop}
    (read : ∀ {i j}, Rι i j → Answers failuresι Rι i j (Source.read (w := w) i) (Source.read j))
    (write : ∀ (c : Cell w) {o q}, Rο o q →
      Answers failuresο Rο o q (Sink.write c o) (Sink.write c q))
    (flush : ∀ {o q}, Rο o q → Answers failuresο Rο o q (Sink.flush w o) (Sink.flush w q))
    (flush_eq : ∀ {o q}, Rο o q → Sink.flush w q = (.ok (), q)) :
    Console.Recovers w (fun k : ι × ο => failuresι k.1 + failuresο k.2)
      fun k l => Rι k.1 l.1 ∧ Rο k.2 l.2 where
  flush := fun h => (flush h.2).pair_right h.1
  read := fun h => (read h.1).pair_left h.2
  write := fun c _ _ h => (write c h.2).pair_right h.1
  flush_eq := fun {_ l} h => by
    have hl := flush_eq h.2
    simp [Console.flush, hl]

namespace Program

variable [Console κ w] {failures : κ → Nat} {R : κ → κ → Prop} {p : Program} {e : Engine w}
  {k k' l : κ} {t u : Config κ w} {failure : Failure} {outcome : Outcome} {n : Nat}

/-! ## One step -/

/-- What fails with a console that recovers fails with the other one, or it is the console that
fails, and there are fewer failures to come. -/
theorem Fails.recovers (hR : Console.Recovers w failures R) (h : R k l)
    (hf : p.Fails ⟨e, k⟩ failure k') :
    (∃ bracket, failure = .unmatchedBracket bracket ∧ k' = k ∧ p.Fails ⟨e, l⟩ failure l) ∨
      ∃ f, failure = .console f ∧ R k' l ∧ failures k' < failures k := by
  cases hf with
  | unclosed instr zero partner => exact Or.inl ⟨_, rfl, rfl, .unclosed instr zero partner⟩
  | unopened instr nonzero partner => exact Or.inl ⟨_, rfl, rfl, .unopened instr nonzero partner⟩
  | flush instr flush =>
    have hflush := hR.flush h
    rw [flush] at hflush
    exact Or.inr ⟨_, rfl, hflush.of_error⟩
  | read instr flush read =>
    -- the flush has been granted already, and will be once more when the input is tried again
    have hflush := hR.flush h
    rw [flush, hR.flush_eq h] at hflush
    obtain ⟨l₁, hl₁, hrel₁, hle₁⟩ := hflush.of_ok
    cases hl₁
    have hread := hR.read hrel₁
    rw [read] at hread
    obtain ⟨hrel, hlt⟩ := hread.of_error
    exact Or.inr ⟨_, rfl, hrel, Nat.lt_of_lt_of_le hlt hle₁⟩
  | @write tape mp ip k k' f instr write =>
    have hwrite := hR.write (tape.get mp) h
    rw [write] at hwrite
    exact Or.inr ⟨_, rfl, hwrite.of_error⟩

/-! ## Runs -/

theorem exists_endsAfter_of_run (hR : Console.Recovers w failures R) (h : R k l)
    (hrun : p.run n ⟨e, l⟩ = .ended outcome u) :
    ∃ m t, p.EndsAfter ⟨e, k⟩ m outcome t ∧ m + failures t.console ≤ failures k ∧
      t.engine = u.engine ∧ R t.console u.console := by
  induction n generalizing e k l with
  | zero => cases hrun
  | succ n ih =>
    -- while the console fails the other run stands still, and there are fewer failures to come
    induction hc : failures k using Nat.strongRecOn generalizing k with
    | ind c ihc =>
      subst hc
      obtain ⟨t, ht, -⟩ | ⟨failure, k', hf, -⟩ | ⟨hge, heq⟩ := step_cases p ⟨e, k⟩
      · obtain ⟨l', hl', hrel, hle⟩ := ht.followed (hR.follows _) ⟨h, Nat.le_refl _⟩
        rw [hl'.run_succ] at hrun
        obtain ⟨m, u', hends, hm, hengine, hconsole⟩ := ih hrel hrun
        exact ⟨m, u', ht.endsAfter hends, Nat.le_trans hm hle, hengine, hconsole⟩
      · obtain ⟨bracket, rfl, rfl, hl⟩ | ⟨f, rfl, hrel, hlt⟩ := hf.recovers hR h
        · rw [run_succ, hl.step] at hrun
          cases hrun
          exact ⟨0, _, .last hf.ends (by simp), by simp, rfl, h⟩
        · obtain ⟨m, t, hends, hm, hstate⟩ := ihc (failures k') hlt hrel rfl
          exact ⟨m + 1, t, .again hf.ends hends, by omega, hstate⟩
      · rw [run_succ, step_of_size_le_instructionPointer (s := ⟨e, l⟩) hge] at hrun
        cases hrun
        exact ⟨0, ⟨e, k⟩, .last (ends_of_step heq) (by simp), by simp, rfl, h⟩

/-- **Failures do no harm.** What a run with a console that does not fail ends with is found by
running again, at most as often as there are failures, with the console that recovers from them. -/
theorem Ends.exists_endsAfter (hR : Console.Recovers w failures R) (h : R k l)
    (hends : p.Ends ⟨e, l⟩ outcome u) :
    ∃ m t, p.EndsAfter ⟨e, k⟩ m outcome t ∧ m + failures t.console ≤ failures k ∧
      t.engine = u.engine ∧ R t.console u.console := by
  obtain ⟨n, hn⟩ := hends
  exact exists_endsAfter_of_run hR h hn

/-- **No failures to come.** Then a run does not end because the console has failed: a request that
fails would use one up. -/
theorem Ends.ne_console_of_sound (hR : Console.Recovers w failures R) (h : R k l)
    (hsound : failures k = 0) (hends : p.Ends ⟨e, k⟩ outcome u) (f : Fault) :
    outcome ≠ .error (.console f) := by
  have hle : R k l ∧ failures k ≤ 0 := ⟨h, Nat.le_of_eq hsound⟩
  obtain ⟨hanswered, -⟩ | ⟨f', k', l', -, hf, -, hrel, hle'⟩ :=
    hends.followed_cases (hR.follows 0) hle
  · exact hanswered f
  · obtain ⟨bracket, hbracket, -⟩ | ⟨-, -, -, hlt⟩ := hf.recovers hR hrel
    · cases hbracket
    · exact absurd (Nat.lt_of_lt_of_le hlt hle') (Nat.not_lt_zero _)

end Program

end TapeMachine
