import TapeMachine.Proofs.Engine.Ending

/-!
# Runs under another numbering

The same instructions can stand elsewhere: behind another program, or closer together because the
comments between them are gone. A numbering `f` says where the positions of a program `p` are found
in a program `q`.

* `Config.renumbered`, `Outcome.renumbered` — states and reports in which every position has been
  taken through `f`;
* `Program.Carries`, `Program.Mirrors` — `q` holds at `f pos` what `p` holds at `pos`, with the same
  partner, and without one if there is none;
* `Program.Echoes` — the same, but what comes behind may stand anywhere;
* `Program.Skips` — `p` holds a comment at `pos`, which `q` leaves out;
* `Program.InStep` — at the places of some states, `q` echoes `p`, and both come back to such a
  place after each instruction.

Whatever the numbering, a completed instruction ends behind itself or behind its partner
(`Completes.exists_landing`). A step from a mirrored position is the same step under the new
numbering (`step_renumbered`). Programs that are in step end their runs in the same way
(`InStep.ends_iff`), and they are if every position is mirrored or skipped (`ends_renumbered_iff`).

The two ways of running need not take the same number of steps, so a simulation step by step will
not do. `InStep` asks less: after an instruction that both have completed, each may take as many
steps as it needs until both are at such a place again. The induction is on the steps that are left,
and `Reaches.exists_run_le` says that they have become fewer.

The numbering need not be injective: the comments that `q` leaves out have the place of what is
behind them. What has to be kept is only what the brackets need, that a partner is found in the new
place of the partner.
-/

namespace TapeMachine

variable {κ : Type} {w : Nat} {f : Nat → Nat}

/-! ## States and reports -/

/-- The report on the bracket at the new position. A bracket is reported where it stands, so the
report changes with the numbering and nothing else in it does. -/
def UnmatchedBracket.renumbered (f : Nat → Nat) (e : UnmatchedBracket) : UnmatchedBracket :=
  { e with position := f e.position }

/-- The failure, with the new position of the bracket. -/
def Failure.renumbered (f : Nat → Nat) : Failure → Failure
  | .unmatchedBracket bracket => .unmatchedBracket (bracket.renumbered f)
  | .console fault => .console fault

/-- The outcome, with the new position of a bracket that it reports. -/
def Outcome.renumbered (f : Nat → Nat) : Outcome → Outcome
  | .ok () => .ok ()
  | .error failure => .error (failure.renumbered f)

/-- The state at the new position; nothing else changes. The tape, the current cell and the console
are those of the state itself. -/
def Config.renumbered (f : Nat → Nat) (s : Config κ w) : Config κ w :=
  ⟨{ s.engine with instructionPointer := f s.engine.instructionPointer }, s.console⟩

/-- The run at its new position. -/
def Progress.renumbered (f : Nat → Nat) : Progress (Config κ w) → Progress (Config κ w)
  | .running s => .running (s.renumbered f)
  | .ended outcome s => .ended (outcome.renumbered f) (s.renumbered f)

@[simp] theorem Progress.renumbered_id (progress : Progress (Config κ w)) :
    progress.renumbered id = progress := by
  rcases progress with s | ⟨(_ | _) | _, s⟩ <;> rfl

namespace Program

variable {p q : Program} {pos other : Nat}

/-! ## What stands where -/

/-- What `p` holds at a position, `q` holds at the new one. -/
structure Carries (p q : Program) (f : Nat → Nat) (pos : Nat) : Prop where
  /-- the same instruction, or a comment in both, or nothing in both -/
  byte : (q[f pos]?).map Instruction.ofByte? = (p[pos]?).map Instruction.ofByte?
  /-- what comes next in `p` comes next in `q` -/
  next : pos < p.size → f (pos + 1) = f pos + 1
  /-- a partner in `p` is the partner in `q`, with the same behind it -/
  partner : ∀ other, p.partner? pos = some other →
    q.partner? (f pos) = some (f other) ∧ f (other + 1) = f other + 1

/-- What `p` holds at a position, `q` holds at the new one, and gives it no other partner. -/
structure Mirrors (p q : Program) (f : Nat → Nat) (pos : Nat) : Prop extends
    Carries p q f pos where
  /-- without a partner in `p` there is none in `q` -/
  alone : p.partner? pos = none → q.partner? (f pos) = none

/-- A comment of `p` has no place of its own in the numbering. `q` need not hold anything for it, so
nothing is asked of `q`. -/
structure Skips (p : Program) (f : Nat → Nat) (pos : Nat) : Prop where
  /-- the byte is a comment -/
  comment : ∃ byte, p[pos]? = some byte ∧ Instruction.ofByte? byte = none
  /-- what comes behind it has the same place -/
  next : f (pos + 1) = f pos

/-- What `p` holds at a position, `q` holds at the new one, with a partner in the new place. What
comes behind the two may stand anywhere. -/
structure Echoes (p q : Program) (f : Nat → Nat) (pos : Nat) : Prop where
  /-- the same instruction, or a comment in both, or nothing in both -/
  byte : (q[f pos]?).map Instruction.ofByte? = (p[pos]?).map Instruction.ofByte?
  /-- a partner in `p` is the partner in `q`, and without one there is none -/
  partner : q.partner? (f pos) = (p.partner? pos).map f

section Byte

variable {i : Instruction}
  (h : (q[f pos]?).map Instruction.ofByte? = (p[pos]?).map Instruction.ofByte?)
include h

/-- The same kind of byte is the same instruction. What is compared is what the bytes mean, since a
comment may be any of the others. -/
theorem instruction?_of_byte (hi : p.instruction? pos = some i) :
    q.instruction? (f pos) = some i := by
  rw [Program.instruction?, Option.bind_eq_some_iff] at hi
  obtain ⟨byte, hbyte, hi⟩ := hi
  rw [hbyte, Option.map_some, hi, Option.map_eq_some_iff] at h
  obtain ⟨byte', hbyte', hi'⟩ := h
  rw [Program.instruction?, hbyte', Option.bind_some, hi']

/-- Where `p` has a comment, `q` has one as well, if perhaps with another byte. -/
theorem comment_of_byte {byte : UInt8} (hb : p[pos]? = some byte)
    (hn : Instruction.ofByte? byte = none) :
    ∃ byte', q[f pos]? = some byte' ∧ Instruction.ofByte? byte' = none := by
  rwa [hb, Option.map_some, hn, Option.map_eq_some_iff] at h

/-- Where there is nothing in `p`, there is nothing in `q`. So the end of `p` is the end of `q`. -/
theorem size_le_of_byte (hge : p.size ≤ pos) : q.size ≤ f pos := by
  rwa [Array.getElem?_eq_none hge, Option.map_none, Option.map_eq_none_iff,
    Array.getElem?_eq_none_iff] at h

end Byte

/-- What is behind a position or behind its partner stays behind it. These are the only two places
at which an instruction can leave the pointer. -/
theorem Carries.next_of_landing {last : Nat} (h : Carries p q f pos) (hlt : pos < p.size)
    (hlast : last = pos ∨ p.partner? pos = some last) : f (last + 1) = f last + 1 := by
  rcases hlast with rfl | hpartner
  · exact h.next hlt
  · exact (h.partner last hpartner).2

/-- Mirroring asks for more than echoing: also where the next byte stands. -/
theorem Mirrors.echoes (h : Mirrors p q f pos) : Echoes p q f pos where
  byte := h.byte
  partner := by
    cases hp : p.partner? pos with
    | none => exact h.alone hp
    | some other => exact (h.partner other hp).1

/-- Behind the ends of both programs there is nothing in either. Positions there are mirrored
whatever the numbering does with them, so that a statement about all positions can be asked for. -/
theorem Mirrors.of_size_le (hp : p.size ≤ pos) (hq : q.size ≤ f pos) : Mirrors p q f pos where
  byte := by rw [Array.getElem?_eq_none hp, Array.getElem?_eq_none hq]
  next := fun hlt => absurd hlt (Nat.not_lt_of_le hp)
  partner := by
    intro other hother
    cases (partner?_of_size_le hp).symm.trans hother
  alone := fun _ => partner?_of_size_le hq

variable [Console κ w] {s t u u' : Config κ w} {failure : Failure} {outcome outcome' : Outcome}
  {k : κ}

/-! ## One step

A step depends on the byte at the pointer and, for a jump, on its partner. If these are found in the
new place, so is the step. -/

/-- **What is completed** in `p` is completed in `q`, wherever the next position is found there. It
is the one behind the instruction, or the one behind its partner if that has been jumped to. -/
theorem Completes.exists_landing (h : p.Completes s t)
    (hbyte : (q[f s.engine.instructionPointer]?).map Instruction.ofByte? =
      (p[s.engine.instructionPointer]?).map Instruction.ofByte?)
    (hpartner : ∀ other, p.partner? s.engine.instructionPointer = some other →
      q.partner? (f s.engine.instructionPointer) = some (f other)) :
    ∃ last, (last = s.engine.instructionPointer ∨
        p.partner? s.engine.instructionPointer = some last) ∧
      t.engine.instructionPointer = last + 1 ∧
      q.Completes (s.renumbered f)
        ⟨{ t.engine with instructionPointer := f last + 1 }, t.console⟩ := by
  -- the two jumps land behind the partner, everything else behind the instruction
  cases h with
  | comment byte none =>
    obtain ⟨byte', hb', hn'⟩ := comment_of_byte hbyte byte none
    exact ⟨_, Or.inl rfl, rfl, .comment hb' hn'⟩
  | increment instr => exact ⟨_, Or.inl rfl, rfl, .increment (instruction?_of_byte hbyte instr)⟩
  | decrement instr => exact ⟨_, Or.inl rfl, rfl, .decrement (instruction?_of_byte hbyte instr)⟩
  | right instr => exact ⟨_, Or.inl rfl, rfl, .right (instruction?_of_byte hbyte instr)⟩
  | left instr => exact ⟨_, Or.inl rfl, rfl, .left (instruction?_of_byte hbyte instr)⟩
  | enter instr nonzero =>
    exact ⟨_, Or.inl rfl, rfl, .enter (instruction?_of_byte hbyte instr) nonzero⟩
  | skip instr zero partner =>
    exact ⟨_, Or.inr partner, rfl,
      .skip (instruction?_of_byte hbyte instr) zero (hpartner _ partner)⟩
  | leave instr zero =>
    exact ⟨_, Or.inl rfl, rfl, .leave (instruction?_of_byte hbyte instr) zero⟩
  | again instr nonzero partner =>
    exact ⟨_, Or.inr partner, rfl,
      .again (instruction?_of_byte hbyte instr) nonzero (hpartner _ partner)⟩
  | input instr flush read =>
    exact ⟨_, Or.inl rfl, rfl, .input (instruction?_of_byte hbyte instr) flush read⟩
  | output instr write =>
    exact ⟨_, Or.inl rfl, rfl, .output (instruction?_of_byte hbyte instr) write⟩

/-- **What is carried** is completed under the new numbering, and leads to the new place of where it
leads. -/
theorem Completes.renumbered (h : p.Completes s t)
    (hc : Carries p q f s.engine.instructionPointer) :
    q.Completes (s.renumbered f) (t.renumbered f) := by
  obtain ⟨last, hlast, hip, hcompletes⟩ :=
    h.exists_landing hc.byte fun other hother => (hc.partner other hother).1
  have hnext := hc.next_of_landing h.instructionPointer_le.1 hlast
  have hplace : t.renumbered f =
      ⟨{ t.engine with instructionPointer := f last + 1 }, t.console⟩ := by
    rw [Config.renumbered, hip, hnext]
  rwa [hplace]

/-- **What fails** in `p` fails in `q`. A bracket only fails there if it has no partner there
either, which `Carries` does not ask for: what stands behind a program may close a bracket of it. -/
theorem Fails.renumbered (h : p.Fails s failure k)
    (hbyte : (q[f s.engine.instructionPointer]?).map Instruction.ofByte? =
      (p[s.engine.instructionPointer]?).map Instruction.ofByte?)
    (halone : p.partner? s.engine.instructionPointer = none →
      q.partner? (f s.engine.instructionPointer) = none) :
    q.Fails (s.renumbered f) (failure.renumbered f) k := by
  cases h with
  | unclosed instr zero partner =>
    exact .unclosed (instruction?_of_byte hbyte instr) zero (halone partner)
  | unopened instr nonzero partner =>
    exact .unopened (instruction?_of_byte hbyte instr) nonzero (halone partner)
  | flush instr flush => exact .flush (instruction?_of_byte hbyte instr) flush
  | read instr flush read => exact .read (instruction?_of_byte hbyte instr) flush read
  | write instr write => exact .write (instruction?_of_byte hbyte instr) write

/-- The end of a run, under the new numbering. There is no next position then, so an echo is enough.
-/
theorem Echoes.step_eq_ended (he : Echoes p q f s.engine.instructionPointer)
    (h : p.step s = .ended outcome u) :
    q.step (s.renumbered f) = .ended (outcome.renumbered f) (u.renumbered f) := by
  obtain ⟨t, -, heq⟩ | ⟨failure, k, hf, heq⟩ | ⟨hge, heq⟩ := step_cases p s
  · cases heq.symm.trans h
  · cases heq.symm.trans h
    exact (hf.renumbered he.byte fun hnone => by rw [he.partner, hnone, Option.map_none]).step
  · cases heq.symm.trans h
    exact step_of_size_le_instructionPointer (size_le_of_byte he.byte hge)

/-- **One step** from a mirrored position is the same step under the new numbering. -/
theorem step_renumbered (hm : Mirrors p q f s.engine.instructionPointer) :
    q.step (s.renumbered f) = (p.step s).renumbered f := by
  obtain ⟨t, ht, heq⟩ | ⟨failure, k, hf, heq⟩ | ⟨hge, heq⟩ := step_cases p s
  · rw [heq]
    exact (ht.renumbered hm.toCarries).step
  · rw [heq]
    exact (hf.renumbered hm.byte hm.alone).step
  · rw [heq]
    exact step_of_size_le_instructionPointer (size_le_of_byte hm.byte hge)

/-- A comment that is skipped leads to a state with the same place. The run of `q` does not notice
it. -/
theorem Skips.exists_completes (h : Skips p f s.engine.instructionPointer) :
    ∃ t, p.Completes s t ∧ t.renumbered f = s.renumbered f ∧
      t.engine.instructionPointer = s.engine.instructionPointer + 1 := by
  obtain ⟨⟨tape, mp, ip⟩, k⟩ := s
  obtain ⟨byte, hb, hn⟩ := h.comment
  refine ⟨_, .comment hb hn, ?_, rfl⟩
  rw [Config.renumbered, Config.renumbered, h.next]

/-! ## Runs -/

/-- **In step.** From the states in `S` the two programs do the same, at places that echo each
other. Where an instruction has led, both come to a state in `S` again, each perhaps by some
more. -/
structure InStep (p q : Program) (f : Nat → Nat) (S : Config κ w → Prop) : Prop where
  /-- both hold the same there -/
  echoes : ∀ {s}, S s → Echoes p q f s.engine.instructionPointer
  /-- and come to such a place again, from behind the instruction or from behind its partner -/
  lands : ∀ {s t last}, S s → p.Completes s t →
    (last = s.engine.instructionPointer ∨
      p.partner? s.engine.instructionPointer = some last) →
    t.engine.instructionPointer = last + 1 →
    ∃ t', p.Reaches t t' ∧ S t' ∧
      q.Reaches ⟨{ t.engine with instructionPointer := f last + 1 }, t.console⟩ (t'.renumbered f)

namespace InStep

variable {S : Config κ w → Prop}

/-- One instruction and what follows it, in both programs, up to the next state in `S`. -/
theorem exists_reaches (h : InStep p q f S) (hs : S s) (ht : p.Completes s t) :
    ∃ t' v, p.Reaches t t' ∧ S t' ∧ q.Completes (s.renumbered f) v ∧
      q.Reaches v (t'.renumbered f) := by
  have he := h.echoes hs
  obtain ⟨last, hlast, hip, hcompletes⟩ := ht.exists_landing he.byte fun other hother => by
    rw [he.partner, hother, Option.map_some]
  obtain ⟨t', hreach, ht', hreach'⟩ := h.lands hs ht hlast hip
  exact ⟨t', _, hreach, ht', hcompletes, hreach'⟩

/-- What ends in `p` ends in `q`. The engine is then as it is in a state in `S`, because a step that
ends a run leaves it alone. -/
theorem ends (h : InStep p q f S) (hs : S s) (hends : p.Ends s outcome u) :
    (∃ v, S v ∧ u.engine = v.engine) ∧
      q.Ends (s.renumbered f) (outcome.renumbered f) (u.renumbered f) := by
  obtain ⟨n, hn⟩ := hends
  -- one step of the induction is as many steps of the run as it takes to come back to `S`
  induction n using Nat.strongRecOn generalizing s with
  | ind n ih =>
    cases n with
    | zero => cases hn
    | succ n =>
      rw [run_succ] at hn
      cases hp : p.step s with
      | running t =>
        rw [hp] at hn
        obtain ⟨t', v, hreach, ht', hcompletes, hreach'⟩ :=
          h.exists_reaches hs (step_eq_running_iff.mp hp)
        obtain ⟨m, hle, hm⟩ := hreach.exists_run_le hn
        obtain ⟨hu, hends⟩ := ih m (Nat.lt_succ_of_le hle) ht' hm
        exact ⟨hu, hcompletes.ends_iff.mpr (hreach'.ends_iff.mpr hends)⟩
      | ended outcome' u' =>
        rw [hp] at hn
        cases hn
        exact ⟨⟨s, hs, engine_of_step_eq_ended hp⟩,
          ends_of_step ((h.echoes hs).step_eq_ended hp)⟩

/-- What ends in `q` ends in `p`. So `p` does not go on for ever where `q` ends, although all that
is assumed is about what `p` does. -/
theorem exists_ends (h : InStep p q f S) (hs : S s)
    (hends : q.Ends (s.renumbered f) outcome' u') :
    ∃ outcome u, p.Ends s outcome u ∧ outcome' = outcome.renumbered f ∧ u' = u.renumbered f := by
  obtain ⟨n, hn⟩ := hends
  -- on the steps of `q`, while the cases follow the step of `p`
  induction n using Nat.strongRecOn generalizing s with
  | ind n ih =>
    cases hp : p.step s with
    | running t =>
      have ht := step_eq_running_iff.mp hp
      obtain ⟨t', v, hreach, ht', hcompletes, hreach'⟩ := h.exists_reaches hs ht
      cases n with
      | zero => cases hn
      | succ n =>
        rw [hcompletes.run_succ] at hn
        obtain ⟨m, hle, hm⟩ := hreach'.exists_run_le hn
        obtain ⟨outcome, u, hends, heq⟩ := ih m (Nat.lt_succ_of_le hle) ht' hm
        exact ⟨outcome, u, ht.ends_iff.mpr (hreach.ends_iff.mpr hends), heq⟩
    | ended outcome u =>
      have hends := ends_of_step ((h.echoes hs).step_eq_ended hp)
      exact ⟨outcome, u, ends_of_step hp, Ends.unique ⟨n, hn⟩ hends⟩

/-- **Runs** of two programs in step end in the same way, and one of them has no ending exactly if
the other has none. -/
theorem ends_iff (h : InStep p q f S) (hs : S s) :
    q.Ends (s.renumbered f) outcome' u' ↔
      ∃ outcome u, p.Ends s outcome u ∧ outcome' = outcome.renumbered f ∧
        u' = u.renumbered f := by
  refine ⟨h.exists_ends hs, ?_⟩
  rintro ⟨outcome, u, hends, rfl, rfl⟩
  exact (h.ends hs hends).2

end InStep

/-- **The end of comments.** Skipping leads to a mirrored position with the same place. -/
theorem exists_reaches_mirrored (h : ∀ pos, Mirrors p q f pos ∨ Skips p f pos) (s : Config κ w) :
    ∃ t, p.Reaches s t ∧ t.renumbered f = s.renumbered f ∧
      Mirrors p q f t.engine.instructionPointer := by
  -- every comment that is skipped brings the end of the program closer
  induction hn : p.size - s.engine.instructionPointer using Nat.strongRecOn generalizing s with
  | ind n ih =>
    rcases h s.engine.instructionPointer with hm | hs
    · exact ⟨s, .refl, rfl, hm⟩
    · obtain ⟨t, ht, hplace, hip⟩ := hs.exists_completes
      have hlt := ht.instructionPointer_le.1
      obtain ⟨t', hreach, hplace', hm⟩ := ih (p.size - t.engine.instructionPointer) (by omega) t rfl
      exact ⟨t', .head ht hreach, hplace'.trans hplace, hm⟩

/-- Programs that differ in comments only are in step at the other positions. -/
theorem inStep_mirrored (h : ∀ pos, Mirrors p q f pos ∨ Skips p f pos) :
    InStep p q f fun s : Config κ w => Mirrors p q f s.engine.instructionPointer where
  echoes := Mirrors.echoes
  lands := by
    intro s t last hm ht hlast hip
    obtain ⟨t', hreach, hplace, hm'⟩ := exists_reaches_mirrored h t
    refine ⟨t', hreach, hm', ?_⟩
    rw [hplace, ← hm.next_of_landing ht.instructionPointer_le.1 hlast, ← hip]
    exact .refl

/-- **Runs** end under the new numbering exactly as they end under the old one. -/
theorem ends_renumbered_iff (h : ∀ pos, Mirrors p q f pos ∨ Skips p f pos) :
    q.Ends (s.renumbered f) outcome' u' ↔
      ∃ outcome u, p.Ends s outcome u ∧ outcome' = outcome.renumbered f ∧
        u' = u.renumbered f := by
  obtain ⟨t, hreach, hplace, hm⟩ := exists_reaches_mirrored h s
  rw [← hplace, (inStep_mirrored h).ends_iff hm]
  simp only [hreach.ends_iff]

end Program

end TapeMachine
