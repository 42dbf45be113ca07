import TapeMachine.Machine
import TapeMachine.Proofs.Counting.Scan
import TapeMachine.Proofs.Engine.Ending

/-!
# Runs in machine words

A program whose length has no more than 63 bits runs in words of 64 bits as it runs in numbers of
any size, from every state that words can describe.

* `Counting.view` — what a state in words means;
* `Program.JumpDue` — the current cell calls for the partner of the bracket at the instruction
  pointer;
* `Counting.InRange` — the bounds that the numbers of a run keep to, those of its scans included.
  A scan is what a step does if a jump is due (`Counting.step_of_jumpDue`), and no step scans
  otherwise: it does not look at any other byte of the program
  (`Counting.step_congr_of_not_jumpDue`).

A step looks for a partner only from a bracket of the program, so there is room for its scan. It
ends one behind a byte of the program, so there is room for the next position as well
(`Counting.Sound.map_step`). From this comes the main result, `Counting.run_inRange`: no number is
too large for a word and none is negative, no index is outside of the tape, and no scan goes on for
ever. So it makes no difference what comes after the largest word.
-/

namespace TapeMachine

namespace Progress

variable {σ τ : Type} {f : σ → τ}

/-- The state that a run has come to, whether it is over or not. -/
def state : Progress σ → σ
  | running s => s
  | ended _ s => s

@[simp] theorem state_map (f : σ → τ) (progress : Progress σ) :
    (progress.map f).state = f progress.state := by
  cases progress with
  | running s => rfl
  | ended outcome s => rfl

theorem map_injective (hf : Function.Injective f) :
    Function.Injective (map f : Progress σ → Progress τ) := by
  intro progress progress' h
  cases progress with
  | running s =>
    cases progress' with
    | running t => exact congrArg running (hf (running.inj h))
    | ended outcome t => cases h
  | ended outcome s =>
    cases progress' with
    | running t => cases h
    | ended outcome' t =>
      obtain ⟨rfl, hst⟩ := ended.inj h
      exact congrArg (ended outcome) (hf hst)

end Progress

namespace Program

variable {p : Program} {d : Direction} {start pos : Nat}

/-- A partner is a byte of the program. So the position behind it is no further than its end. -/
theorem matchIn_lt_size (h : p.matchIn d start = .ok pos) : pos < p.size := by
  cases d with
  | forward => exact lt_size_of_instruction? (closeFrom_eq_some (matchForward_eq_ok_iff.mp h)).2
  | backward => exact lt_size_of_instruction? (openBefore_eq_some (matchBackward_eq_ok_iff.mp h)).2

variable {κ : Type} {w : Nat} {s : Config κ w}

/-- No run goes further than to the end of the program, unless it begins there. A state in words may
well do so: its pointer can be any word. -/
theorem instructionPointer_run_le [Console κ w] (p : Program) (n : Nat) (s : Config κ w) :
    (p.run n s).state.engine.instructionPointer ≤ max s.engine.instructionPointer p.size := by
  obtain ⟨t, hreach, hengine⟩ : ∃ t, p.Reaches s t ∧ (p.run n s).state.engine = t.engine := by
    cases h : p.run n s with
    | running t => exact ⟨t, reaches_of_run h, rfl⟩
    | ended outcome t =>
      obtain ⟨c, hreach, hlast⟩ := ends_iff_reaches.mp ⟨n, h⟩
      exact ⟨c, hreach, engine_of_step_eq_ended hlast⟩
  rw [hengine]
  obtain rfl | ⟨-, hle⟩ := hreach.eq_or_le
  · exact Nat.le_max_left _ _
  · exact Nat.le_trans hle (Nat.le_max_right _ _)

/-- A jump is due: the current cell calls for the partner of the bracket at the instruction
pointer, which is to be looked for in a direction. -/
def JumpDue (p : Program) (d : Direction) (s : Config κ w) : Prop :=
  p.instruction? s.engine.instructionPointer = some d.entry ∧
    (s.engine.currentCell = 0 ↔ d = .forward)

theorem JumpDue.lt_size (h : p.JumpDue d s) : s.engine.instructionPointer < p.size :=
  lt_size_of_instruction? h.1

end Program

namespace Counting

variable {ν κ : Type} {w : Nat} {a : Counting ν} {p : Program}

/-- The state with its positions as numbers. -/
def view (a : Counting ν) (s : State ν κ w) : Config κ w :=
  ⟨⟨s.tape, s.memoryPointer, a.value s.instructionPointer⟩, s.console⟩

@[simp] theorem view_mk (a : Counting ν) (tape : Tape w) (mp : Addr) (ip : ν) (k : κ) :
    a.view ⟨tape, mp, ip, k⟩ = ⟨⟨tape, mp, a.value ip⟩, k⟩ := rfl

theorem view_injective (ha : Function.Injective a.value) :
    Function.Injective (a.view : State ν κ w → Config κ w) := by
  rintro ⟨tape, mp, ip, k⟩ ⟨tape', mp', ip', k'⟩ h
  rw [view_mk, view_mk, Config.mk.injEq, Engine.mk.injEq] at h
  obtain ⟨⟨rfl, rfl, hip⟩, rfl⟩ := h
  rw [ha hip]

/-- If a jump is due, it is what the next step does. So the bounds on the scan of that jump are
bounds on what the step counts. -/
theorem step_of_jumpDue [Console κ w] {d : Direction} {s : State ν κ w}
    (h : p.JumpDue d (a.view s)) : a.step p s = a.jump d p s := by
  obtain ⟨tape, mp, ip, k⟩ := s
  rw [view_mk] at h
  obtain ⟨hbracket, hcell⟩ := h
  obtain ⟨b, hb, hi⟩ := Program.exists_byte_of_instruction? hbracket
  dsimp only at hb
  cases d with
  | forward =>
    have hzero : tape.get mp = 0 := hcell.mpr rfl
    simp [step, hb, hi, hzero, Direction.entry]
  | backward =>
    have hnonzero : tape.get mp ≠ 0#w := fun hzero => absurd (hcell.mp hzero) (by decide)
    simp [step, hb, hi, hnonzero, Direction.entry]

/-- If none is due, no byte matters to the next step but the one at the instruction pointer. -/
theorem step_congr_of_not_jumpDue [Console κ w] {q : Program} {s : State ν κ w}
    (h : ∀ d, ¬ p.JumpDue d (a.view s))
    (hbyte : q[a.value s.instructionPointer]? = p[a.value s.instructionPointer]?) :
    a.step q s = a.step p s := by
  obtain ⟨tape, mp, ip, k⟩ := s
  dsimp only at hbyte
  -- only a bracket could look at another byte, and here its cell does not call for a partner
  cases hb : p[a.value ip]? with
  | none => simp [step, hbyte, hb]
  | some b =>
    cases hi : Instruction.ofByte? b with
    | none => simp [step, hbyte, hb, hi]
    | some i =>
      have hbracket : p.instruction? (a.value ip) = some i := by
        simp [Program.instruction?, hb, hi]
      cases i with
      | beginLoop =>
        have hnonzero : tape.get mp ≠ 0#w := fun hzero =>
          h .forward ⟨hbracket, fun _ => rfl, fun _ => hzero⟩
        simp [step, hbyte, hb, hi, hnonzero]
      | endLoop =>
        have hzero : tape.get mp = 0 := by
          by_contra hnonzero
          exact h .backward ⟨hbracket, fun hzero => absurd hzero hnonzero,
            fun hback => absurd hback (by decide)⟩
        simp [step, hbyte, hb, hi, hzero]
      | increment | decrement | right | left | input | output => simp only [step, hbyte, hb, hi]

theorem Sound.map_completed (ha : a.Sound) {position : ν} (h : a.value position + 1 < 2 ^ 64)
    (tape : Tape w) (mp : Addr) (k : κ) :
    (a.completed tape mp position k).map (Progress.map a.view) =
      some (.completed tape mp (a.value position) k) := by
  obtain ⟨m, hm, hvalue⟩ := ha.exists_succ h
  rw [completed, hm, Progress.completed, ← hvalue]
  rfl

section Step

variable (ha : a.Sound) (hp : p.size < 2 ^ 63)
include ha hp

/-- A jump leads behind the partner that is found in numbers, or fails as it does there. A scan
begins at a byte of the program here, as its bounds need. -/
theorem Sound.map_jump (d : Direction) {s : State ν κ w}
    (hs : a.value s.instructionPointer < p.size) :
    (a.jump d p s).map (Progress.map a.view) =
      some (match p.matchIn d (a.value s.instructionPointer) with
        | .ok position => .completed s.tape s.memoryPointer position s.console
        | .error e =>
          .failed s.tape s.memoryPointer (a.value s.instructionPointer) s.console
            (.unmatchedBracket e)) := by
  obtain ⟨answer, hanswer, hvalue⟩ := Option.map_eq_some_iff.mp (ha.map_partner hp hs d)
  rw [jump, hanswer, ← hvalue]
  cases answer with
  | ok position =>
    have hlt := Program.matchIn_lt_size hvalue.symm
    exact ha.map_completed (by omega) s.tape s.memoryPointer s.console
  | error e => rfl

/-- **One step** in words is one in numbers. Every byte counts the pointer on from inside the
program, so there is room, and every address is on the tape. -/
theorem Sound.map_step [Console κ w] (s : State ν κ w) :
    (a.step p s).map (Progress.map a.view) = some (p.step (a.view s)) := by
  obtain ⟨tape, mp, ip, k⟩ := s
  rw [view_mk]
  cases hb : p[a.value ip]? with
  | none =>
    simp only [step, Program.step, hb]
    rfl
  | some b =>
    -- wherever the step is completed without a jump, the pointer is counted on by one
    have hlt : a.value ip < p.size := (Array.getElem?_eq_some_iff.mp hb).1
    have hnext (tape : Tape w) (mp : Addr) (k : κ) :
        (a.completed tape mp ip k).map (Progress.map a.view) =
          some (.completed tape mp (a.value ip) k) := ha.map_completed (by omega) tape mp k
    cases hi : Instruction.ofByte? b with
    | none =>
      simp only [step, Program.step, hb, hi]
      exact hnext tape mp k
    | some i =>
      simp only [step, Program.step, hb, hi, Tape.cell?_toNat, Tape.replace?_toNat,
        Option.bind_eq_bind, Option.bind_some]
      cases i with
      | increment => exact hnext (tape.increment mp) mp k
      | decrement => exact hnext (tape.decrement mp) mp k
      | right => exact hnext tape (mp + 1) k
      | left => exact hnext tape (mp - 1) k
      | beginLoop =>
        dsimp only
        split
        · exact ha.map_jump hp .forward (s := ⟨tape, mp, ip, k⟩) hlt
        · exact hnext tape mp k
      | endLoop =>
        dsimp only
        split
        · exact hnext tape mp k
        · exact ha.map_jump hp .backward (s := ⟨tape, mp, ip, k⟩) hlt
      | input =>
        rcases Console.flush w k with ⟨_ | _, k⟩
        · rfl
        · dsimp only
          rcases Console.read (w := w) k with ⟨_ | c, k⟩
          · rfl
          · exact hnext (tape.set mp c) mp k
      | output =>
        rcases Console.write (tape.get mp) k with ⟨_ | _, k⟩
        · rfl
        · exact hnext tape mp k

/-- **Runs** in words are as runs in numbers. No bound has to be carried from step to step, since a
step at the end of the program or behind it counts nothing. -/
theorem Sound.map_run [Console κ w] (n : Nat) (s : State ν κ w) :
    (a.run p n s).map (Progress.map a.view) = some (p.run n (a.view s)) := by
  induction n generalizing s with
  | zero => rfl
  | succ n ih =>
    obtain ⟨progress, hprogress, hview⟩ := Option.map_eq_some_iff.mp (ha.map_step hp s)
    rw [run, Program.run_succ, hprogress, ← hview]
    cases progress with
    | running t => exact ih t
    | ended outcome t => rfl

end Step

/-! ## The bounds

A run that gives an answer in words that stop has not left their range. The bounds say more: how far
inside it the numbers stay. -/

/-- The numbers of a state are within their bounds, and so are those of the scan that the next step
makes from there, if it makes one. -/
structure InRange (a : Counting ν) [Console κ w] (p : Program) (start : Nat) (t : State ν κ w) :
    Prop where
  /-- the run has come no further than to the end of the program, unless it began there -/
  instructionPointer_le : a.value t.instructionPointer ≤ max start p.size
  /-- the current cell is on the tape -/
  memoryPointer_lt : t.memoryPointer.toNat < t.tape.toCells.size
  /-- if a jump is due, the next step is that jump, with its scan -/
  step_eq_jump {d : Direction} (hdue : p.JumpDue d (a.view t)) : a.step p t = a.jump d p t
  /-- if none is due, the next step makes no scan: only the byte at the instruction pointer matters
  to it, whatever the rest of the program -/
  step_congr (hnone : ∀ d, ¬ p.JumpDue d (a.view t)) {q : Program}
    (hbyte : q[a.value t.instructionPointer]? = p[a.value t.instructionPointer]?) :
    a.step q t = a.step p t
  /-- a scan begins inside the program -/
  start_lt {d : Direction} (hdue : p.JumpDue d (a.view t)) : a.value t.instructionPointer < p.size
  /-- it stays there -/
  position_lt {d : Direction} (hdue : p.JumpDue d (a.view t)) {s : Scan ν}
    (hs : a.Visits d p t.instructionPointer s) : a.value s.position < p.size
  /-- it is in no more loops than the program has bytes -/
  depth_le {d : Direction} (hdue : p.JumpDue d (a.view t)) {s : Scan ν}
    (hs : a.Visits d p t.instructionPointer s) : a.value s.depth ≤ p.size

/-- Counting right, a run keeps to the bounds. Those of the state come from the run in numbers, and
those of a scan from where it begins. -/
theorem Sound.exists_run (ha : a.Sound) (hp : p.size < 2 ^ 63) [Console κ w] (n : Nat)
    (s : State ν κ w) :
    ∃ progress, a.run p n s = some progress ∧ progress.map a.view = p.run n (a.view s) ∧
      InRange a p (a.value s.instructionPointer) progress.state := by
  obtain ⟨progress, hrun, hview⟩ := Option.map_eq_some_iff.mp (ha.map_run hp n s)
  have hpointer := p.instructionPointer_run_le n (a.view s)
  rw [← hview, Progress.state_map] at hpointer
  refine ⟨progress, hrun, hview, ?_⟩
  exact {
    instructionPointer_le := hpointer
    memoryPointer_lt := by
      rw [Tape.size_toCells]
      exact progress.state.memoryPointer.toNat_lt
    step_eq_jump := step_of_jumpDue
    step_congr := fun hnone _ => step_congr_of_not_jumpDue hnone
    start_lt := fun hdue => hdue.lt_size
    position_lt := fun hdue _ hs => (ha.walked_of_visits hp hdue.lt_size hs).position_lt
    depth_le := fun hdue _ hs =>
      (ha.walked_of_visits hp hdue.lt_size hs).depth_le_size hdue.lt_size }

/-- **In range.** A program whose length has no more than 63 bits runs in words of 64 bits as in
numbers of any size, for any number of steps and from any state. Nothing is counted beyond the
largest word or below zero, and no cell outside of the tape is asked for, because `checked` would
stop there; so `wrapping` has the same runs. In whatever state the run is, the next step scans only
if a jump is due, and then from a byte of the program, within the program, and in no more loops than
the program has bytes. -/
theorem run_inRange {p : Program} (hp : p.size < 2 ^ 63) [Console κ w] (n : Nat)
    (s : State UInt64 κ w) :
    ∃ progress, checked.run p n s = some progress ∧ wrapping.run p n s = some progress ∧
      progress.map wrapping.view = p.run n (wrapping.view s) ∧
      InRange wrapping p s.instructionPointer.toNat progress.state := by
  obtain ⟨progress, hrun, hview, hrange⟩ := sound_wrapping.exists_run hp n s
  obtain ⟨progress', hrun', hview', -⟩ := sound_checked.exists_run hp n s
  -- both runs are seen as the same run in numbers, and words are told apart by their numbers
  have hinjective : Function.Injective (wrapping.view : State UInt64 κ w → Config κ w) :=
    view_injective fun m n h => UInt64.toNat_inj.mp h
  obtain rfl := Progress.map_injective hinjective (hview'.trans hview.symm)
  exact ⟨progress', hrun', hrun, hview, hrange⟩

/-- `[[]]` on a zero cell is skipped in one step. -/
theorem run_inRange_skip :
    (#[91, 91, 93, 93] : Program).size < 2 ^ 63 ∧
      ∃ progress,
        checked.run #[91, 91, 93, 93] 1
            (⟨Tape.blank, 0, 0, ⟨⟨[]⟩, .empty⟩⟩ : State UInt64 (Queue 8 × Collector 8) 8) =
          some progress ∧
        wrapping.run #[91, 91, 93, 93] 1
            (⟨Tape.blank, 0, 0, ⟨⟨[]⟩, .empty⟩⟩ : State UInt64 (Queue 8 × Collector 8) 8) =
          some progress ∧
        progress.map wrapping.view = .running ⟨⟨Tape.blank, 0, 4⟩, ⟨⟨[]⟩, .empty⟩⟩ ∧
        InRange wrapping #[91, 91, 93, 93] 0 progress.state := by
  have hskip : Program.Completes #[91, 91, 93, 93]
      (⟨Engine.initial, ⟨⟨[]⟩, .empty⟩⟩ : Config (Queue 8 × Collector 8) 8)
      ⟨⟨Tape.blank, 0, 4⟩, ⟨⟨[]⟩, .empty⟩⟩ := .skip (by decide) (Tape.get_blank 0) (by decide)
  obtain ⟨progress, hchecked, hwrapping, hview, hrange⟩ :=
    run_inRange (p := #[91, 91, 93, 93]) (by decide) 1
      (⟨Tape.blank, 0, 0, ⟨⟨[]⟩, .empty⟩⟩ : State UInt64 (Queue 8 × Collector 8) 8)
  exact ⟨by decide, progress, hchecked, hwrapping, hview.trans (hskip.run_succ 0), hrange⟩

end Counting

end TapeMachine
