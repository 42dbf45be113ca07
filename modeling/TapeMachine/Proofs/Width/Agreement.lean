import Mathlib.Algebra.Group.Nat.Defs
import TapeMachine.Proofs.Engine.Image
import TapeMachine.Proofs.Width.Narrow

/-!
# Machines of different widths that agree

A machine does the same with fewer bits in a cell, for as long as no bracket can tell. A bracket
tests whether a cell is zero, and the result changes if only the lowest bits of the cell are;
`Engine.TestSurvives` says that this does not happen.

The lowest bits are an image of the machine (`Image.narrowing`), and a state fits it if the next
test survives. So a run in which every test survives commutes with narrowing
(`Program.run_narrowed`). For machines that are built from settings and that talk in bytes this is
`Machine.recordedRun_narrowed`.

Only brackets are asked about, and only those that the run comes to. A cell of the wide machine may
be any multiple of `2 ^ v` at other times: counting, moving, reading and writing go on in the lowest
bits as if there were no others.
-/

namespace TapeMachine

variable {κ κ' : Type} {v w : Nat}

/-! ## What brackets can tell -/

/-- If the next instruction is a bracket, the cell that it tests is zero or no multiple of `2 ^ v`;
so it finds zero in the lowest `v` bits only if it finds zero in all of them. -/
def Engine.TestSurvives (p : Program) (v : Nat) (e : Engine w) : Prop :=
  p.instruction? e.instructionPointer = some .beginLoop ∨
      p.instruction? e.instructionPointer = some .endLoop →
    e.currentCell = 0 ∨ ¬ 2 ^ v ∣ e.currentCell.toNat

/-- A cell that a test survives is zero exactly if its lowest bits are. -/
theorem Cell.setWidth_eq_zero_iff {c : Cell w} (h : c = 0 ∨ ¬ 2 ^ v ∣ c.toNat) :
    c.setWidth v = 0 ↔ c = 0 := by
  refine ⟨?_, ?_⟩
  · intro hzero
    refine h.resolve_right (not_not_intro ?_)
    rw [Nat.dvd_iff_mod_eq_zero, ← BitVec.toNat_setWidth, hzero]
    rfl
  · rintro rfl
    simp

/-- The state with narrow cells, and with the console that goes with them. -/
def Config.narrowed (v : Nat) (φ : κ → κ') (s : Config κ w) : Config κ' v :=
  ⟨s.engine.narrowed v, φ s.console⟩

/-! ## Runs -/

/-- Wide cells seen through their lowest `v` bits. -/
def Image.narrowing (v w : Nat) (φ : κ → κ') : Image κ κ' w v :=
  ⟨Tape.narrowed v, id, BitVec.setWidth v, φ, id⟩

section Narrowing

variable {φ : κ → κ'} {p : Program} {s : Config κ w}

/-- A test that survives has the same result with narrow cells. Nothing else about a state has to be
checked. -/
theorem Engine.TestSurvives.fits (h : s.engine.TestSurvives p v) :
    (Image.narrowing v w φ).Fits p s where
  get := Tape.get_narrowed _ _
  set := fun c => Tape.narrowed_set _ _ c
  zero := fun hbracket => Cell.setWidth_eq_zero_iff (h hbracket)

variable [Console κ w] [Console κ' v]

/-- Narrowing is lawful: counting is arithmetic modulo a power of two, and a smaller power divides
the larger one. -/
theorem Image.lawful_narrowing (hvw : v ≤ w) (hφ : Console.Narrows v w φ) :
    (Image.narrowing v w φ).Lawful where
  isStraight := fun _ => rfl
  other := fun _ _ => rfl
  counted := fun i c => by
    cases i with
    | increment => exact Cell.setWidth_add_one hvw c
    | decrement => exact Cell.setWidth_sub_one hvw c
    | _ => rfl
  moved := fun _ _ => rfl
  flush := hφ.flush
  read := hφ.read
  write := hφ.write

/-- **Many steps.** For as long as all tests survive, it makes no difference whether cells are
narrowed before a run or after it. -/
theorem Program.run_narrowed (hvw : v ≤ w) (hφ : Console.Narrows v w φ) {n : Nat}
    (htests : ∀ m < n, ∀ t, p.run m s = .running t → t.engine.TestSurvives p v) :
    p.run n (s.narrowed v φ) = (p.run n s).map (Config.narrowed v φ) :=
  Image.run_config (Image.lawful_narrowing hvw hφ) (Image.depicts_self _ rfl p)
    fun m hm t hrun => (htests m hm t hrun).fits

end Narrowing

/-! ## Machines -/

namespace Machine

variable {v w : WordSize}

/-- A run of a machine that talks in bytes, with a list of what it asked for. -/
def recordedRun (m : Machine) (p : Program) (steps : Nat) (io : CommandLine.Reader × ByteWriter) :
    Progress (Machine × Recorder (CommandLine.Reader × ByteWriter) m.size.bits) :=
  m.run p steps (Recorder.start io)

/-- Two machines with blank tapes agree for as long as every test survives. A blank tape is narrowed
to a blank tape. -/
theorem recordedRun_of_testSurvives {p : Program} {mp : Addr} {ip n : Nat}
    {io : CommandLine.Reader × ByteWriter} (hvw : v.bits < w.bits)
    (htests : ∀ m < n, ∀ t k,
      recordedRun ⟨w, ⟨Tape.blank, mp, ip⟩⟩ p m io = .running (t, k) →
        t.engine.TestSurvives p v.bits) :
    recordedRun ⟨v, ⟨Tape.blank, mp, ip⟩⟩ p n io =
      (recordedRun ⟨w, ⟨Tape.blank, mp, ip⟩⟩ p n io).map
        fun s => (s.1.narrowed v, s.2.narrowed v.bits) := by
  -- the console is of bytes, which fit into the narrow cells as well
  have hbytes := (CommandLine.Reader.narrows v.eight_le_bits (Nat.le_of_lt hvw)).recorder
  have hstart : (⟨⟨Tape.blank, mp, ip⟩, .start io⟩ : Config (Recorder _ v.bits) v.bits) =
      Config.narrowed v.bits (Recorder.narrowed v.bits)
        (⟨⟨Tape.blank, mp, ip⟩, .start io⟩ : Config (Recorder _ w.bits) w.bits) := by
    rw [Config.narrowed, Engine.narrowed, Tape.narrowed_blank, Recorder.narrowed_start]
  have hrun := Program.run_narrowed (p := p) (n := n) (Nat.le_of_lt hvw) hbytes
    (s := ⟨⟨Tape.blank, mp, ip⟩, .start io⟩) fun m hm t hrun => htests m hm ⟨w, t.engine⟩ t.console
      (by rw [recordedRun, run, hrun]; rfl)
  rw [recordedRun, run, recordedRun, run, hstart, hrun, Progress.map_map, Progress.map_map]
  rfl

/-- **Narrow and wide machines.** Two machines are built from settings that differ in the width. For
as long as every bracket executed by the wide one tests a cell that is zero or not divisible by
`2 ^ v`, the narrow one does the same in every step: its state is that of the wide one, with the
same pointers and with every cell reduced modulo `2 ^ v`, and it asks for the same things.

So one run ends if the other does, in the same way, with the same bytes written and with the same
bytes not yet read. -/
theorem recordedRun_narrowed (p : Program) (mp : Addr) (ip : Nat) (hvw : v.bits < w.bits)
    (io : CommandLine.Reader × ByteWriter) :
    ∃ wide narrow : Machine,
      ofSettings ⟨.unsigned w, mp, ip⟩ = .ok wide ∧
      ofSettings ⟨.unsigned v, mp, ip⟩ = .ok narrow ∧
      ∀ n, (∀ m < n, ∀ t k, wide.recordedRun p m io = .running (t, k) →
          t.engine.TestSurvives p v.bits) →
        narrow.recordedRun p n io =
            (wide.recordedRun p n io).map (fun s => (s.1.narrowed v, s.2.narrowed _)) ∧
          ∀ outcome io',
            (∃ t calls, wide.recordedRun p n io = .ended outcome (t, ⟨io', calls⟩)) ↔
              ∃ t calls, narrow.recordedRun p n io = .ended outcome (t, ⟨io', calls⟩) := by
  refine ⟨⟨w, ⟨Tape.blank, mp, ip⟩⟩, ⟨v, ⟨Tape.blank, mp, ip⟩⟩, rfl, rfl, ?_⟩
  intro n htests
  have hagree := recordedRun_of_testSurvives hvw htests
  refine ⟨hagree, fun outcome io' => ⟨?_, ?_⟩⟩
  · rintro ⟨t, calls, hwide⟩
    rw [hagree, hwide]
    exact ⟨_, _, rfl⟩
  · rintro ⟨t, calls, hnarrow⟩
    rw [hagree, Progress.map_eq_ended_iff] at hnarrow
    obtain ⟨⟨t', k'⟩, hwide, heq⟩ := hnarrow
    cases heq
    exact ⟨t', k'.calls, hwide⟩

/-- Counting down from zero gives the largest cell. In a machine of sixteen bits a loop is entered
on it, as 65535 is no multiple of 256, and its lowest byte is written; so a machine of bytes enters
the loop and writes that byte too. -/
theorem recordedRun_narrowed_largest :
    ∃ wide narrow : Machine,
      ofSettings ⟨.unsigned .half, 0, 0⟩ = .ok wide ∧
      ofSettings ⟨.unsigned .byte, 0, 0⟩ = .ok narrow ∧
      WordSize.byte.bits < WordSize.half.bits ∧
      (∀ m < 4, ∀ t k,
        wide.recordedRun #[45, 91, 46] m (.bytes ⟨[]⟩, .reliable) = .running (t, k) →
          t.engine.TestSurvives #[45, 91, 46] WordSize.byte.bits) ∧
      ∃ t calls, narrow.recordedRun #[45, 91, 46] 4 (.bytes ⟨[]⟩, .reliable) =
        .ended (.ok ()) (t, ⟨(.bytes ⟨[]⟩, ⟨#[255], [], []⟩), calls⟩) := by
  have hbits : WordSize.byte.bits < WordSize.half.bits := by decide
  obtain ⟨wide, narrow, hwide, hnarrow, h⟩ :=
    recordedRun_narrowed #[45, 91, 46] 0 0 hbits (.bytes ⟨[]⟩, .reliable)
  cases hwide
  cases hnarrow
  let tape : Tape WordSize.half.bits := Tape.blank.set 0 (Tape.blank.get 0 - 1)
  let start : Recorder (CommandLine.Reader × ByteWriter) WordSize.half.bits :=
    .start (.bytes ⟨[]⟩, .reliable)
  let stop : Recorder (CommandLine.Reader × ByteWriter) WordSize.half.bits :=
    ⟨(.bytes ⟨[]⟩, ⟨#[255], [], []⟩), #[.write (tape.get 0) (.ok ())]⟩
  have hcell : tape.get 0 = 65535#16 := by
    rw [Tape.get_set_self, Tape.get_blank]
    rfl
  have hnonzero : tape.get 0 ≠ 0 := by
    rw [hcell]
    exact (by decide : 65535#16 ≠ 0)
  have hdown : Program.Completes #[45, 91, 46] ⟨⟨Tape.blank, 0, 0⟩, start⟩ ⟨⟨tape, 0, 1⟩, start⟩ :=
    .decrement (by decide)
  have henter : Program.Completes #[45, 91, 46] ⟨⟨tape, 0, 1⟩, start⟩ ⟨⟨tape, 0, 2⟩, start⟩ :=
    .enter (by decide) hnonzero
  have hwrite : Console.write (tape.get 0) start = (.ok (), stop) := by
    have hbyte : (tape.get 0).lowByte = 255 := by
      rw [hcell]
      decide
    simp [start, stop, Recorder.start, Console.write, Sink.write, ByteWriter.write,
      ByteWriter.reliable, WriteEvent.resolve, hbyte]
  have houtput : Program.Completes #[45, 91, 46] ⟨⟨tape, 0, 2⟩, start⟩ ⟨⟨tape, 0, 3⟩, stop⟩ :=
    .output (by decide) hwrite
  have htests : ∀ m < 4, ∀ t k,
      recordedRun ⟨.half, ⟨Tape.blank, 0, 0⟩⟩ #[45, 91, 46] m (.bytes ⟨[]⟩, .reliable) =
        .running (t, k) → t.engine.TestSurvives #[45, 91, 46] WordSize.byte.bits := by
    intro m hm t k hrun
    rw [recordedRun, run] at hrun
    obtain rfl | rfl | rfl | rfl : m = 0 ∨ m = 1 ∨ m = 2 ∨ m = 3 := by omega
    · cases hrun
      exact fun hbracket => absurd hbracket (by decide)
    · rw [hdown.run_succ] at hrun
      cases hrun
      refine fun _ => Or.inr ?_
      change ¬ 2 ^ 8 ∣ (tape.get 0).toNat
      rw [hcell]
      decide
    · rw [hdown.run_succ, henter.run_succ] at hrun
      cases hrun
      exact fun hbracket => absurd hbracket (by decide)
    · rw [hdown.run_succ, henter.run_succ, houtput.run_succ] at hrun
      cases hrun
      exact fun hbracket => absurd hbracket (by decide)
  have hrun : Program.run #[45, 91, 46] 4 ⟨⟨Tape.blank, 0, 0⟩, start⟩ =
      .ended (.ok ()) ⟨⟨tape, 0, 3⟩, stop⟩ := by
    rw [hdown.run_succ, henter.run_succ, houtput.run_succ, Program.run_succ,
      Program.step_of_size_le (by decide)]
  refine ⟨_, _, rfl, rfl, hbits, htests, ((h 4 htests).2 _ _).mp
    ⟨⟨.half, ⟨tape, 0, 3⟩⟩, stop.calls, ?_⟩⟩
  rw [recordedRun, run]
  exact congrArg (Progress.map _) hrun

end Machine

end TapeMachine
