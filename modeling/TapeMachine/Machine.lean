import TapeMachine.Cell.Width
import TapeMachine.Engine.Run
import TapeMachine.Log

/-!
# Machines

An engine whose cell width is chosen while the program runs. Settings name a width and the two
pointers; `Machine.ofSettings` builds the machine with a blank tape, unless the width is signed.

A machine runs exactly as its engine does (`Machine.run`), with two records of the run: one at its
beginning and one at its end, which is a warning when the run failed.

The size of the cells is a field and the type of the engine depends on it, so a machine cannot hold
an engine of another size. Changing the program or the pointers leaves the size alone.
-/

namespace TapeMachine

/-- What a machine is built from. -/
structure Settings where
  /-- the width of the cells -/
  width : CellWidth := .standard
  /-- the address of the first current cell -/
  memoryPointer : Addr := 0
  /-- the position of the first byte to be run -/
  instructionPointer : Nat := 0
deriving DecidableEq

/-- The settings of a machine of bytes with both pointers at zero. -/
def Settings.standard : Settings := {}

/-- An engine together with the size of its cells. -/
structure Machine where
  /-- the size of a cell -/
  size : WordSize
  /-- the engine -/
  engine : Engine size.bits
deriving DecidableEq

/-- Goes on with another form of the state. -/
def Progress.map {σ τ : Type} (f : σ → τ) : Progress σ → Progress τ
  | .running s => .running (f s)
  | .ended outcome s => .ended outcome (f s)

theorem Progress.map_map {ρ σ τ : Type} (g : σ → τ) (f : ρ → σ) (progress : Progress ρ) :
    (progress.map f).map g = progress.map (g ∘ f) := by
  cases progress
  all_goals rfl

theorem Progress.map_eq_ended_iff {σ τ : Type} {f : σ → τ} {progress : Progress σ}
    {outcome : Outcome} {b : τ} :
    progress.map f = .ended outcome b ↔ ∃ a, progress = .ended outcome a ∧ f a = b := by
  cases progress with
  | running a => simp [Progress.map]
  | ended outcome' a => simp [Progress.map, and_assoc]

namespace Machine

/-- The machine with a blank tape and the given settings. -/
def ofSettings (s : Settings) : Except UnsupportedWidth Machine :=
  if s.width.signed then .error ⟨s.width⟩
  else .ok ⟨s.width.size, ⟨Tape.blank, s.memoryPointer, s.instructionPointer⟩⟩

/-- The width of the cells. -/
def width (m : Machine) : CellWidth := .unsigned m.size

/-- The address of the current cell. -/
def memoryPointer (m : Machine) : Addr := m.engine.memoryPointer

/-- The position of the next byte of the program. -/
def instructionPointer (m : Machine) : Nat := m.engine.instructionPointer

/-- The machine ready to run another program from its start on the same tape. -/
def rewind (m : Machine) : Machine := { m with engine := m.engine.rewind }

/-- At most `steps` bytes of a program. -/
@[specialize] def run {κ : Type} (m : Machine) [Console κ m.size.bits] (p : Program) (steps : Nat)
    (k : κ) : Progress (Machine × κ) :=
  (p.run steps ⟨m.engine, k⟩).map fun s => (⟨m.size, s.engine⟩, s.console)

/-! ## Records of a run

A record names the two pointers as they are when it is made, so the two records of a run tell how
far it has come. -/

/-- The named values of the two pointers. -/
def pointerFields (m : Machine) : List (String × String) :=
  [("instruction_pointer", toString m.instructionPointer),
   ("memory_pointer", toString m.memoryPointer)]

/-- The record of the beginning of a run. -/
def startRecord (m : Machine) (p : Program) : LogRecord where
  level := .debug
  speaker := .engine
  message := "run starting"
  fields := [("width", m.width.name), ("program_len", toString p.size)] ++ m.pointerFields

/-- The record of the end of a run. -/
def endRecord (m : Machine) : Outcome → LogRecord
  | .ok () => ⟨.debug, .engine, "run finished", m.pointerFields⟩
  | .error e => ⟨.warn, .engine, "run aborted", m.pointerFields ++ [("error", e.message)]⟩

/-! ## Building machines -/

/-- There is a machine for exactly the unsigned widths, and it has the width that was asked for. -/
theorem ofSettings_eq_ok_iff {s : Settings} {m : Machine} :
    ofSettings s = .ok m ↔
      s.width = m.width ∧
        m.engine = ⟨Tape.blank, s.memoryPointer, s.instructionPointer⟩ := by
  obtain ⟨⟨size, signed⟩, mp, ip⟩ := s
  obtain ⟨size', engine⟩ := m
  cases signed <;> simp only [ofSettings, width, CellWidth.unsigned]
  · simp only [Bool.false_eq_true, ↓reduceIte, Except.ok.injEq, mk.injEq, CellWidth.mk.injEq,
      and_true]
    constructor
    · rintro ⟨rfl, h⟩
      cases h
      exact ⟨rfl, rfl⟩
    · rintro ⟨rfl, rfl⟩
      exact ⟨rfl, HEq.rfl⟩
  · simp

/-- The sign is all that can stand in the way of a machine. -/
theorem exists_ofSettings_eq_ok_iff {s : Settings} :
    (∃ m, ofSettings s = .ok m) ↔ s.width.signed = false := by
  unfold ofSettings
  split
  · next h => simp [h]
  · next h => simp [h]

end Machine

end TapeMachine
