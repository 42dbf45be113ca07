import TapeMachine.Proofs.Engine.Ending

/-!
# What a run asks of its console

A run talks to its console in one way only. Every output that is completed is a successful write,
and every input a successful flush with a successful read right behind it (`Exchange`). If the
console fails, it fails the last request of the run (`Breakdown`), and otherwise nothing is asked
but what belongs to completed instructions.

A `Recorder` lists the requests. The list is compared to the steps of a run without a recorder:
`Program.transitions` are the states before and after each completed instruction, and
`Program.exchanges` reads off them what must have been exchanged, from the cells alone. Both agree
after any number of steps (`Program.requests_of_run`), so a recorder changes nothing.

The induction is on the number of steps, for a recorder that has already listed something: the first
step adds the calls of its exchange behind the list (`Completes.recording`), and the rest of the run
goes on with the longer list. The last step of a run that is over adds the calls of a breakdown or
nothing (`Fails.recording`). So the whole list is what the steps have added, in their order.
-/

namespace TapeMachine

variable {κ : Type} {w : Nat}

/-! ## What there is to be asked -/

/-- What a completed instruction has exchanged with the console. -/
inductive Exchange (w : Nat) where
  /-- a cell has been written -/
  | sent (cell : Cell w)
  /-- earlier output has been flushed, and then a cell has been read -/
  | received (cell : Cell w)

/-- How the console fails an instruction. An input makes two requests and can fail at either, so
there are three ways. -/
inductive Breakdown where
  /-- the current cell cannot be written -/
  | unsent (fault : Fault)
  /-- earlier output cannot be flushed -/
  | unflushed (fault : Fault)
  /-- it has been flushed, but no cell can be read -/
  | unread (fault : Fault)

/-- The requests of a completed instruction, with their answers. -/
def Exchange.calls : Exchange w → List (Call w)
  | sent c => [.write c (.ok ())]
  | received c => [.flush (.ok ()), .read (.ok c)]

namespace Breakdown

/-- The requests of an instruction that fails on a given current cell, with their answers. -/
def calls (current : Cell w) : Breakdown → List (Call w)
  | unsent f => [.write current (.error f)]
  | unflushed f => [.flush (.error f)]
  | unread f => [.flush (.ok ()), .read (.error f)]

/-- The fault that is reported. -/
def fault : Breakdown → Fault
  | unsent f | unflushed f | unread f => f

/-- The instruction that fails. -/
def instruction : Breakdown → Instruction
  | unsent _ => .output
  | unflushed _ | unread _ => .input

end Breakdown

/-- The fault of the console for which a run has failed. -/
def Outcome.fault? : Outcome → Option Fault
  | .error (.console f) => some f
  | _ => none

/-! ## Recorders

A recorder passes every request on and lists it with its answer, also one that was not granted. The
three lemmas say so for any list. -/

namespace Recorder

/-- A recorder that has already listed some requests. -/
def listing (calls : List (Call w)) (k : κ) : Recorder κ w := ⟨k, calls.toArray⟩

variable [Console κ w] {k k' : κ} (calls : List (Call w))

theorem flush_listing {answer : Except Fault Unit} (h : Console.flush w k = (answer, k')) :
    Console.flush w (listing calls k) = (answer, listing (calls ++ [.flush answer]) k') := by
  simp [Console.flush, listing, h]

theorem read_listing {answer : Except Fault (Cell w)} (h : Console.read k = (answer, k')) :
    Console.read (listing calls k) = (answer, listing (calls ++ [.read answer]) k') := by
  simp [Console.read, listing, h]

theorem write_listing {c : Cell w} {answer : Except Fault Unit}
    (h : Console.write c k = (answer, k')) :
    Console.write c (listing calls k) = (answer, listing (calls ++ [.write c answer]) k') := by
  simp [Console.write, listing, h]

end Recorder

/-- The state with a recorder around its console. -/
def Config.recording (calls : List (Call w)) (s : Config κ w) : Config (Recorder κ w) w :=
  ⟨s.engine, .listing calls s.console⟩

namespace Program

variable [Console κ w] {p : Program} {s t : Config κ w} {failure : Failure} {outcome : Outcome}
  {k : κ} {n : Nat}

/-- The states before and after each of the instructions that are completed in so many steps. -/
def transitions (p : Program) : (steps : Nat) → Config κ w → List (Config κ w × Config κ w)
  | 0, _ => []
  | steps + 1, s =>
    match p.step s with
    | .running t => (s, t) :: transitions p steps t
    | .ended _ _ => []

/-- What an instruction that leads from one state to another has exchanged with the console: output
the cell that was current, and input the cell that is there afterwards. It is read off the two
states, not off what the console has been asked. -/
def exchange? (p : Program) (s t : Config κ w) : Option (Exchange w) :=
  match p.instruction? s.engine.instructionPointer with
  | some .output => some (.sent s.engine.currentCell)
  | some .input => some (.received (t.engine.tape.get s.engine.memoryPointer))
  | _ => none

/-- What has been exchanged in so many steps. -/
def exchanges (p : Program) (steps : Nat) (s : Config κ w) : List (Exchange w) :=
  (p.transitions steps s).filterMap fun move => p.exchange? move.1 move.2

/-- The breakdown, if there is one, is how the console has brought a run to this end. -/
structure Concludes (p : Program) (t : Config κ w) (outcome : Outcome) (tail : Option Breakdown) :
    Prop where
  /-- there is a breakdown exactly if the console is the reason, and it is that fault -/
  fault : tail.map Breakdown.fault = outcome.fault?
  /-- the instruction that broke down is the one where the run has stopped -/
  instruction : ∀ b ∈ tail, p.instruction? t.engine.instructionPointer = some b.instruction

/-! ## One step

Whatever the recorder has listed before stays in front of what the step adds. -/

/-- What neither reads nor writes is completed in front of the recorder as it is without it, and
leaves the list alone. -/
theorem Completes.recording_of_quiet {calls : List (Call w)}
    (h : p.Completes (s.recording calls) (t.recording calls))
    (hquiet : p.exchange? s t = none) :
    p.Completes (s.recording calls)
      (t.recording (calls ++ (p.exchange? s t).elim [] Exchange.calls)) := by
  rwa [hquiet, Option.elim_none, List.append_nil]

/-- A completed instruction asks for its exchange and for nothing else. For input, the flush is
listed first and the read behind it. -/
theorem Completes.recording (h : p.Completes s t) (calls : List (Call w)) :
    p.Completes (s.recording calls)
      (t.recording (calls ++ (p.exchange? s t).elim [] Exchange.calls)) := by
  cases h with
  | @comment tape mp ip k b byte none =>
    have hnone : p.instruction? ip = Option.none := by
      rw [instruction?, byte, Option.bind_some, none]
    exact recording_of_quiet (.comment byte none) (by simp [exchange?, hnone])
  | increment instr =>
    exact recording_of_quiet (.increment instr) (by simp [exchange?, instr])
  | decrement instr =>
    exact recording_of_quiet (.decrement instr) (by simp [exchange?, instr])
  | right instr => exact recording_of_quiet (.right instr) (by simp [exchange?, instr])
  | left instr => exact recording_of_quiet (.left instr) (by simp [exchange?, instr])
  | enter instr nonzero =>
    exact recording_of_quiet (.enter instr nonzero) (by simp [exchange?, instr])
  | skip instr zero partner =>
    exact recording_of_quiet (.skip instr zero partner) (by simp [exchange?, instr])
  | leave instr zero =>
    exact recording_of_quiet (.leave instr zero) (by simp [exchange?, instr])
  | again instr nonzero partner =>
    exact recording_of_quiet (.again instr nonzero partner) (by simp [exchange?, instr])
  | @input tape mp ip k k' k'' c instr flush read =>
    have hexchange : p.exchange? ⟨⟨tape, mp, ip⟩, k⟩ ⟨⟨tape.set mp c, mp, ip + 1⟩, k''⟩ =
        some (.received c) := by
      simp [exchange?, instr]
    -- the read finds the list with the flush on it
    have hread := Recorder.read_listing (calls ++ [.flush (.ok ())]) read
    rw [List.append_assoc] at hread
    rw [hexchange]
    exact .input instr (Recorder.flush_listing calls flush) hread
  | @output tape mp ip k k' instr write =>
    have hexchange : p.exchange? ⟨⟨tape, mp, ip⟩, k⟩ ⟨⟨tape, mp, ip + 1⟩, k'⟩ =
        some (.sent (tape.get mp)) := by
      simp [exchange?, instr, Engine.currentCell]
    rw [hexchange]
    exact .output instr (Recorder.write_listing calls write)

/-- A failed instruction asks for what its breakdown tells and for nothing else. A bracket without a
partner asks for nothing, so there is no breakdown then. -/
theorem Fails.recording (h : p.Fails s failure k) (calls : List (Call w)) :
    ∃ tail : Option Breakdown,
      p.Concludes s (.error failure) tail ∧
      p.Fails (s.recording calls) failure
        (.listing (calls ++ tail.elim [] (Breakdown.calls s.engine.currentCell)) k) := by
  cases h with
  | unclosed instr zero partner =>
    refine ⟨none, ⟨rfl, nofun⟩, ?_⟩
    rw [Option.elim_none, List.append_nil]
    exact .unclosed instr zero partner
  | unopened instr nonzero partner =>
    refine ⟨none, ⟨rfl, nofun⟩, ?_⟩
    rw [Option.elim_none, List.append_nil]
    exact .unopened instr nonzero partner
  | flush instr flush =>
    exact ⟨some (.unflushed _), ⟨rfl, by simpa [Breakdown.instruction] using instr⟩,
      .flush instr (Recorder.flush_listing calls flush)⟩
  | read instr flush read =>
    have hread := Recorder.read_listing (calls ++ [.flush (.ok ())]) read
    rw [List.append_assoc] at hread
    exact ⟨some (.unread _), ⟨rfl, by simpa [Breakdown.instruction] using instr⟩,
      .read instr (Recorder.flush_listing calls flush) hread⟩
  | write instr write =>
    exact ⟨some (.unsent _), ⟨rfl, by simpa [Breakdown.instruction] using instr⟩,
      .write instr (Recorder.write_listing calls write)⟩

/-! ## Runs -/

theorem flatMap_exchanges_succ (h : p.step s = .running t) (n : Nat) :
    (p.exchanges (n + 1) s).flatMap Exchange.calls =
      (p.exchange? s t).elim [] Exchange.calls ++ (p.exchanges n t).flatMap Exchange.calls := by
  simp only [exchanges, transitions, h, List.filterMap_cons]
  cases p.exchange? s t
  all_goals rfl

theorem exchanges_of_step_eq_ended (h : p.step s = .ended outcome t) (n : Nat) :
    p.exchanges n s = [] := by
  cases n with
  | zero => rfl
  | succ n => simp only [exchanges, transitions, h, List.filterMap_nil]

/-- A run that goes on has asked for what has been exchanged, in addition to what had been listed
before. -/
theorem run_recording_of_running {calls : List (Call w)} (h : p.run n s = .running t) :
    p.run n (s.recording calls) =
      .running (t.recording (calls ++ (p.exchanges n s).flatMap Exchange.calls)) := by
  -- the list is general, since the rest of the run begins with a longer one
  induction n generalizing s calls with
  | zero =>
    cases h
    rw [run_zero, exchanges, transitions, List.filterMap_nil, List.flatMap_nil, List.append_nil]
  | succ n ih =>
    rw [run_succ] at h
    cases hs : p.step s with
    | running s' =>
      rw [hs] at h
      have hstep := (step_eq_running_iff.mp hs).recording calls
      rw [hstep.run_succ, ih h, flatMap_exchanges_succ hs, List.append_assoc]
    | ended outcome s' =>
      rw [hs] at h
      cases h

/-- A run that is over has asked for that, and perhaps for something that it did not get. -/
theorem exists_run_recording_of_ended {calls : List (Call w)} (h : p.run n s = .ended outcome t) :
    ∃ tail : Option Breakdown,
      p.Concludes t outcome tail ∧
      p.run n (s.recording calls) =
        .ended outcome (t.recording (calls ++ (p.exchanges n s).flatMap Exchange.calls ++
          tail.elim [] (Breakdown.calls t.engine.currentCell))) := by
  induction n generalizing s calls with
  | zero => cases h
  | succ n ih =>
    rw [run_succ] at h
    obtain ⟨s', ht, heq⟩ | ⟨failure, k, hf, heq⟩ | ⟨hge, heq⟩ := step_cases p s
    · rw [heq] at h
      obtain ⟨tail, hconcludes, hrun⟩ := ih h
      refine ⟨tail, hconcludes, ?_⟩
      rw [(ht.recording calls).run_succ, hrun, flatMap_exchanges_succ heq, List.append_assoc calls]
    · -- the failed instruction has completed nothing, but may have asked for something
      rw [heq] at h
      cases h
      obtain ⟨tail, hconcludes, hfails⟩ := hf.recording calls
      refine ⟨tail, ⟨hconcludes.fault, hconcludes.instruction⟩, ?_⟩
      rw [run_succ, hfails.step, exchanges_of_step_eq_ended heq, List.flatMap_nil, List.append_nil]
      rfl
    · rw [heq] at h
      cases h
      refine ⟨none, ⟨rfl, nofun⟩, ?_⟩
      rw [run_succ, step_of_size_le_instructionPointer (s := t.recording calls) hge,
        exchanges_of_step_eq_ended heq, List.flatMap_nil, List.append_nil, Option.elim_none,
        List.append_nil]

/-- A run ends with a recorder as it ends without one, and with a longer list. -/
theorem Ends.recording (h : p.Ends s outcome t) (calls : List (Call w)) :
    ∃ more, p.Ends (s.recording calls) outcome (t.recording (calls ++ more)) := by
  obtain ⟨n, hn⟩ := h
  obtain ⟨tail, -, hrun⟩ := exists_run_recording_of_ended hn
  rw [List.append_assoc] at hrun
  exact ⟨_, n, hrun⟩

/-- A run that ends with a recorder ends without one, and only adds to the list. A run that went on
for ever without the recorder would do so with it. -/
theorem Ends.of_recording {calls : List (Call w)} {u : Config (Recorder κ w) w}
    (h : p.Ends (s.recording calls) outcome u) :
    ∃ t more, p.Ends s outcome t ∧ u = t.recording (calls ++ more) := by
  obtain ⟨n, hn⟩ := h
  cases hs : p.run n s with
  | running t => cases (run_recording_of_running hs).symm.trans hn
  | ended outcome' t =>
    obtain ⟨more, hmore⟩ := Ends.recording ⟨n, hs⟩ calls
    obtain ⟨rfl, rfl⟩ := Ends.unique ⟨n, hn⟩ hmore
    exact ⟨t, more, ⟨n, hs⟩, rfl⟩

/-- **Protocol.** Whatever the console, a run and the same run with a recorder take the same steps.
For as long as the run goes on, the list of requests is that of its exchanges: for every output that
has been completed a successful write of the cell that was current, and for every input a successful
flush and a successful read of what is then in the cell under the memory pointer, in the order in
which they have been completed. When the run is over, there is nothing else in the list, or the one
request that was not granted stands at its end. It is there exactly if the run has failed for a
fault of the console, and then it is that fault. -/
theorem requests_of_run (p : Program) (e : Engine w) (k : κ) (n : Nat) :
    match p.run n ⟨e, k⟩ with
    | .running t =>
      p.run n ⟨e, .start k⟩ =
        .running (t.recording ((p.exchanges n ⟨e, k⟩).flatMap Exchange.calls))
    | .ended outcome t =>
      ∃ tail : Option Breakdown,
        p.Concludes t outcome tail ∧
        p.run n ⟨e, .start k⟩ =
          .ended outcome (t.recording ((p.exchanges n ⟨e, k⟩).flatMap Exchange.calls ++
            tail.elim [] (Breakdown.calls t.engine.currentCell))) := by
  have hstart : (⟨e, .start k⟩ : Config (Recorder κ w) w) = Config.recording [] ⟨e, k⟩ := rfl
  rw [hstart]
  cases h : p.run n ⟨e, k⟩ with
  | running t => exact run_recording_of_running h
  | ended outcome t => exact exists_run_recording_of_ended h

end Program

end TapeMachine
