import TapeMachine.Machine
import TapeMachine.Program.Transform
import TapeMachine.Proofs.Engine.Ending

/-!
# Machines seen in an image

An `Image` shows one machine as another. It says what its tapes, cells, addresses and consoles look
like, and which instruction stands for which; positions of the program stay what they are.

* `Image.Lawful` — instructions do to what is seen what they do to the machine;
* `Image.Depicts` — one program is seen as another;
* `Image.Fits` — in a state, the current cell is seen where the memory pointer is seen.

A step from a state that fits is seen as a step (`step_config`). So a run that stays in such states
is seen as a run, from the same beginning to the same end (`run_config`, `ends_config_iff`).

Narrower cells, a tape that is turned round or moved along, counting downwards: each is an image. A
development that uses one only shows that the image is lawful, which is about single cells and
addresses, and that the states of the run fit. What fits is asked of states and not of the image,
because some images show the wrong thing in places that a run may never come to: a narrow cell can
look like zero when the wide one is not.
-/

namespace TapeMachine

variable {κ κ' : Type} {v w : Nat}

/-- How one machine is seen as another. The functions go in one direction only, and need not be
injective: what is different here may look the same there. -/
structure Image (κ κ' : Type) (w v : Nat) where
  /-- what a tape looks like -/
  tape : Tape w → Tape v
  /-- where an address is seen -/
  address : Addr → Addr
  /-- what the value of a cell looks like -/
  cell : Cell w → Cell v
  /-- what a console looks like -/
  console : κ → κ'
  /-- the instruction that does there what this one does here -/
  instruction : Instruction → Instruction

namespace Image

/-- What a state looks like. The instruction pointer is the same, so both programs are at the same
position all the time. -/
def config (φ : Image κ κ' w v) (s : Config κ w) : Config κ' v :=
  ⟨⟨φ.tape s.engine.tape, φ.address s.engine.memoryPointer, s.engine.instructionPointer⟩,
    φ.console s.console⟩

/-- Instructions and consoles do there what they do here. -/
structure Lawful [Console κ w] [Console κ' v] (φ : Image κ κ' w v) : Prop where
  /-- an instruction that counts or moves is seen as one that counts or moves -/
  isStraight : ∀ i, (φ.instruction i).isStraight = i.isStraight
  /-- every other instruction is seen as it is -/
  other : ∀ i, ¬ i.isStraight → φ.instruction i = i
  /-- counting is seen as counting -/
  counted : ∀ i c, φ.cell (i.counted c) = (φ.instruction i).counted (φ.cell c)
  /-- moving is seen as moving -/
  moved : ∀ i a, φ.address (i.moved a) = (φ.instruction i).moved (φ.address a)
  /-- what is flushed here is flushed there -/
  flush : ∀ k, Console.flush v (φ.console k) = (Console.flush w k).map id φ.console
  /-- what is read here is seen to be read there -/
  read : ∀ k, Console.read (φ.console k) = (Console.read k).map (Except.map φ.cell) φ.console
  /-- a cell can be written as it is seen -/
  write : ∀ c k, Console.write (φ.cell c) (φ.console k) = (Console.write c k).map id φ.console

/-- Every instruction of `p` is seen as that of `q` in the same place. Comments stay comments, but
need not be the same bytes. -/
structure Depicts (φ : Image κ κ' w v) (p q : Program) : Prop where
  /-- the programs have the same length -/
  size : q.size = p.size
  /-- and the instructions that are seen -/
  instruction? : ∀ pos, q.instruction? pos = (p.instruction? pos).map φ.instruction

/-- In this state, the current cell is seen where the memory pointer is seen. -/
structure Fits (φ : Image κ κ' w v) (p : Program) (s : Config κ w) : Prop where
  /-- it looks like the cell that it is -/
  get : (φ.tape s.engine.tape).get (φ.address s.engine.memoryPointer) =
    φ.cell s.engine.currentCell
  /-- what is put into it is seen there -/
  set : ∀ c, φ.tape (s.engine.tape.set s.engine.memoryPointer c) =
    (φ.tape s.engine.tape).set (φ.address s.engine.memoryPointer) (φ.cell c)
  /-- if it is tested, it looks like zero only if it is zero -/
  zero : p.instruction? s.engine.instructionPointer = some .beginLoop ∨
      p.instruction? s.engine.instructionPointer = some .endLoop →
    (φ.cell s.engine.currentCell = 0 ↔ s.engine.currentCell = 0)

/-- An image that moves cells about and shows each of them, and the console, as it is. The
symmetries of the tape are of this kind. -/
def ofTape (tape : Tape w → Tape w) (address : Addr → Addr)
    (instruction : Instruction → Instruction) : Image κ κ w w :=
  ⟨tape, address, id, id, instruction⟩

/-- Such an image only has to show counting and moving in the right way, since cells and the console
are not changed. -/
theorem lawful_ofTape [Console κ w] {tape : Tape w → Tape w} {address : Addr → Addr}
    {instruction : Instruction → Instruction}
    (isStraight : ∀ i, (instruction i).isStraight = i.isStraight)
    (other : ∀ i, ¬ i.isStraight → instruction i = i)
    (counted : ∀ i (c : Cell w), (instruction i).counted c = i.counted c)
    (moved : ∀ i a, address (i.moved a) = (instruction i).moved (address a)) :
    (ofTape tape address instruction : Image κ κ w w).Lawful where
  isStraight := isStraight
  other := other
  counted := fun i c => (counted i c).symm
  moved := moved
  flush := fun _ => rfl
  read := fun k => by
    rw [ofTape, Except.map_id]
    rfl
  write := fun _ _ => rfl

/-- Every program is seen as itself if every instruction is. This is the case of one program on two
machines. -/
theorem depicts_self (φ : Image κ κ' w v) (h : φ.instruction = id) (p : Program) :
    φ.Depicts p p where
  size := rfl
  instruction? := fun pos => by rw [h, Option.map_id, id]

/-- Every program is seen as the one whose instructions are those that are seen. This is the case of
two programs on one kind of machine. -/
theorem depicts_map (φ : Image κ κ' w v) (p : Program) :
    φ.Depicts p (p.map (Instruction.mapByte φ.instruction)) where
  size := Array.size_map
  instruction? := Program.instruction?_map_mapByte φ.instruction p

variable {φ : Image κ κ' w v} {p q : Program} {pos : Nat}

/-- A test there has the same result. This is where `zero` is needed, and only for brackets. -/
theorem Fits.get_eq_zero_iff {s : Config κ w} (hs : φ.Fits p s)
    (hbracket : p.instruction? s.engine.instructionPointer = some .beginLoop ∨
      p.instruction? s.engine.instructionPointer = some .endLoop) :
    (φ.tape s.engine.tape).get (φ.address s.engine.memoryPointer) = 0 ↔
      s.engine.tape.get s.engine.memoryPointer = 0 := by
  rw [hs.get]
  exact hs.zero hbracket

/-! ## Programs -/

namespace Depicts

/-- A comment is seen as a comment. The lengths are the same, so there is a byte, and it is no
instruction. -/
theorem comment (h : φ.Depicts p q) {byte : UInt8} (hb : p[pos]? = some byte)
    (hn : Instruction.ofByte? byte = none) :
    ∃ byte', q[pos]? = some byte' ∧ Instruction.ofByte? byte' = none := by
  have hlt : pos < q.size := h.size ▸ (Array.getElem?_eq_some_iff.mp hb).1
  have hq : q[pos]? = some q[pos] := Array.getElem?_eq_getElem hlt
  have hnone := h.instruction? pos
  rw [Program.instruction?, Program.instruction?, hb, hq, Option.bind_some, Option.bind_some, hn,
    Option.map_none] at hnone
  exact ⟨q[pos], hq, hnone⟩

theorem of_instruction? (h : φ.Depicts p q) {i : Instruction} (hi : p.instruction? pos = some i) :
    q.instruction? pos = some (φ.instruction i) := by
  rw [h.instruction?, hi, Option.map_some]

variable [Console κ w] [Console κ' v]

/-- Instructions that neither count nor move stand in both programs. -/
theorem of_other (h : φ.Depicts p q) (hφ : φ.Lawful) {i : Instruction}
    (hi : p.instruction? pos = some i) (ho : ¬ i.isStraight) : q.instruction? pos = some i := by
  rw [h.of_instruction? hi, hφ.other i ho]

/-- **Brackets** are the same, and so are their partners. Partners only depend on where the brackets
are, so it does not matter what stands between them. -/
theorem partner? (h : φ.Depicts p q) (hφ : φ.Lawful) (pos : Nat) :
    q.partner? pos = p.partner? pos := by
  -- counting and moving is never seen as a bracket, and a bracket is seen as itself
  have hsame : q.brackets = p.brackets := by
    refine Program.brackets_congr h.size fun pos => ?_
    rw [h.instruction?]
    cases p.instruction? pos with
    | none => rfl
    | some i =>
      rw [Option.map_some]
      by_cases hi : i.isStraight
      · have hi' : (φ.instruction i).isStraight := by rw [hφ.isStraight, hi]
        rw [Option.filter_some, Option.filter_some, Instruction.isBracket_of_isStraight hi,
          Instruction.isBracket_of_isStraight hi']
        rfl
      · rw [hφ.other i hi]
  have hmap : q.brackets = p.brackets.map (Prod.map id id) := by
    rw [hsame, Prod.map_id, List.map_id]
  have hpartner : q.partner? (id pos) = (p.partner? pos).map id :=
    Program.partner?_of_brackets_eq_map hmap fun _ _ heq => heq
  exact hpartner.trans (congrFun Option.map_id _)

end Depicts

variable [Console κ w] [Console κ' v] {s t u : Config κ w} {u' : Config κ' v} {failure : Failure}
  {outcome : Outcome} {k : κ} {n : Nat}

/-! ## One step

The rule of the step is taken apart, each part is seen in the image, and the same rule is put
together again there. -/

/-- Counting and moving are seen as counting and moving, though perhaps as others. One rule covers
the four instructions, so they need not be told apart here. -/
theorem completes_straight (hφ : φ.Lawful) (hpq : φ.Depicts p q) {tape : Tape w} {mp : Addr}
    {ip : Nat} (hs : φ.Fits p ⟨⟨tape, mp, ip⟩, k⟩) {i : Instruction}
    (instr : p.instruction? ip = some i) (hi : i.isStraight) :
    q.Completes (φ.config ⟨⟨tape, mp, ip⟩, k⟩)
      (φ.config ⟨⟨tape.set mp (i.counted (tape.get mp)), i.moved mp, ip + 1⟩, k⟩) := by
  have hi' : (φ.instruction i).isStraight := by rw [hφ.isStraight, hi]
  have hget : φ.cell (tape.get mp) = (φ.tape tape).get (φ.address mp) := hs.get.symm
  have hset : φ.tape (tape.set mp (i.counted (tape.get mp))) =
      (φ.tape tape).set (φ.address mp)
        ((φ.instruction i).counted ((φ.tape tape).get (φ.address mp))) := by
    rw [← hget, ← hφ.counted]
    exact hs.set _
  rw [config, config, hset, hφ.moved]
  exact .straight (hpq.of_instruction? instr) hi'

/-- What is completed is seen to be completed, rule by rule. -/
theorem completes_config (hφ : φ.Lawful) (hpq : φ.Depicts p q) (hs : φ.Fits p s)
    (h : p.Completes s t) : q.Completes (φ.config s) (φ.config t) := by
  cases h with
  | comment byte none =>
    obtain ⟨byte', hb', hn'⟩ := hpq.comment byte none
    exact .comment hb' hn'
  | increment instr => exact completes_straight hφ hpq hs instr rfl
  | decrement instr => exact completes_straight hφ hpq hs instr rfl
  | @right tape mp ip k instr =>
    have hmoved := completes_straight hφ hpq hs instr rfl
    rwa [Instruction.counted, Tape.set_get_self] at hmoved
  | @left tape mp ip k instr =>
    have hmoved := completes_straight hφ hpq hs instr rfl
    rwa [Instruction.counted, Tape.set_get_self] at hmoved
  | enter instr nonzero =>
    exact .enter (hpq.of_other hφ instr Bool.false_ne_true)
      (mt (hs.get_eq_zero_iff (Or.inl instr)).mp nonzero)
  | skip instr zero partner =>
    exact .skip (hpq.of_other hφ instr Bool.false_ne_true)
      ((hs.get_eq_zero_iff (Or.inl instr)).mpr zero) ((hpq.partner? hφ _).trans partner)
  | leave instr zero =>
    exact .leave (hpq.of_other hφ instr Bool.false_ne_true)
      ((hs.get_eq_zero_iff (Or.inr instr)).mpr zero)
  | again instr nonzero partner =>
    exact .again (hpq.of_other hφ instr Bool.false_ne_true)
      (mt (hs.get_eq_zero_iff (Or.inr instr)).mp nonzero) ((hpq.partner? hφ _).trans partner)
  | @input tape mp ip k k' k'' c instr flush read =>
    -- what was read here is put into the cell that is seen, as it is seen
    have hflush := hφ.flush k
    have hread := hφ.read k'
    have hset := hs.set c
    rw [flush] at hflush
    rw [read] at hread
    rw [config, config, hset]
    exact .input (hpq.of_other hφ instr Bool.false_ne_true) hflush hread
  | @output tape mp ip k k' instr write =>
    have hwrite := hφ.write (tape.get mp) k
    have hget : (φ.tape tape).get (φ.address mp) = φ.cell (tape.get mp) := hs.get
    rw [write, ← hget] at hwrite
    exact .output (hpq.of_other hφ instr Bool.false_ne_true) hwrite

/-- What fails is seen to fail, for the same reason and at the same position. -/
theorem fails_config (hφ : φ.Lawful) (hpq : φ.Depicts p q) (hs : φ.Fits p s)
    (h : p.Fails s failure k) : q.Fails (φ.config s) failure (φ.console k) := by
  cases h with
  | unclosed instr zero partner =>
    exact .unclosed (hpq.of_other hφ instr Bool.false_ne_true)
      ((hs.get_eq_zero_iff (Or.inl instr)).mpr zero) ((hpq.partner? hφ _).trans partner)
  | unopened instr nonzero partner =>
    exact .unopened (hpq.of_other hφ instr Bool.false_ne_true)
      (mt (hs.get_eq_zero_iff (Or.inr instr)).mp nonzero) ((hpq.partner? hφ _).trans partner)
  | @flush tape mp ip k k' f instr flush =>
    have hflush := hφ.flush k
    rw [flush] at hflush
    exact .flush (hpq.of_other hφ instr Bool.false_ne_true) hflush
  | @read tape mp ip k k' k'' f instr flush read =>
    have hflush := hφ.flush k
    have hread := hφ.read k'
    rw [flush] at hflush
    rw [read] at hread
    exact .read (hpq.of_other hφ instr Bool.false_ne_true) hflush hread
  | @write tape mp ip k k' f instr write =>
    have hwrite := hφ.write (tape.get mp) k
    have hget : (φ.tape tape).get (φ.address mp) = φ.cell (tape.get mp) := hs.get
    rw [write, ← hget] at hwrite
    exact .write (hpq.of_other hφ instr Bool.false_ne_true) hwrite

/-- **One step** is seen as one step. -/
theorem step_config (hφ : φ.Lawful) (hpq : φ.Depicts p q) (hs : φ.Fits p s) :
    q.step (φ.config s) = (p.step s).map φ.config := by
  obtain ⟨t, ht, heq⟩ | ⟨failure, k, hf, heq⟩ | ⟨hge, heq⟩ := Program.step_cases p s
  · rw [heq]
    exact (completes_config hφ hpq hs ht).step
  · rw [heq]
    exact (fails_config hφ hpq hs hf).step
  · rw [heq]
    exact Program.step_of_size_le_instructionPointer (Nat.le_trans (Nat.le_of_eq hpq.size) hge)

/-! ## Runs -/

/-- **Many steps.** A run is seen as a run for as long as all its states fit. -/
theorem run_config (hφ : φ.Lawful) (hpq : φ.Depicts p q)
    (hfits : ∀ m < n, ∀ t, p.run m s = .running t → φ.Fits p t) :
    q.run n (φ.config s) = (p.run n s).map φ.config := by
  -- the state that a run begins with is one of those that it comes to, so the first step is seen;
  -- the rest of the run comes to no states that the whole one does not
  induction n generalizing s with
  | zero => rfl
  | succ n ih =>
    rw [Program.run_succ, Program.run_succ, step_config hφ hpq (hfits 0 n.succ_pos s rfl)]
    cases hs : p.step s with
    | running s' =>
      refine ih fun m hm t hrun => hfits (m + 1) (Nat.succ_lt_succ hm) t ?_
      rw [Program.run_succ, hs]
      exact hrun
    | ended outcome s' => rfl

/-- **Endings.** If all states that a run comes to fit, it ends exactly if it is seen to end, and in
the same way. Both take the same number of steps. -/
theorem ends_config_iff (hφ : φ.Lawful) (hpq : φ.Depicts p q)
    (hfits : ∀ t, p.Reaches s t → φ.Fits p t) :
    q.Ends (φ.config s) outcome u' ↔ ∃ u, p.Ends s outcome u ∧ φ.config u = u' := by
  have hrun : ∀ n, q.run n (φ.config s) = (p.run n s).map φ.config :=
    fun n => run_config hφ hpq fun _ _ t ht => hfits t (Program.reaches_of_run ht)
  refine ⟨?_, ?_⟩
  · rintro ⟨n, hn⟩
    rw [hrun, Progress.map_eq_ended_iff] at hn
    obtain ⟨u, hu, heq⟩ := hn
    exact ⟨u, ⟨n, hu⟩, heq⟩
  · rintro ⟨u, ⟨n, hn⟩, rfl⟩
    exact ⟨n, by rw [hrun, hn]; rfl⟩

end Image

end TapeMachine
