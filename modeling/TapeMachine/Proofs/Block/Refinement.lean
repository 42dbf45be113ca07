import TapeMachine.Proofs.Block.Layout
import TapeMachine.Proofs.Engine.Ending

/-!
# A program does what its tree does

The machine jumps, a tree does not. Both do the same:

* what a tree derives, the machine does where the tree stands (`Lies.follows`), by induction on the
  tree and, for a loop, on how often its body is run;
* a run of the machine that begins where a tree stands either leaves it at its end, having done what
  the tree derives, or ends inside (`Lies.passes`), by induction on the number of steps.

The machine goes from the end of a loop to the inside of its beginning, while a tree begins the loop
again. This makes no difference since the two brackets of a loop do the same thing
(`step_eq_step_of_paired`).

So a tree describes all runs of a balanced program from its beginning, those without an ending
included (`exists_describes`).

The second induction has to be a strong one. A loop whose body has been run is begun again as a
whole, with as many steps left as the body has left over; `Passes.behind` keeps count of them for
that reason alone.
-/

namespace TapeMachine.Block

open Program

variable {κ : Type} {w : Nat}

/-- The machine at a position of the program. -/
def Scene.config (s : Scene κ w) (ip : Nat) : Config κ w :=
  ⟨⟨s.tape, s.memoryPointer, ip⟩, s.console⟩

/-- The same scene with a console that keeps a list of what it is asked. A tree that describes the
runs with it describes also what they ask for. -/
def Scene.recorded (s : Scene κ w) : Scene (Recorder κ w) w :=
  ⟨s.tape, s.memoryPointer, .start s.console⟩

/-- How a run of the machine ends when running a tree has the given result. -/
def Result.outcome : Result → Outcome
  | .completed => .ok ()
  | .failed _ f => .error (.console f)

/-- Where the machine is then, in a program of the given size. -/
def Result.position (size : Nat) : Result → Nat
  | .completed => size
  | .failed pos _ => pos

variable [Console κ w] {p : Program} {i j m : Nat} {b body rest : Block} {s t : Scene κ w}
  {r : Result} {outcome : Outcome} {u : Config κ w} {f : Fault} {instr : Instruction}

/-! ## Instructions that are no brackets -/

/-- What a tree performs, the machine completes. What a tree cannot perform fails on the machine
too, and nothing but the console has changed. -/
theorem perform_spec (here : p.instruction? i = some instr) (notBegin : instr ≠ .beginLoop)
    (notEnd : instr ≠ .endLoop) :
    match s.perform instr with
    | (.ok (), t) => p.Completes (s.config i) (t.config (i + 1))
    | (.error f, t) =>
      p.Fails (s.config i) (.console f) t.console ∧ (t.config i).engine = (s.config i).engine := by
  obtain ⟨tape, mp, k⟩ := s
  -- each instruction that is no bracket has one rule for every way in which it can come out
  cases instr with
  | increment => exact .increment here
  | decrement => exact .decrement here
  | right => exact .right here
  | left => exact .left here
  | input =>
    simp only [Scene.perform]
    rcases hf : Console.flush w k with ⟨_ | _, k'⟩
    · exact ⟨.flush here hf, rfl⟩
    · rcases hr : Console.read (w := w) k' with ⟨_ | _, k''⟩
      · simp only [hr]
        exact ⟨.read here hf hr, rfl⟩
      · simp only [hr]
        exact .input here hf hr
  | output =>
    simp only [Scene.perform, Scene.currentCell]
    rcases hw : Console.write (tape.get mp) k with ⟨_ | _, k'⟩
    · exact ⟨.write here hw, rfl⟩
    · exact .output here hw
  | beginLoop => exact absurd rfl notBegin
  | endLoop => exact absurd rfl notEnd

theorem completes_of_perform (here : p.instruction? i = some instr) (notBegin : instr ≠ .beginLoop)
    (notEnd : instr ≠ .endLoop) (performed : s.perform instr = (.ok (), t)) :
    p.Completes (s.config i) (t.config (i + 1)) := by
  have hspec := perform_spec (s := s) here notBegin notEnd
  rwa [performed] at hspec

theorem step_of_perform_error (here : p.instruction? i = some instr)
    (notBegin : instr ≠ .beginLoop) (notEnd : instr ≠ .endLoop)
    (performed : s.perform instr = (.error f, t)) :
    p.step (s.config i) = .ended (.error (.console f)) (t.config i) := by
  have hspec := perform_spec (s := s) here notBegin notEnd
  rw [performed] at hspec
  exact step_eq_error_iff.mpr hspec

/-! ## Loops

The machine tests the cell at both brackets of a loop, and the tree only at the first. Here the two
tests are shown to lead to the same place. -/

/-- On a zero cell both brackets of a loop lead behind it, the first by a jump and the second by
going on. -/
theorem completes_of_paired_of_eq (h : p.Paired i m) (zero : s.currentCell = 0) :
    p.Completes (s.config i) (s.config (m + 1)) ∧ p.Completes (s.config m) (s.config (m + 1)) :=
  ⟨.skip h.opens zero h.partner?_start, .leave h.closes zero⟩

/-- On any other cell both lead inside, the first by going on and the second by a jump. -/
theorem completes_of_paired_of_ne (h : p.Paired i m) (nonzero : s.currentCell ≠ 0) :
    p.Completes (s.config i) (s.config (i + 1)) ∧ p.Completes (s.config m) (s.config (i + 1)) :=
  ⟨.enter h.opens nonzero, .again h.closes nonzero h.partner?_stop⟩

/-- **Both brackets** of a loop do the same. A machine that tests the cell at the end of a loop, and
one that goes back to test it at the beginning, cannot be told apart. -/
theorem step_eq_step_of_paired (h : p.Paired i m) :
    p.step (s.config m) = p.step (s.config i) := by
  by_cases hc : s.currentCell = 0
  · obtain ⟨hi, hm⟩ := completes_of_paired_of_eq h hc
    rw [hi.step, hm.step]
  · obtain ⟨hi, hm⟩ := completes_of_paired_of_ne h hc
    rw [hi.step, hm.step]

/-! ## From the tree to the machine -/

/-- What the machine does where running a tree has a result: it goes on behind the tree, or it ends
at the instruction that failed. -/
def Follows (p : Program) (s : Scene κ w) (i j : Nat) : Result → Scene κ w → Prop
  | .completed, t => ∀ outcome u, p.Ends (s.config i) outcome u ↔ p.Ends (t.config j) outcome u
  | .failed pos f, t => p.Ends (s.config i) (.error (.console f)) (t.config pos)

/-- The machine may first come from elsewhere: what it does later is then what follows. -/
theorem Follows.trans {s' : Scene κ w}
    (hends : ∀ outcome u, p.Ends (s.config i) outcome u ↔ p.Ends (s'.config m) outcome u)
    (h : Follows p s' m j r t) : Follows p s i j r t := by
  cases r with
  | completed =>
    intro outcome u
    exact (hends outcome u).trans (h outcome u)
  | failed pos f => exact (hends _ _).mpr h

/-- **Loops**, by induction on how often the body is run. What the body and the rest do is known;
only the derivation of the loop itself is taken apart. -/
theorem follows_loop (hpair : p.Paired i m)
    (hbody : ∀ {s r t}, Derives body s r t → Follows (κ := κ) (w := w) p s (i + 1) m r t)
    (hrest : ∀ {s r t}, Derives rest s r t → Follows (κ := κ) (w := w) p s (m + 1) j r t)
    (h : Derives (.loop body rest) s r t) : Follows p s i j r t := by
  -- the induction needs the tree as a variable, and all derivations but those of loops drop out
  generalize hb : Block.loop body rest = b at h
  induction h with
  | done => cases hb
  | simple => cases hb
  | simpleFailed => cases hb
  | loopSkipped zero after =>
    cases hb
    have hskip := (completes_of_paired_of_eq hpair zero).1
    exact (hrest after).trans fun _ _ => hskip.ends_iff
  | loopRepeated nonzero once again _ ih =>
    cases hb
    have henter := (completes_of_paired_of_ne hpair nonzero).1
    -- after the body the machine is at the end of the loop, and the tree at its beginning
    refine (ih rfl).trans fun outcome u => ?_
    rw [henter.ends_iff, hbody once outcome u]
    exact ends_congr (step_eq_step_of_paired hpair)
  | loopFailed nonzero once =>
    cases hb
    have henter := (completes_of_paired_of_ne hpair nonzero).1
    exact henter.ends_iff.mpr (hbody once)

/-- **From the tree to the machine.** What a tree derives, the machine does where the tree stands.
The induction is on the text of the tree, so that the bodies of loops come with their place. -/
theorem Lies.follows (h : Lies p i b j) :
    ∀ {s : Scene κ w} {r t}, Derives b s r t → Follows p s i j r t := by
  induction h with
  | done =>
    intro s r t hd
    cases hd
    exact fun _ _ => Iff.rfl
  | @comment i j b byte here none _ ih =>
    intro s r t hd
    have hstep : p.Completes (s.config i) (s.config (i + 1)) := .comment here none
    exact (ih hd).trans fun _ _ => hstep.ends_iff
  | simple here notBegin notEnd _ ih =>
    intro s r t hd
    cases hd with
    | simple performed after =>
      have hstep := completes_of_perform here notBegin notEnd performed
      exact (ih after).trans fun _ _ => hstep.ends_iff
    | simpleFailed performed =>
      exact ends_of_step (step_of_perform_error here notBegin notEnd performed)
  | loop opens inside closes _ ihInside ihAfter =>
    intro s r t hd
    exact follows_loop (Lies.paired opens inside closes) ihInside ihAfter hd

/-! ## From the machine to the tree

A run is given, with its number of steps, and a derivation is to be built. The tree may have to
begin a loop again where the machine is already inside it. -/

/-- How a run of at most `n` steps, begun where a tree stands, has come to an end: behind the tree,
or at an instruction of it. Behind the tree it takes `m` more steps, and these are no more than
before. -/
inductive Passes (p : Program) (b : Block) (s : Scene κ w) (j n : Nat) (outcome : Outcome)
    (u : Config κ w) : Prop where
  | behind {t : Scene κ w} {m : Nat} (le : m ≤ n) (derives : Derives b s .completed t)
      (later : p.run m (t.config j) = .ended outcome u)
  | inside {t : Scene κ w} {pos : Nat} {f : Fault} (derives : Derives b s (.failed pos f) t)
      (outcome_eq : outcome = .error (.console f)) (state_eq : u = t.config pos)

/-- A derivation may be continued into one of a larger tree. What has been done before it, in the
larger tree, has taken the steps by which `n` and `n'` differ. -/
theorem Passes.map {b' : Block} {s' : Scene κ w} {n n' : Nat} (h : Passes p b s j n outcome u)
    (hd : ∀ {r t}, Derives b s r t → Derives b' s' r t) (hle : n ≤ n') :
    Passes p b' s' j n' outcome u := by
  cases h with
  | behind le derives later => exact .behind (Nat.le_trans le hle) (hd derives) later
  | inside derives outcome_eq state_eq => exact .inside (hd derives) outcome_eq state_eq

/-- **From the machine to the tree**, by induction on the number of steps. Every step of the machine
is one of the tree, and the tree has come closer to the end of the run when it begins a loop
again. -/
theorem Lies.passes {n : Nat} (h : Lies p i b j) (hn : p.run n (s.config i) = .ended outcome u) :
    Passes p b s j n outcome u := by
  induction n using Nat.strongRecOn generalizing i j b s with
  | ind n ih =>
    cases n with
    | zero => cases hn
    | succ n =>
      cases h with
      | done => exact .behind (Nat.le_refl _) .done hn
      | comment here none after =>
        have hstep : p.Completes (s.config i) (s.config (i + 1)) := .comment here none
        rw [hstep.run_succ] at hn
        exact (ih n (Nat.lt_succ_self n) after hn).map id (Nat.le_succ n)
      | @simple _ _ instr _ here notBegin notEnd after =>
        rcases hp : s.perform instr with ⟨f | _, t⟩
        · rw [run_succ, step_of_perform_error here notBegin notEnd hp] at hn
          cases hn
          exact .inside (.simpleFailed hp) rfl rfl
        · rw [(completes_of_perform here notBegin notEnd hp).run_succ] at hn
          exact (ih n (Nat.lt_succ_self n) after hn).map (.simple hp) (Nat.le_succ n)
      | loop opens inside closes after =>
        have hpair := Lies.paired opens inside closes
        by_cases hc : s.currentCell = 0
        · rw [(completes_of_paired_of_eq hpair hc).1.run_succ] at hn
          exact (ih n (Nat.lt_succ_self n) after hn).map (.loopSkipped hc) (Nat.le_succ n)
        · rw [(completes_of_paired_of_ne hpair hc).1.run_succ] at hn
          cases ih n (Nat.lt_succ_self n) inside hn with
          | inside derives outcome_eq state_eq =>
            exact .inside (.loopFailed hc derives) outcome_eq state_eq
          | @behind t m le derives later =>
            -- at the end of the loop the machine does what it would do at its beginning
            have hagain := run_congr (step_eq_step_of_paired hpair) later
            have hlt : m < n + 1 := Nat.lt_succ_of_le le
            exact (ih m hlt (.loop opens inside closes after) hagain).map (.loopRepeated hc derives)
              (Nat.le_of_lt hlt)

/-! ## Both ways -/

/-- What a tree derives is how the machine ends. Behind the whole tree there is the end of the
program. -/
theorem Lies.ends (h : Lies p 0 b p.size) (hd : Derives b s r t) :
    p.Ends (s.config 0) r.outcome (t.config (r.position p.size)) := by
  have hfollows := h.follows hd
  cases r with
  | completed => exact (hfollows _ _).mpr (ends_of_size_le (Nat.le_refl p.size))
  | failed pos f => exact hfollows

theorem Lies.exists_derives (h : Lies p 0 b p.size) (hends : p.Ends (s.config 0) outcome u) :
    ∃ r t, Derives b s r t ∧ outcome = r.outcome ∧ u = t.config (r.position p.size) := by
  obtain ⟨n, hn⟩ := hends
  cases h.passes hn with
  | @behind t m _ derives later =>
    obtain ⟨rfl, rfl⟩ := Ends.unique ⟨m, later⟩ (ends_of_size_le (Nat.le_refl p.size))
    exact ⟨.completed, t, derives, rfl, rfl⟩
  | inside derives outcome_eq state_eq => exact ⟨_, _, derives, outcome_eq, state_eq⟩

/-- A tree tells everything about the run of a program from its beginning. -/
structure Describes (b : Block) (p : Program) (s : Scene κ w) : Prop where
  /-- the run ends exactly as running the tree does, at the end of the program or at the instruction
  that failed -/
  ends_iff : ∀ outcome u, p.Ends (s.config 0) outcome u ↔
    ∃ r t, Derives b s r t ∧ outcome = r.outcome ∧ u = t.config (r.position p.size)
  /-- which has asked something of the console -/
  failed : ∀ pos f t, Derives b s (.failed pos f) t →
    p.instruction? pos = some .input ∨ p.instruction? pos = some .output
  /-- the run goes on for ever exactly if the tree derives nothing -/
  endless_iff : (∀ n, ∃ u, p.run n (s.config 0) = .running u) ↔ ∀ r t, ¬ Derives b s r t

theorem Lies.describes (h : Lies p 0 b p.size) (s : Scene κ w) : b.Describes p s where
  ends_iff := by
    intro outcome u
    refine ⟨h.exists_derives, ?_⟩
    rintro ⟨r, t, hd, rfl, rfl⟩
    exact h.ends hd
  failed := by
    intro pos f t hd
    obtain ⟨k, -, hf⟩ := ends_error_iff.mp (h.ends hd)
    exact hf.instruction?_of_console
  endless_iff := by
    rw [← forall_not_ends_iff]
    refine ⟨?_, ?_⟩
    · intro hnot r t hd
      exact hnot _ _ (h.ends hd)
    · intro hnot outcome u hends
      -- an ending of the machine would come from something that the tree derives
      obtain ⟨r, t, hd, -, -⟩ := h.exists_derives hends
      exact hnot r t hd

/-- **Trees are faithful.** A balanced program has a tree, which stands in the program with all its
positions. It describes what the machine does on any tape, with any console, and also what the
machine asks of that console. -/
theorem exists_describes (h : p.Balanced) :
    ∃ b, ofProgram? p = some b ∧ Lies p 0 b p.size ∧
      ∀ (w : Nat) (κ : Type) [Console κ w] (s : Scene κ w),
        b.Describes p s ∧ b.Describes p s.recorded := by
  obtain ⟨b, hb⟩ := exists_ofProgram?_iff.mpr h
  have hlies := lies_of_ofProgram? hb
  exact ⟨b, hb, hlies, fun w κ _ s => ⟨hlies.describes s, hlies.describes s.recorded⟩⟩

/-- A loop whose body fails. What comes first is read and begins the loop; then there is nothing
left to read, and the run ends at the instruction inside. -/
theorem exists_describes_inputExhausted :
    Program.Balanced #[44, 91, 44, 93] ∧
      Program.Ends #[44, 91, 44, 93]
        (⟨Engine.initial, ⟨⟨[5]⟩, .empty⟩⟩ : Config (Queue 8 × Collector 8) 8)
        (.error (.console .inputExhausted))
        ⟨⟨Tape.blank.set 0 5, 0, 2⟩, ⟨⟨[]⟩, .empty⟩⟩ := by
  have hbalanced : Program.Balanced #[44, 91, 44, 93] := by decide
  refine ⟨hbalanced, ?_⟩
  obtain ⟨b, hb, -, hdescribes⟩ := exists_describes hbalanced
  obtain rfl : b = .simple 0 .input (.loop (.simple 2 .input .done) .done) :=
    Option.some.inj (hb.symm.trans (by decide))
  obtain ⟨hends, -⟩ := hdescribes 8 (Queue 8 × Collector 8) ⟨Tape.blank, 0, ⟨⟨[5]⟩, .empty⟩⟩
  have hnonzero : (Tape.blank.set 0 5 : Tape 8).get 0 ≠ 0 := by
    rw [Tape.get_set_self]
    decide
  refine (hends.ends_iff _ _).mpr ⟨.failed 2 .inputExhausted,
    ⟨Tape.blank.set 0 5, 0, ⟨⟨[]⟩, .empty⟩⟩, ?_, rfl, rfl⟩
  exact .simple rfl (.loopFailed hnonzero (.simpleFailed rfl))

end TapeMachine.Block
