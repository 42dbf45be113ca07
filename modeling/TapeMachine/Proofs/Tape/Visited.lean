import Mathlib.Data.Set.Insert
import TapeMachine.Input
import TapeMachine.Output
import TapeMachine.Proofs.Engine.Image

/-!
# The cells that a run visits

A run looks at no cell and changes no cell but those to which the memory pointer comes
(`Program.visited`). So it does not matter what the others hold, and they keep it
(`ends_of_agree_on_visited`).

Both are one fact about tapes that are laid over each other (`Tape.overlaid`): the cells that are
visited come from one tape and all others from a second one. What the run makes of the first tape is
seen through the second in the same place (`ends_overlaid`), and a tape laid over itself is nothing
new.

The overlay is an image of the machine. A state fits it if its memory pointer is at one of the given
addresses, which all states of the run do by the choice of these. That the run itself leaves the
other cells alone comes from the same image: laid over the tape that it began with, the run has two
endings, and a run has only one.
-/

namespace TapeMachine

variable {κ : Type} {w : Nat}

/-! ## Tapes over tapes

The upper tape has holes, through which the lower one is seen. -/

namespace Tape

variable (V : Set Addr) [DecidablePred (· ∈ V)] (t u : Tape w)

/-- The cells of one tape at the given addresses, and those of another tape elsewhere. -/
def overlaid : Tape w := ofFn fun a => if a ∈ V then t.get a else u.get a

variable {V t u}

theorem get_overlaid_of_mem {a : Addr} (h : a ∈ V) : (t.overlaid V u).get a = t.get a := by
  rw [overlaid, get_ofFn, if_pos h]

theorem get_overlaid_of_not_mem {a : Addr} (h : a ∉ V) : (t.overlaid V u).get a = u.get a := by
  rw [overlaid, get_ofFn, if_neg h]

/-- Tapes that agree at the given addresses are laid over each other without a trace. -/
theorem overlaid_eq_of_agree (h : ∀ a ∈ V, u.get a = t.get a) : t.overlaid V u = u := by
  refine ext_get fun a => ?_
  by_cases ha : a ∈ V
  · rw [get_overlaid_of_mem ha, h a ha]
  · rw [get_overlaid_of_not_mem ha]

theorem overlaid_set {a : Addr} (h : a ∈ V) (c : Cell w) :
    (t.set a c).overlaid V u = (t.overlaid V u).set a c := by
  refine ext_get fun b => ?_
  rcases eq_or_ne a b with rfl | hne
  · rw [get_overlaid_of_mem h, get_set_self, get_set_self]
  · rw [get_set_of_ne _ c hne]
    by_cases hb : b ∈ V
    · rw [get_overlaid_of_mem hb, get_overlaid_of_mem hb, get_set_of_ne t c hne]
    · rw [get_overlaid_of_not_mem hb, get_overlaid_of_not_mem hb]

end Tape

/-- The machine is seen with other cells at all but the given addresses. -/
def Image.overlay (κ : Type) (V : Set Addr) [DecidablePred (· ∈ V)] (u : Tape w) : Image κ κ w w :=
  .ofTape (Tape.overlaid V · u) id id

namespace Program

variable [Console κ w] {p : Program} {s t : Config κ w} {outcome : Outcome}

/-- The addresses to which the memory pointer comes in a run, the first and the last included. A
cell need not be tested or changed to be visited. -/
def visited (p : Program) (s : Config κ w) : Set Addr :=
  {a | ∃ t, p.Reaches s t ∧ t.engine.memoryPointer = a}

/-- **One more.** A run visits the cell where it begins and whatever it visits afterwards. With this
the set can be computed for a run that ends. -/
theorem visited_of_completes (h : p.Completes s t) :
    p.visited s = insert s.engine.memoryPointer (p.visited t) := by
  refine Set.ext fun a => ⟨?_, ?_⟩
  · rintro ⟨u, hreach, rfl⟩
    rcases hreach.cases_head with rfl | ⟨t', ht', hrest⟩
    · exact Set.mem_insert _ _
    · obtain rfl : t = t' := by
        have hsame := h.step.symm.trans ht'.step
        cases hsame
        rfl
      exact Set.mem_insert_of_mem _ ⟨u, hrest, rfl⟩
  · rintro (rfl | ⟨u, hreach, rfl⟩)
    · exact ⟨s, .refl, rfl⟩
    · exact ⟨u, .head h hreach, rfl⟩

/-- **No more.** A run that is over visits the cell where it is. -/
theorem visited_of_step_eq_ended (h : p.step s = .ended outcome t) :
    p.visited s = {s.engine.memoryPointer} := by
  refine Set.ext fun a => ⟨?_, ?_⟩
  · rintro ⟨u, hreach, rfl⟩
    rcases hreach.cases_head with rfl | ⟨t', ht', -⟩
    · rfl
    · cases h.symm.trans ht'.step
  · rintro rfl
    exact ⟨s, .refl, rfl⟩

/-- **Overlaying.** Whatever the cells hold that are not visited, the run ends in the same way, and
they hold it still. -/
theorem ends_overlaid {V : Set Addr} [DecidablePred (· ∈ V)] (hV : p.visited s ⊆ V) (u : Tape w)
    (h : p.Ends s outcome t) :
    p.Ends ⟨{ s.engine with tape := s.engine.tape.overlaid V u }, s.console⟩ outcome
      ⟨{ t.engine with tape := t.engine.tape.overlaid V u }, t.console⟩ := by
  have hlawful : (Image.overlay κ V u).Lawful :=
    Image.lawful_ofTape (fun _ => rfl) (fun _ _ => rfl) (fun _ _ => rfl) fun _ _ => rfl
  have hfits : ∀ c, p.Reaches s c → (Image.overlay κ V u).Fits p c := by
    intro c hreach
    have hmem : c.engine.memoryPointer ∈ V := hV ⟨c, hreach, rfl⟩
    exact ⟨Tape.get_overlaid_of_mem hmem, fun _ => Tape.overlaid_set hmem _, fun _ => Iff.rfl⟩
  exact (Image.ends_config_iff hlawful (Image.depicts_self _ rfl p) hfits).mpr ⟨t, h, rfl⟩

/-- **Only what is visited.** A run that ends, in whatever way, has changed no cell that it has not
visited. From any other tape that holds the same in the cells visited, it ends too: with the same
outcome, with the pointers and the console as they are here, with the same in the cells visited and
in all others with what that tape held.

The console can be any, so also one that keeps a list of what it is asked. -/
theorem ends_of_agree_on_visited (h : p.Ends s outcome t) :
    (∀ a ∉ p.visited s, t.engine.tape.get a = s.engine.tape.get a) ∧
    ∀ tape : Tape w, (∀ a ∈ p.visited s, tape.get a = s.engine.tape.get a) →
      ∃ tape' : Tape w,
        p.Ends ⟨{ s.engine with tape := tape }, s.console⟩ outcome
          ⟨{ t.engine with tape := tape' }, t.console⟩ ∧
        (∀ a ∈ p.visited s, tape'.get a = t.engine.tape.get a) ∧
        ∀ a ∉ p.visited s, tape'.get a = tape.get a := by
  classical
  have hends : ∀ tape : Tape w, (∀ a ∈ p.visited s, tape.get a = s.engine.tape.get a) →
      p.Ends ⟨{ s.engine with tape := tape }, s.console⟩ outcome
        ⟨{ t.engine with tape := t.engine.tape.overlaid (p.visited s) tape }, t.console⟩ := by
    intro tape hagree
    have hover := ends_overlaid (Set.Subset.refl (p.visited s)) tape h
    rwa [Tape.overlaid_eq_of_agree hagree] at hover
  refine ⟨?_, fun tape hagree => ⟨_, hends tape hagree, ?_, ?_⟩⟩
  · intro a ha
    -- the first tape is one of those that agree with it, and a run has one end
    obtain ⟨-, heq⟩ := h.unique (hends s.engine.tape fun _ _ => rfl)
    rw [heq]
    exact Tape.get_overlaid_of_not_mem ha
  · exact fun a ha => Tape.get_overlaid_of_mem ha
  · exact fun a ha => Tape.get_overlaid_of_not_mem ha

/-- `+[<]` counts up, enters the loop and leaves it left of the first cell, which is the last one.
So it visits these two, and a nine in another cell makes no difference and stays. -/
theorem ends_of_agree_on_visited_wrapping :
    Ends #[43, 91, 60, 93]
        (⟨Engine.initial, ⟨⟨[]⟩, .empty⟩⟩ : Config (Queue 8 × Collector 8) 8) (.ok ())
        ⟨⟨Tape.blank.set 0 (Tape.blank.get 0 + 1), 65535, 4⟩, ⟨⟨[]⟩, .empty⟩⟩ ∧
      (∀ a ∈ visited #[43, 91, 60, 93]
          (⟨Engine.initial, ⟨⟨[]⟩, .empty⟩⟩ : Config (Queue 8 × Collector 8) 8),
        (Tape.blank.set 7 9 : Tape 8).get a = Tape.blank.get a) ∧
      ∃ tape,
        Ends #[43, 91, 60, 93]
          (⟨⟨Tape.blank.set 7 9, 0, 0⟩, ⟨⟨[]⟩, .empty⟩⟩ : Config (Queue 8 × Collector 8) 8)
          (.ok ()) ⟨⟨tape, 65535, 4⟩, ⟨⟨[]⟩, .empty⟩⟩ ∧
        tape.get 0 = 1 ∧ tape.get 7 = 9 := by
  let start : Config (Queue 8 × Collector 8) 8 := ⟨Engine.initial, ⟨⟨[]⟩, .empty⟩⟩
  let one : Tape 8 := Tape.blank.set 0 (Tape.blank.get 0 + 1)
  let nine : Tape 8 := Tape.blank.set 7 9
  have hnonzero : one.get 0 ≠ 0 := by
    rw [Tape.get_set_self, Tape.get_blank]
    decide
  have hzero : one.get (0 - 1) = 0 := by
    rw [Tape.get_set_of_ne _ _ (by decide), Tape.get_blank]
  have hcount : Completes #[43, 91, 60, 93] start ⟨⟨one, 0, 1⟩, start.console⟩ :=
    .increment (by decide)
  have henter : Completes #[43, 91, 60, 93] ⟨⟨one, 0, 1⟩, start.console⟩
      ⟨⟨one, 0, 2⟩, start.console⟩ := .enter (by decide) hnonzero
  have hmove : Completes #[43, 91, 60, 93] ⟨⟨one, 0, 2⟩, start.console⟩
      ⟨⟨one, 0 - 1, 3⟩, start.console⟩ := .left (by decide)
  have hleave : Completes #[43, 91, 60, 93] ⟨⟨one, 0 - 1, 3⟩, start.console⟩
      ⟨⟨one, 0 - 1, 4⟩, start.console⟩ := .leave (by decide) hzero
  have hstop : step #[43, 91, 60, 93] ⟨⟨one, 0 - 1, 4⟩, start.console⟩ =
      .ended (.ok ()) ⟨⟨one, 0 - 1, 4⟩, start.console⟩ := step_of_size_le (by decide)
  have hends : Ends #[43, 91, 60, 93] start (.ok ()) ⟨⟨one, 0 - 1, 4⟩, start.console⟩ := by
    rw [hcount.ends_iff, henter.ends_iff, hmove.ends_iff, hleave.ends_iff]
    exact ends_of_step hstop
  have hvisited : ∀ a, a ∈ visited #[43, 91, 60, 93] start ↔ a = 0 ∨ a = 65535 := by
    intro a
    rw [visited_of_completes hcount, visited_of_completes henter, visited_of_completes hmove,
      visited_of_completes hleave, visited_of_step_eq_ended hstop]
    simp [start, Engine.initial, show (-1 : Addr) = 65535 by decide]
  have hagree : ∀ a ∈ visited #[43, 91, 60, 93] start, nine.get a = start.engine.tape.get a := by
    intro a ha
    refine Tape.get_set_of_ne _ _ ?_
    rcases (hvisited a).mp ha with rfl | rfl
    · decide
    · decide
  obtain ⟨tape, htape, hin, hout⟩ := (ends_of_agree_on_visited hends).2 nine hagree
  refine ⟨hends, hagree, tape, htape, ?_, ?_⟩
  · rw [hin 0 ((hvisited 0).mpr (Or.inl rfl)), Tape.get_set_self, Tape.get_blank]
    rfl
  · rw [hout 7 (mt (hvisited 7).mp (by decide)), Tape.get_set_self]

end Program

end TapeMachine
