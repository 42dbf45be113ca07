import Mathlib.Logic.Equiv.Defs
import TapeMachine.Proofs.Engine.Image

/-!
# The symmetries of the tape

The tape is a ring, and no cell of it is the first. A machine whose tape is turned together with its
memory pointer does the same with the tape turned. A machine whose tape is turned over does the same
with a program in which left and right are exchanged. This is `ends_rotated_iff_and_reflected_iff`.

Turning (`Addr.rotation`) and turning over (`Addr.reflection`) rename the addresses, and the tape is
taken along (`Tape.relabelled`). All that is asked of a renaming is that it leads neighbours to
neighbours, in the direction that the program takes then.

Such a renaming is an image of the machine in which cells and console are seen as they are, and
which every state fits. So both symmetries are one lemma about renamings (`ends_relabelled_iff`) and
the arithmetic of the ring.
-/

namespace TapeMachine

variable {κ : Type} {w : Nat}

/-! ## New names for addresses

A renaming is a permutation of the addresses, so no two cells come to the same place and none is
left out. -/

/-- Every address moved along the ring. -/
def Addr.rotation (k : Addr) : Equiv.Perm Addr where
  toFun a := a + k
  invFun a := a - k
  left_inv a := UInt16.add_sub_cancel a k
  right_inv a := UInt16.sub_add_cancel a k

/-- The ring turned over, so that zero comes to `k`. -/
def Addr.reflection (k : Addr) : Equiv.Perm Addr where
  toFun a := k - a
  invFun a := k - a
  left_inv a := by grind
  right_inv a := by grind

namespace Tape

/-- The tape whose cells are found at the new addresses. -/
def relabelled (e : Equiv.Perm Addr) (t : Tape w) : Tape w := ofFn fun a => t.get (e.symm a)

@[simp] theorem get_relabelled (e : Equiv.Perm Addr) (t : Tape w) (a : Addr) :
    (t.relabelled e).get (e a) = t.get a := by
  rw [relabelled, get_ofFn, Equiv.symm_apply_apply]

/-- There is one such tape: a renaming comes to every address. -/
theorem eq_relabelled_iff {e : Equiv.Perm Addr} {t t' : Tape w} :
    t' = t.relabelled e ↔ ∀ a, t'.get (e a) = t.get a := by
  refine ⟨?_, fun h => ext_get fun a => ?_⟩
  · rintro rfl a
    exact get_relabelled e t a
  · obtain ⟨b, rfl⟩ := e.surjective a
    rw [h, get_relabelled]

theorem relabelled_set (e : Equiv.Perm Addr) (t : Tape w) (a : Addr) (c : Cell w) :
    (t.set a c).relabelled e = (t.relabelled e).set (e a) c := by
  refine (eq_relabelled_iff.mpr fun b => ?_).symm
  simp only [get_set, get_relabelled, e.apply_eq_iff_eq]

end Tape

/-- The state with all its addresses renamed. -/
def Config.relabelled (e : Equiv.Perm Addr) (s : Config κ w) : Config κ w :=
  ⟨⟨s.engine.tape.relabelled e, e s.engine.memoryPointer, s.engine.instructionPointer⟩, s.console⟩

/-- The machine is seen with all its addresses renamed. -/
def Image.relabelling (κ : Type) (w : Nat) (e : Equiv.Perm Addr)
    (instruction : Instruction → Instruction) : Image κ κ w w :=
  .ofTape (Tape.relabelled e) e instruction

namespace Program

theorem depicts_reflected (e : Equiv.Perm Addr) (p : Program) :
    (Image.relabelling κ w e Instruction.reflected).Depicts p p.reflected :=
  Image.depicts_map _ p

variable [Console κ w] {p q : Program} {s u' : Config κ w} {outcome : Outcome}
  {e : Equiv.Perm Addr} {instruction : Instruction → Instruction}

/-- **Renaming.** Under new addresses a run ends as it does under the old ones, with a program that
takes the new directions. -/
theorem ends_relabelled_iff (hlawful : (Image.relabelling κ w e instruction).Lawful)
    (hpq : (Image.relabelling κ w e instruction).Depicts p q) :
    q.Ends (s.relabelled e) outcome u' ↔ ∃ u, p.Ends s outcome u ∧ u.relabelled e = u' := by
  let φ := Image.relabelling κ w e instruction
  have hfits : ∀ t, p.Reaches s t → φ.Fits p t := fun _ _ =>
    ⟨Tape.get_relabelled e _ _, fun _ => Tape.relabelled_set e _ _ _, fun _ => Iff.rfl⟩
  have hends : q.Ends (φ.config s) outcome u' ↔ ∃ u, p.Ends s outcome u ∧ φ.config u = u' :=
    Image.ends_config_iff hlawful hpq hfits
  exact hends

/-- Turning leads neighbours to neighbours in the same direction. -/
theorem lawful_rotation (k : Addr) : (Image.relabelling κ w (Addr.rotation k) id).Lawful := by
  refine Image.lawful_ofTape (fun _ => rfl) (fun _ _ => rfl) (fun _ _ => rfl) fun i a => ?_
  change i.moved a + k = i.moved (a + k)
  cases i with
  | right =>
    change a + 1 + k = a + k + 1
    grind
  | left =>
    change a - 1 + k = a + k - 1
    grind
  | _ => rfl

/-- Turning over leads them to neighbours in the other one. -/
theorem lawful_reflection (k : Addr) :
    (Image.relabelling κ w (Addr.reflection k) Instruction.reflected).Lawful := by
  refine Image.lawful_ofTape ?_ ?_ ?_ fun i a => ?_
  · intro i
    cases i <;> rfl
  · intro i hi
    cases i with
    | right => exact absurd rfl hi
    | left => exact absurd rfl hi
    | _ => rfl
  · intro i c
    cases i <;> rfl
  · change k - i.moved a = i.reflected.moved (k - a)
    cases i with
    | right =>
      change k - (a + 1) = k - a - 1
      grind
    | left =>
      change k - (a - 1) = k - a + 1
      grind
    | _ => rfl

/-- **No first cell and no first direction.** Move every cell of the tape `k` addresses on, and the
memory pointer too: the program then ends exactly if it ended before, in the same way, at the same
position and with the console as it was then, and it leaves what it left then, `k` addresses on.

Turn the tape over, so that the cell at `a` comes to `k - a`, and the memory pointer with it: the
same holds of the program with left and right exchanged, and what it leaves is turned over too.

The console can be any, so also one that keeps a list of what it is asked. -/
theorem ends_rotated_iff_and_reflected_iff (p : Program) (s : Config κ w) (k : Addr) :
    (∀ outcome u', p.Ends (s.relabelled (Addr.rotation k)) outcome u' ↔
      ∃ u, p.Ends s outcome u ∧ u.relabelled (Addr.rotation k) = u') ∧
    ∀ outcome u', p.reflected.Ends (s.relabelled (Addr.reflection k)) outcome u' ↔
      ∃ u, p.Ends s outcome u ∧ u.relabelled (Addr.reflection k) = u' := by
  refine ⟨fun outcome u' => ?_, fun outcome u' => ?_⟩
  · exact ends_relabelled_iff (lawful_rotation k) (Image.depicts_self _ rfl p)
  · exact ends_relabelled_iff (lawful_reflection k) (depicts_reflected _ p)

end Program

end TapeMachine
