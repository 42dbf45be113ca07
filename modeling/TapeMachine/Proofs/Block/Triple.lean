import TapeMachine.Proofs.Block.Refinement

/-!
# What a tree achieves

Total correctness for trees. `Block.Achieves b P Q` says that running `b` from any scene with `P`
ends well, in a scene with `Q`. There is one rule for each kind of tree. The rule for loops takes an
invariant over what is still to be done, a list of which every round does the first element; so the
loop ends when the list does.

What the tree of a program achieves, the machine achieves (`Achieves.exists_ends`).

A list serves better than a number as a measure here: the programs that are proved in this way work
through the bytes of their input, and what is still to be done is the rest of them. The invariant
then says what the machine looks like when so much is left.
-/

namespace TapeMachine.Block

variable {κ : Type} {w : Nat} [Console κ w] {P Q R : Scene κ w → Prop} {body rest : Block}
  {i : Instruction} {pos : Nat}

/-- The instruction is answered by the console, and leads from `P` to `Q`. -/
def Performs (i : Instruction) (P Q : Scene κ w → Prop) : Prop :=
  ∀ s, P s → ∃ t, s.perform i = (.ok (), t) ∧ Q t

/-- Running the tree ends well, and leads from `P` to `Q`. -/
def Achieves (b : Block) (P Q : Scene κ w → Prop) : Prop :=
  ∀ s, P s → ∃ t, Derives b s .completed t ∧ Q t

namespace Achieves

/-- Nothing leads nowhere, but what is known may be weakened. -/
theorem done (h : ∀ s, P s → Q s) : Achieves .done P Q := fun s hs => ⟨s, .done, h s hs⟩

/-- **One after another.** What the first instruction leads to is where the others begin. -/
theorem simple (hfirst : Performs i P R) (hrest : Achieves rest R Q) :
    Achieves (.simple pos i rest) P Q := by
  intro s hs
  obtain ⟨t, hperform, ht⟩ := hfirst s hs
  obtain ⟨u, hderives, hu⟩ := hrest t ht
  exact ⟨u, .simple hperform hderives, hu⟩

/-- **Loops.** If there is something left to do, the current cell is not zero and the body does the
first of it. If there is nothing left, the cell is zero and the loop is over. -/
theorem loop {α : Type} {I : List α → Scene κ w → Prop}
    (hzero : ∀ s, I [] s → s.currentCell = 0)
    (hnonzero : ∀ x l s, I (x :: l) s → s.currentCell ≠ 0)
    (hbody : ∀ x l, Achieves body (I (x :: l)) (I l)) (hrest : Achieves rest (I []) Q)
    (l : List α) : Achieves (.loop body rest) (I l) Q := by
  -- each element is one more round
  induction l with
  | nil =>
    intro s hs
    obtain ⟨u, hderives, hu⟩ := hrest s hs
    exact ⟨u, .loopSkipped (hzero s hs) hderives, hu⟩
  | cons x l ih =>
    intro s hs
    obtain ⟨t, honce, ht⟩ := hbody x l s hs
    obtain ⟨u, hagain, hu⟩ := ih t ht
    exact ⟨u, .loopRepeated (hnonzero x l s hs) honce hagain, hu⟩

/-- **The machine** achieves what the tree of its program achieves, from the beginning of the
program to its end. So no step of the machine is looked at in such a proof. -/
theorem exists_ends {p : Program} {b : Block} {s : Scene κ w} (h : Achieves b P Q)
    (hb : ofProgram? p = some b) (hs : P s) :
    ∃ t, p.Ends (s.config 0) (.ok ()) (t.config p.size) ∧ Q t := by
  obtain ⟨t, hderives, ht⟩ := h s hs
  exact ⟨t, (lies_of_ofProgram? hb).ends hderives, ht⟩

end Achieves

end TapeMachine.Block
