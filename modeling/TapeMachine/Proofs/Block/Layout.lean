import TapeMachine.Block
import TapeMachine.Proofs.Bracket.Pair

/-!
# Trees in the text

Where a tree stands in a program. `Block.Lies p i b j` says that the text of `p` from `i` up to `j`
is that of the tree `b`, with comments anywhere. The brackets of a loop are a pair then, and the
whole stretch is balanced.

The reader of trees goes through the program from its end and keeps the trees of all open loops.
They stand one after another in the rest of the text (`Block.LieFrom`), each ended by a bracket
that closes a loop, and there is one more of them than the text has such brackets left over. So the
programs that have a tree are the balanced ones (`exists_ofProgram?_iff`), and the tree stands in
the text (`lies_of_ofProgram?`).

The induction is on the rest of the text (`ofBytes_spec`). Its invariant ties the number of trees to
the excess of the brackets, so that the reader gives up exactly where the excess of the rest is
positive. That cannot be in a balanced program, and a program with one tree left at the beginning is
balanced.
-/

namespace TapeMachine.Block

open Program

variable {p : Program} {i j m pos : Nat} {b body rest : Block} {blocks blocks' : List Block}

/-! ## Where a tree stands

The relation has one rule for each kind of tree, and one more for comments, which the tree does not
show. -/

/-- The text from one position up to another is that of a tree. -/
inductive Lies (p : Program) : Nat → Block → Nat → Prop where
  | done {i : Nat} : Lies p i .done i
  /-- comments may stand before everything -/
  | comment {i j : Nat} {b : Block} {byte : UInt8} (here : p[i]? = some byte)
      (none : Instruction.ofByte? byte = none) (after : Lies p (i + 1) b j) : Lies p i b j
  | simple {i j : Nat} {instr : Instruction} {rest : Block} (here : p.instruction? i = some instr)
      (notBegin : instr ≠ .beginLoop) (notEnd : instr ≠ .endLoop)
      (after : Lies p (i + 1) rest j) : Lies p i (.simple i instr rest) j
  | loop {i m j : Nat} {body rest : Block} (opens : p.instruction? i = some .beginLoop)
      (inside : Lies p (i + 1) body m) (closes : p.instruction? m = some .endLoop)
      (after : Lies p (m + 1) rest j) : Lies p i (.loop body rest) j

theorem instruction?_of_comment {byte : UInt8} (here : p[i]? = some byte)
    (none : Instruction.ofByte? byte = none) : p.instruction? i = .none := by
  rw [instruction?, here, Option.bind_some, none]

/-- The text of a tree is balanced. Everything in it is, and a loop closes what it opens. -/
theorem Lies.balancedBetween (h : Lies p i b j) : p.BalancedBetween i j := by
  induction h with
  | done => exact BalancedBetween.refl p _
  | comment here none _ ih =>
    have hno := instruction?_of_comment here none
    refine (BalancedBetween.of_byte (bracketAt_of_ne ?_ ?_)).trans ih
    · simp [hno]
    · simp [hno]
  | simple here notBegin notEnd _ ih =>
    refine (BalancedBetween.of_byte (bracketAt_of_ne ?_ ?_)).trans ih
    · simpa [here] using notBegin
    · simpa [here] using notEnd
  | loop opens _ closes _ ihInside ihAfter =>
    exact (Paired.balancedBetween ⟨opens, closes, ihInside⟩).trans ihAfter

/-- The brackets of a loop belong together, as there is a balanced stretch between them. -/
theorem Lies.paired (opens : p.instruction? i = some .beginLoop) (inside : Lies p (i + 1) body m)
    (closes : p.instruction? m = some .endLoop) : p.Paired i m :=
  ⟨opens, closes, inside.balancedBetween⟩

/-! ## Reading from the end

The reader works on a list of trees. `LieFrom` says where all of them stand, and is the invariant of
the reading. -/

/-- Trees stand one after another up to the end of the program, with a closing bracket after each
but the last. -/
inductive LieFrom (p : Program) : Nat → List Block → Prop where
  | last {i : Nat} {b : Block} (whole : Lies p i b p.size) : LieFrom p i [b]
  | cons {i m : Nat} {b : Block} {blocks : List Block} (first : Lies p i b m)
      (closes : p.instruction? m = some .endLoop) (after : LieFrom p (m + 1) blocks) :
      LieFrom p i (b :: blocks)

/-- There is always a first tree, that which the next byte is put in front of. -/
theorem LieFrom.exists_cons (h : LieFrom p i blocks) : ∃ b outer, blocks = b :: outer := by
  cases h with
  | last => exact ⟨_, _, rfl⟩
  | cons => exact ⟨_, _, rfl⟩

/-- The first of the trees can be replaced by one that stands further left. The others do not
notice. -/
theorem LieFrom.map_head {b' : Block} (h : LieFrom p i (b :: blocks))
    (hb : ∀ k, Lies p i b k → Lies p j b' k) : LieFrom p j (b' :: blocks) := by
  cases h with
  | last whole => exact .last (hb _ whole)
  | cons first closes after => exact .cons (hb _ first) closes after

/-- **One more byte.** The reader goes on with trees that stand in the text from that byte on, one
fewer after an opening bracket and one more after a closing one; unless the byte opens a bracket
and only one tree is left. -/
theorem LieFrom.addByte_cases {byte : UInt8} (h : LieFrom p (pos + 1) blocks)
    (here : p[pos]? = some byte) :
    (∃ blocks', addByte pos byte blocks = some blocks' ∧ LieFrom p pos blocks' ∧
      (blocks'.length : Int) = blocks.length - p.bracketAt pos) ∨
    (addByte pos byte blocks = none ∧ p.bracketAt pos = 1 ∧ blocks.length = 1) := by
  obtain ⟨b, outer, rfl⟩ := h.exists_cons
  -- one case for each branch of `addByte`
  cases hi : Instruction.ofByte? byte with
  | none =>
    have hno := instruction?_of_comment here hi
    have hbyte : p.bracketAt pos = 0 := bracketAt_of_ne (by simp [hno]) (by simp [hno])
    exact Or.inl ⟨_, addByte_comment hi, h.map_head fun k => .comment here hi, by omega⟩
  | some instr =>
    have hinstr : p.instruction? pos = some instr := by
      rw [instruction?, here, Option.bind_some, hi]
    by_cases he : instr = .endLoop
    · -- the tree of the loop that is closed here begins, with nothing in it
      subst he
      have hbyte := bracketAt_endLoop hinstr
      refine Or.inl ⟨_, addByte_endLoop hi, .cons .done hinstr h, ?_⟩
      rw [List.length_cons]
      omega
    by_cases hb : instr = .beginLoop
    · -- the first tree is the body of a loop, and the second is what follows it
      subst hb
      have hbyte := bracketAt_beginLoop hinstr
      cases h with
      | last whole => exact Or.inr ⟨addByte_beginLoop_singleton hi, hbyte, rfl⟩
      | cons first closes after =>
        obtain ⟨rest, outer, rfl⟩ := after.exists_cons
        refine Or.inl ⟨_, addByte_beginLoop hi,
          after.map_head fun k => .loop hinstr first closes, ?_⟩
        simp only [List.length_cons]
        omega
    · have hbyte : p.bracketAt pos = 0 :=
        bracketAt_of_ne (by simpa [hinstr] using hb) (by simpa [hinstr] using he)
      refine Or.inl ⟨_, addByte_simple hi hb he, h.map_head fun k => .simple hinstr hb he, ?_⟩
      simp only [List.length_cons]
      omega

/-- **The reader**, from a position on, ends up with one tree more than there are brackets left
over that close a loop; it gives up only where brackets are left over that open one. -/
theorem ofBytes_spec (p : Program) (bytes : List UInt8) {pos : Nat} (hpos : pos ≤ p.size)
    (hbytes : p.toList.drop pos = bytes) :
    match ofBytes pos bytes with
    | some blocks => LieFrom p pos blocks ∧ (blocks.length : Int) = 1 - p.excess pos p.size
    | none => ∃ k, k ≤ p.size ∧ 0 < p.excess k p.size := by
  induction bytes generalizing pos with
  | nil =>
    have hend : pos = p.size := by
      have := List.drop_eq_nil_iff.mp hbytes
      rw [Array.length_toList] at this
      omega
    subst hend
    refine ⟨.last .done, ?_⟩
    rw [excess_self]
    rfl
  | cons byte bytes ih =>
    have here : p[pos]? = some byte := by
      rw [← Array.getElem?_toList, ← List.head?_drop, hbytes, List.head?_cons]
    have hlt := (Array.getElem?_eq_some_iff.mp here).1
    have hrest : p.toList.drop (pos + 1) = bytes := by
      rw [← List.tail_drop, hbytes, List.tail_cons]
    have ih := ih (show pos + 1 ≤ p.size from hlt) hrest
    rw [ofBytes]
    cases hblocks : ofBytes (pos + 1) bytes with
    | none =>
      -- the reader has given up further behind
      rw [hblocks] at ih
      exact ih
    | some blocks =>
      rw [hblocks] at ih
      obtain ⟨hlie, hlen⟩ := ih
      have hsum := excess_eq_add p hlt
      rw [Option.bind_some]
      obtain ⟨blocks', hadd, hlie', hlen'⟩ | ⟨hadd, hone, hsingle⟩ := hlie.addByte_cases here
      · rw [hadd]
        exact ⟨hlie', by omega⟩
      · rw [hadd]
        exact ⟨pos, hpos, by omega⟩

/-- A tree that was read stands in the text, from its beginning to its end. -/
theorem lies_of_ofProgram? (h : ofProgram? p = some b) : Lies p 0 b p.size := by
  have hspec := ofBytes_spec p p.toList (Nat.zero_le p.size) List.drop_zero
  unfold ofProgram? at h
  cases hblocks : ofBytes 0 p.toList with
  | none =>
    rw [hblocks] at h
    cases h
  | some blocks =>
    rw [hblocks] at h hspec
    obtain ⟨hlie, -⟩ := hspec
    cases hlie with
    | last whole =>
      cases h
      exact whole
    | cons first closes after =>
      -- with a second tree the reader has no result
      obtain ⟨b', outer, rfl⟩ := after.exists_cons
      cases h

/-- **Balanced programs** are those that have a tree. In one direction the text of the tree is
balanced, in the other the reader cannot give up and has one tree left. -/
theorem exists_ofProgram?_iff : (∃ b, ofProgram? p = some b) ↔ p.Balanced := by
  refine ⟨?_, ?_⟩
  · rintro ⟨b, hb⟩
    exact balanced_iff.mpr (lies_of_ofProgram? hb).balancedBetween
  · intro h
    have hspec := ofBytes_spec p p.toList (Nat.zero_le p.size) List.drop_zero
    unfold ofProgram?
    cases hblocks : ofBytes 0 p.toList with
    | none =>
      rw [hblocks] at hspec
      -- what the end opens, the beginning would have to close
      obtain ⟨k, hk, hpos⟩ := hspec
      have hbelow := h.1 k hk
      have hsplit := excess_add p (Nat.zero_le k) hk
      rw [h.2] at hsplit
      omega
    | some blocks =>
      rw [hblocks] at hspec
      obtain ⟨-, hlen⟩ := hspec
      rw [h.2] at hlen
      obtain ⟨b, rfl⟩ := List.length_eq_one_iff.mp (show blocks.length = 1 by omega)
      exact ⟨b, rfl⟩

end TapeMachine.Block
