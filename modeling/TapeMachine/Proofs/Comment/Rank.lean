import TapeMachine.Program.Transform
import TapeMachine.Proofs.Bracket.Numbering

/-!
# The places of instructions without the comments

`Program.rank` numbers the positions of a program by how many instructions stand before them. It
goes on by one behind an instruction and stays where it is behind a comment (`rank_succ_of_some`,
`rank_succ_of_none`), so different instructions have different ranks.

The program without its comments has at every rank the instruction of that rank
(`instruction?_stripped`) and so the same instructions in the same order (`instructions_stripped`),
with the same partners (`partner?_stripped`).

Everything is read off the list of instructions before a position, which grows by one element at an
instruction and not at all at a comment. The rank is its length, and the program without comments is
the list for the whole program.
-/

namespace TapeMachine.Program

variable {p : Program} {pos pos' : Nat} {i : Instruction}

/-! ## The instructions up to a position -/

/-- The instructions before a position in order, each with its own. -/
def instructionsBefore (p : Program) (pos : Nat) : List (Nat × Instruction) :=
  (List.range pos).filterMap fun q => (p.instruction? q).map (q, ·)

theorem instructionsBefore_size (p : Program) : p.instructionsBefore p.size = p.instructions := rfl

theorem instructionsBefore_succ_of_some (h : p.instruction? pos = some i) :
    p.instructionsBefore (pos + 1) = p.instructionsBefore pos ++ [(pos, i)] := by
  rw [instructionsBefore, List.range_succ, List.filterMap_append, ← instructionsBefore]
  simp only [List.filterMap_cons, List.filterMap_nil, h, Option.map_some]

theorem instructionsBefore_succ_of_none (h : p.instruction? pos = none) :
    p.instructionsBefore (pos + 1) = p.instructionsBefore pos := by
  rw [instructionsBefore, List.range_succ, List.filterMap_append, ← instructionsBefore]
  simp only [List.filterMap_cons, List.filterMap_nil, h, Option.map_none, List.append_nil]

theorem instruction?_of_size_le (h : p.size ≤ pos) : p.instruction? pos = none := by
  rw [instruction?, Array.getElem?_eq_none h, Option.bind_none]

theorem instructionsBefore_of_size_le (h : p.size ≤ pos) :
    p.instructionsBefore pos = p.instructions := by
  induction pos, h using Nat.le_induction with
  | base => rfl
  | succ pos hle ih => rw [instructionsBefore_succ_of_none (instruction?_of_size_le hle), ih]

theorem instructionsBefore_prefix_of_le (p : Program) (h : pos ≤ pos') :
    p.instructionsBefore pos <+: p.instructionsBefore pos' := by
  induction pos', h using Nat.le_induction with
  | base => exact List.prefix_rfl
  | succ pos' _ ih =>
    cases hi : p.instruction? pos' with
    | none => rwa [instructionsBefore_succ_of_none hi]
    | some i =>
      rw [instructionsBefore_succ_of_some hi]
      exact ih.trans (List.prefix_append _ _)

/-- An instruction stands behind those before it. -/
theorem exists_instructions_eq (h : p.instruction? pos = some i) :
    ∃ after, p.instructions = p.instructionsBefore pos ++ (pos, i) :: after := by
  have hlt : pos + 1 ≤ p.size := lt_size_of_instruction? h
  have hprefix := instructionsBefore_prefix_of_le p hlt
  rw [instructionsBefore_succ_of_some h, instructionsBefore_size] at hprefix
  obtain ⟨after, hafter⟩ := hprefix
  refine ⟨after, ?_⟩
  rw [← hafter, List.append_assoc, List.singleton_append]

/-! ## Ranks

The rank is defined by counting among all instructions. For going from one position to the next, the
length of the list of those before it is handier. -/

/-- Those before two positions are those before the lower one. The rank is defined by such a choice
from all instructions. -/
theorem filter_instructionsBefore (p : Program) (pos n : Nat) :
    (p.instructionsBefore n).filter (fun (q, _) => q < pos) = p.instructionsBefore (min n pos) := by
  induction n with
  | zero =>
    rw [Nat.zero_min, instructionsBefore, List.range_zero, List.filterMap_nil, List.filter_nil]
  | succ n ih =>
    rcases Nat.lt_or_ge n pos with hlt | hge
    · rw [Nat.min_eq_left (Nat.le_of_lt hlt)] at ih
      rw [Nat.min_eq_left (show n + 1 ≤ pos from hlt)]
      cases hi : p.instruction? n with
      | none => rw [instructionsBefore_succ_of_none hi, ih]
      | some i =>
        rw [instructionsBefore_succ_of_some hi, List.filter_append, ih]
        simp [hlt]
    -- from `pos` on the filter takes no more
    · rw [Nat.min_eq_right hge] at ih
      rw [Nat.min_eq_right (Nat.le_succ_of_le hge)]
      cases hi : p.instruction? n with
      | none => rw [instructionsBefore_succ_of_none hi, ih]
      | some i =>
        rw [instructionsBefore_succ_of_some hi, List.filter_append, ih]
        simp [Nat.not_lt_of_le hge]

/-- The rank counts what stands before. From here on it is worked with in this form. -/
theorem rank_eq_length (p : Program) (pos : Nat) :
    p.rank pos = (p.instructionsBefore pos).length := by
  rw [rank, ← instructionsBefore_size, filter_instructionsBefore]
  rcases Nat.le_total p.size pos with hle | hle
  · rw [Nat.min_eq_left hle, instructionsBefore_of_size_le hle, instructionsBefore_size]
  · rw [Nat.min_eq_right hle]

theorem rank_zero (p : Program) : p.rank 0 = 0 := rank_eq_length p 0

theorem rank_succ_of_some (h : p.instruction? pos = some i) :
    p.rank (pos + 1) = p.rank pos + 1 := by
  rw [rank_eq_length, rank_eq_length, instructionsBefore_succ_of_some h, List.length_append,
    List.length_singleton]

theorem rank_succ_of_none (h : p.instruction? pos = none) : p.rank (pos + 1) = p.rank pos := by
  rw [rank_eq_length, rank_eq_length, instructionsBefore_succ_of_none h]

theorem rank_le_rank (p : Program) (h : pos ≤ pos') : p.rank pos ≤ p.rank pos' := by
  rw [rank_eq_length, rank_eq_length]
  exact (instructionsBefore_prefix_of_le p h).length_le

/-- What comes behind an instruction has a higher rank. -/
theorem rank_lt_rank (h : p.instruction? pos = some i) (hlt : pos < pos') :
    p.rank pos < p.rank pos' := by
  have := rank_le_rank p hlt
  rwa [rank_succ_of_some h] at this

/-- Different instructions have different ranks. This is not so for comments, which have the rank of
the next instruction. -/
theorem rank_injective {pos pos' : Nat} {i i' : Instruction} (h : p.instruction? pos = some i)
    (h' : p.instruction? pos' = some i') (heq : p.rank pos = p.rank pos') : pos = pos' := by
  rcases Nat.lt_trichotomy pos pos' with hlt | rfl | hgt
  · exact absurd heq (Nat.ne_of_lt (rank_lt_rank h hlt))
  · rfl
  · exact absurd heq.symm (Nat.ne_of_lt (rank_lt_rank h' hgt))

/-! ## The program without its comments -/

/-- Behind the end the rank is the length of the program without its comments. -/
theorem rank_of_size_le (h : p.size ≤ pos) : p.rank pos = p.stripped.size := by
  rw [rank_eq_length, instructionsBefore_of_size_le h, stripped, List.size_toArray, List.length_map]

/-- **At the rank** of an instruction stands this instruction: as many stand before it there as have
been counted here. -/
theorem instruction?_stripped (h : p.instruction? pos = some i) :
    p.stripped.instruction? (p.rank pos) = some i := by
  obtain ⟨after, hafter⟩ := exists_instructions_eq h
  have hbyte : p.stripped[p.rank pos]? = some i.toByte := by
    rw [stripped, hafter, List.getElem?_toArray, rank_eq_length, List.map_append, List.map_cons,
      List.getElem?_append_right (Nat.le_of_eq (List.length_map _)), List.length_map, Nat.sub_self,
      List.getElem?_cons_zero]
  rw [instruction?, hbyte, Option.bind_some, Instruction.ofByte?_toByte]

/-- The instructions are the same and in the same order, each at its rank. -/
theorem instructions_stripped (p : Program) :
    p.stripped.instructions = p.instructions.map (Prod.map p.rank id) := by
  have hbefore : ∀ pos, p.stripped.instructionsBefore (p.rank pos) =
      (p.instructionsBefore pos).map (Prod.map p.rank id) := by
    intro pos
    -- on the position, which adds the same instruction to both lists or none to either
    induction pos with
    | zero => rw [rank_zero]; rfl
    | succ pos ih =>
      cases hi : p.instruction? pos with
      | none => rw [rank_succ_of_none hi, ih, instructionsBefore_succ_of_none hi]
      | some i =>
        rw [rank_succ_of_some hi, instructionsBefore_succ_of_some (instruction?_stripped hi), ih,
          instructionsBefore_succ_of_some hi, List.map_append]
        rfl
  have hall := hbefore p.size
  rwa [rank_of_size_le (Nat.le_refl _), instructionsBefore_size, instructionsBefore_size] at hall

/-- The partners are the same. A stack does not see positions, only which brackets come after which.
-/
theorem partner?_stripped (h : p.instruction? pos = some i) :
    p.stripped.partner? (p.rank pos) = (p.partner? pos).map p.rank :=
  partner?_of_brackets_eq_map (brackets_of_instructions_eq_map (instructions_stripped p))
    fun hj _ heq => rank_injective hj h heq

end TapeMachine.Program
