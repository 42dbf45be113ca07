import Mathlib.Data.List.DropRight
import Mathlib.Data.List.Induction
import TapeMachine.Proofs.Straight.Effect

/-!
# The history of a tape

A tape is changed by setting one cell, counting it up or counting it down (`Edit`). After any number
of such edits, each cell is what those of that cell have made of it (`Tape.get_editAll`): it counts
from the last value that it was set to (`Edit.foldl_edited`), and whatever has been done to other
cells does not matter. Both are put together in `Tape.editAll_counts`.

The edits of one cell are taken from the end of the list: a value that the cell is set to puts an
end to everything before it, and counting adds to what came out of the others. The balance is an
integer, and only the result is taken modulo `2 ^ w`.
-/

namespace TapeMachine

variable {w : Nat}

/-- What can be done to one cell of a tape. -/
inductive Edit (w : Nat) where
  /-- the cell is replaced -/
  | set (address : Addr) (cell : Cell w)
  /-- it is moved to its next value -/
  | increment (address : Addr)
  /-- it is moved to its previous value -/
  | decrement (address : Addr)
deriving DecidableEq

namespace Edit

/-- Where the cell is. -/
def address : Edit w → Addr
  | set a _ | increment a | decrement a => a

/-- The value that the cell is set to. -/
def cell? : Edit w → Option (Cell w)
  | set _ c => some c
  | increment _ | decrement _ => none

/-- What the edit makes of the value of its cell. -/
def edited (c : Cell w) : Edit w → Cell w
  | set _ d => d
  | increment _ => c + 1
  | decrement _ => c - 1

/-- The edits of the cell at an address. -/
def history (a : Addr) (edits : List (Edit w)) : List (Edit w) := edits.filter (·.address = a)

/-- The last value that the cell is set to. -/
def lastSet? (edits : List (Edit w)) : Option (Cell w) := (edits.filterMap cell?).getLast?

/-- The edits after the last one that sets the cell. -/
def sinceSet (edits : List (Edit w)) : List (Edit w) := edits.rtakeWhile (·.cell?.isNone)

variable {a : Addr} {c : Cell w} {edit : Edit w} {edits : List (Edit w)}

/-! ## The edits of one cell

The last edit that sets the cell divides its history. What came before is forgotten, and what comes
after is counted. -/

theorem lastSet?_concat_set (edits : List (Edit w)) (a : Addr) (c : Cell w) :
    lastSet? (edits ++ [set a c]) = some c := by
  rw [lastSet?, List.filterMap_append]
  exact List.getLast?_concat

theorem sinceSet_concat_set (edits : List (Edit w)) (a : Addr) (c : Cell w) :
    sinceSet (edits ++ [set a c]) = [] :=
  List.rtakeWhile_concat_neg _ _ _ Bool.false_ne_true

theorem lastSet?_concat_of_none (h : edit.cell? = none) (edits : List (Edit w)) :
    lastSet? (edits ++ [edit]) = lastSet? edits := by
  rw [lastSet?, List.filterMap_append, List.filterMap_cons_none h]
  exact congrArg List.getLast? (List.append_nil _)

theorem sinceSet_concat_of_none (h : edit.cell? = none) (edits : List (Edit w)) :
    sinceSet (edits ++ [edit]) = sinceSet edits ++ [edit] :=
  List.rtakeWhile_concat_pos _ _ _ (by rw [h]; rfl)

/-- How much more the cell at the address is counted up than down after it has been set for the last
time. -/
def balance (a : Addr) (edits : List (Edit w)) : Int :=
  (sinceSet edits).count (increment a) - (sinceSet edits).count (decrement a)

theorem balance_concat_set (edits : List (Edit w)) (a b : Addr) (c : Cell w) :
    balance a (edits ++ [set b c]) = 0 := by
  rw [balance, sinceSet_concat_set]
  rfl

theorem balance_concat_increment (edits : List (Edit w)) (a : Addr) :
    balance a (edits ++ [increment a]) = balance a edits + 1 := by
  have hup : [increment (w := w) a].count (increment a) = 1 := List.count_singleton_self
  have hdown : [increment (w := w) a].count (decrement a) = 0 := List.count_eq_zero.mpr (by simp)
  rw [balance, balance, sinceSet_concat_of_none rfl, List.count_append, List.count_append, hup,
    hdown]
  omega

theorem balance_concat_decrement (edits : List (Edit w)) (a : Addr) :
    balance a (edits ++ [decrement a]) = balance a edits - 1 := by
  have hup : [decrement (w := w) a].count (increment a) = 0 := List.count_eq_zero.mpr (by simp)
  have hdown : [decrement (w := w) a].count (decrement a) = 1 := List.count_singleton_self
  rw [balance, balance, sinceSet_concat_of_none rfl, List.count_append, List.count_append, hup,
    hdown]
  omega

/-- **Counting.** Edits of one cell count from the last value that they set it to. -/
theorem foldl_edited (h : ∀ edit ∈ edits, edit.address = a) (c : Cell w) :
    edits.foldl edited c = (lastSet? edits).getD c + BitVec.ofInt w (balance a edits) := by
  -- the last edit is done to what the others have made of the cell
  induction edits using List.reverseRecOn with
  | nil =>
    change c = c + BitVec.ofInt w 0
    rw [Cell.ofInt_zero]
    exact (BitVec.add_zero c).symm
  | append_singleton edits edit ih =>
    have hedits := ih fun e he => h e (List.mem_append_left _ he)
    have hedit : edit.address = a := h edit (List.mem_append_right _ List.mem_cons_self)
    rw [List.foldl_append, List.foldl_cons, List.foldl_nil, hedits]
    cases edit with
    | set b d =>
      rw [lastSet?_concat_set, balance_concat_set, Cell.ofInt_zero]
      exact (BitVec.add_zero d).symm
    | increment b =>
      cases hedit
      rw [lastSet?_concat_of_none rfl, address, balance_concat_increment, BitVec.ofInt_add,
        Cell.ofInt_one, ← BitVec.add_assoc, edited]
    | decrement b =>
      cases hedit
      rw [lastSet?_concat_of_none rfl, address, balance_concat_decrement, Int.sub_eq_add_neg,
        BitVec.ofInt_add, BitVec.ofInt_neg, Cell.ofInt_one, ← BitVec.add_assoc,
        ← BitVec.sub_eq_add_neg, edited]

end Edit

namespace Tape

variable {t : Tape w} {edits edits' : List (Edit w)}

/-- The tape after one edit. -/
def edit (t : Tape w) : Edit w → Tape w
  | .set a c => t.set a c
  | .increment a => t.increment a
  | .decrement a => t.decrement a

/-- The tape after edits in a row. -/
def editAll (t : Tape w) (edits : List (Edit w)) : Tape w := edits.foldl edit t

/-- **One edit** changes its cell and no other. -/
theorem get_edit (t : Tape w) (e : Edit w) (a : Addr) :
    (t.edit e).get a = if e.address = a then e.edited (t.get a) else t.get a := by
  cases e with
  | set b c => exact get_set t b a c
  | increment b =>
    rw [edit, get_increment, Cell.succ_eq_add_one]
    rfl
  | decrement b =>
    rw [edit, get_decrement, Cell.pred_eq_sub_one]
    rfl

/-- **Many edits.** A cell is what the edits of it have made of it, as if there were no others. -/
theorem get_editAll (t : Tape w) (edits : List (Edit w)) (a : Addr) :
    (t.editAll edits).get a = (Edit.history a edits).foldl Edit.edited (t.get a) := by
  induction edits generalizing t with
  | nil => rfl
  | cons e edits ih =>
    have hrest := ih (t.edit e)
    rw [get_edit] at hrest
    rw [editAll, List.foldl_cons, ← editAll, hrest, Edit.history, Edit.history]
    by_cases he : e.address = a
    · rw [if_pos he, List.filter_cons_of_pos (by simpa using he), List.foldl_cons]
    · rw [if_neg he, List.filter_cons_of_neg (by simpa using he)]

/-- **In any order.** Edits of different cells can be done in any order, as long as those of each
cell keep theirs. -/
theorem editAll_congr (h : ∀ a, Edit.history a edits = Edit.history a edits') :
    t.editAll edits = t.editAll edits' :=
  ext_get fun a => by rw [get_editAll, get_editAll, h]

/-- **Counting.** A cell is the last value that it was set to, or the one that it had, and what has
been counted since, modulo `2 ^ w`. -/
theorem toNat_get_editAll (t : Tape w) (edits : List (Edit w)) (a : Addr) :
    (((t.editAll edits).get a).toNat : Int) =
      ((((Edit.lastSet? (Edit.history a edits)).getD (t.get a)).toNat : Int) +
        Edit.balance a (Edit.history a edits)) % 2 ^ w := by
  have hhistory : ∀ e ∈ Edit.history a edits, e.address = a := fun e he => by
    simpa using (List.mem_filter.mp he).2
  rw [get_editAll, Edit.foldl_edited hhistory, Cell.toNat_add_ofInt]

theorem getElem?_toCells (t : Tape w) (a : Addr) : t.toCells[a.toNat]? = some (t.get a) := by
  simp [toCells, get]

theorem exists_ofCells_eq_ok_iff {cs : Array (Cell w)} :
    (∃ t, ofCells cs = .ok t) ↔ cs.size = 65536 := by
  refine ⟨?_, fun h => ?_⟩
  · rintro ⟨t, ht⟩
    rw [ofCells_eq_ok_iff.mp ht]
    exact size_toCells t
  · exact ⟨_, dif_pos h⟩

/-- **A ring of counters.** There is a tape of the given cells exactly if there are 65536 of them;
it holds them in address order and gives them back. The tape of zeros holds zeros.

After any number of edits of any tape there are still 65536 cells. Each is the last value that it
was set to, or the one that it had to begin with, plus one for every time that it has been counted
up since, and minus one for every time that it has been counted down, modulo `2 ^ w`. Edits that are
the same for every cell make the same tape, however those of different cells are mixed. And the tape
is blank exactly if each address holds zero. -/
theorem editAll_counts :
    (∀ cs : Array (Cell w),
      ((∃ t, ofCells cs = .ok t) ↔ cs.size = 65536) ∧
      ∀ t, ofCells cs = .ok t → t.toCells = cs ∧ ∀ a : Addr, cs[a.toNat]? = some (t.get a)) ∧
    (∀ a, (blank : Tape w).get a = 0) ∧
    ∀ (t : Tape w) (edits : List (Edit w)),
      (t.editAll edits).toCells.size = 65536 ∧
      (∀ a, (((t.editAll edits).get a).toNat : Int) =
        ((((Edit.lastSet? (Edit.history a edits)).getD (t.get a)).toNat : Int) +
          Edit.balance a (Edit.history a edits)) % 2 ^ w) ∧
      (∀ edits', (∀ a, Edit.history a edits = Edit.history a edits') →
        t.editAll edits = t.editAll edits') ∧
      ((t.editAll edits).isBlank ↔ ∀ a, (t.editAll edits).get a = 0) := by
  refine ⟨fun cs => ⟨exists_ofCells_eq_ok_iff, fun t ht => ?_⟩, get_blank, fun t edits =>
    ⟨size_toCells _, toNat_get_editAll t edits, fun edits' => editAll_congr, isBlank_iff _⟩⟩
  obtain rfl := ofCells_eq_ok_iff.mp ht
  exact ⟨rfl, getElem?_toCells t⟩

end Tape

end TapeMachine
