import TapeMachine.Cell

/-!
# The tape

A ring of 65536 cells. Addresses are 16-bit words, so a step right of the last cell leads to the
first and a step left of the first to the last; every address names a cell and nothing can point
outside the tape.

The view of a tape is `Tape.get`: two tapes are equal when all their cells are (`Tape.ext_get`), and
each operation is described by what it does to that view (`get_set`, `get_increment`,
`get_decrement`, `get_blank`, `get_ofFn`, `get_map`). Proofs about tapes go through the view: two
tapes are compared address by address, and how the cells are stored does not matter.
-/

namespace TapeMachine

/-- An address of the tape, with arithmetic modulo 65536. -/
abbrev Addr := UInt16

/-- A ring of 65536 cells of `w` bits each. -/
structure Tape (w : Nat) where
  /-- the cells in address order -/
  cells : Vector (Cell w) 65536
deriving DecidableEq

/-- A list of cells whose number is not that of a tape. -/
structure WrongLength where
  /-- how many cells there were -/
  length : Nat
deriving DecidableEq

/-- The report on a list of cells that cannot be made a tape. -/
def WrongLength.message (e : WrongLength) : String :=
  "Tape must have exactly 65536 cells, got " ++ toString e.length

namespace Tape

variable {w : Nat}

/-- The number of cells of every tape. -/
def length : Nat := 65536

/-- The tape of zeros. -/
def blank : Tape w := ⟨Vector.replicate 65536 0⟩

/-- The cell at an address. -/
@[inline] def get (t : Tape w) (a : Addr) : Cell w :=
  have : a.toNat < 65536 := a.toNat_lt
  t.cells[a.toNat]

/-- The tape with one cell replaced. -/
@[inline] def set (t : Tape w) (a : Addr) (c : Cell w) : Tape w :=
  ⟨t.cells.set a.toNat c a.toNat_lt⟩

/-- The tape with one cell moved to its next value. -/
@[inline] def increment (t : Tape w) (a : Addr) : Tape w := t.set a (t.get a).succ

/-- The tape with one cell moved to its previous value. -/
@[inline] def decrement (t : Tape w) (a : Addr) : Tape w := t.set a (t.get a).pred

/-- The tape with a given cell at each address. -/
def ofFn (f : Addr → Cell w) : Tape w := ⟨Vector.ofFn fun i => f (UInt16.ofNat i)⟩

/-- The tape with a function applied to each cell. -/
def map {v : Nat} (f : Cell w → Cell v) (t : Tape w) : Tape v := ⟨t.cells.map f⟩

/-- Whether all cells are zero. -/
def isBlank (t : Tape w) : Bool := t.cells.all (· == 0)

/-- The cells of the tape in address order. -/
def toCells (t : Tape w) : Array (Cell w) := t.cells.toArray

/-- The tape with the given cells, of which there must be exactly 65536. -/
def ofCells (cs : Array (Cell w)) : Except WrongLength (Tape w) :=
  if h : cs.size = 65536 then .ok ⟨⟨cs, h⟩⟩ else .error ⟨cs.size⟩

/-! ## The view of a tape -/

/-- Tapes are equal when all their cells are. -/
theorem ext_get {t u : Tape w} (h : ∀ a, t.get a = u.get a) : t = u := by
  obtain ⟨t⟩ := t
  obtain ⟨u⟩ := u
  congr 1
  refine Vector.ext fun i hi => ?_
  have := h (UInt16.ofNat i)
  simpa [get, Nat.mod_eq_of_lt hi] using this

@[simp] theorem get_blank (a : Addr) : (blank : Tape w).get a = 0 := by simp [blank, get]

@[simp] theorem get_ofFn (f : Addr → Cell w) (a : Addr) : (ofFn f).get a = f a := by
  simp [ofFn, get]

theorem get_set (t : Tape w) (a b : Addr) (c : Cell w) :
    (t.set a c).get b = if a = b then c else t.get b := by
  simp [get, set, Vector.getElem_set, UInt16.toNat_inj]

@[simp] theorem get_set_self (t : Tape w) (a : Addr) (c : Cell w) : (t.set a c).get a = c := by
  simp [get_set]

theorem get_set_of_ne (t : Tape w) {a b : Addr} (c : Cell w) (h : a ≠ b) :
    (t.set a c).get b = t.get b := by
  simp [get_set, h]

@[simp] theorem get_map {v : Nat} (f : Cell w → Cell v) (t : Tape w) (a : Addr) :
    (t.map f).get a = f (t.get a) := by
  simp [map, get]

/-- A cell can be replaced before the function is applied or after it. This is what makes a map of
the cells commute with every instruction that writes one. -/
theorem map_set {v : Nat} (f : Cell w → Cell v) (t : Tape w) (a : Addr) (c : Cell w) :
    (t.set a c).map f = (t.map f).set a (f c) := by
  refine ext_get fun b => ?_
  rw [get_map, get_set, get_set, get_map]
  split
  · rfl
  · rfl

/-- A cell that is replaced by itself changes nothing. -/
@[simp] theorem set_get_self (t : Tape w) (a : Addr) : t.set a (t.get a) = t := by
  refine ext_get fun b => ?_
  rw [get_set]
  split
  · next h => rw [h]
  · rfl

theorem get_increment (t : Tape w) (a b : Addr) :
    (t.increment a).get b = if a = b then (t.get b).succ else t.get b := by
  by_cases h : a = b <;> simp [increment, get_set, h]

theorem get_decrement (t : Tape w) (a b : Addr) :
    (t.decrement a).get b = if a = b then (t.get b).pred else t.get b := by
  by_cases h : a = b <;> simp [decrement, get_set, h]

/-- A tape is blank exactly when every address holds zero. -/
theorem isBlank_iff (t : Tape w) : t.isBlank ↔ ∀ a, t.get a = 0 := by
  constructor
  · intro h a
    have : a.toNat < 65536 := a.toNat_lt
    simpa [get] using (Vector.all_eq_true.mp h) a.toNat this
  · intro h
    refine Vector.all_eq_true.mpr fun i hi => ?_
    have := h (UInt16.ofNat i)
    simpa [get, Nat.mod_eq_of_lt hi] using this

/-! ## Tapes and lists of cells

A tape can be taken apart into its cells and put together again. That is an equivalence between
tapes and those lists whose length is right, and nothing else is ever refused. -/

@[simp] theorem size_toCells (t : Tape w) : t.toCells.size = length := t.cells.size_toArray

@[simp] theorem ofCells_toCells (t : Tape w) : ofCells t.toCells = .ok t := by
  simp [ofCells, toCells]

/-- A list of cells becomes a tape exactly when it is the list of that tape's cells. -/
theorem ofCells_eq_ok_iff {cs : Array (Cell w)} {t : Tape w} :
    ofCells cs = .ok t ↔ cs = t.toCells := by
  constructor
  · intro h
    unfold ofCells at h
    split at h
    · cases h
      rfl
    · cases h
  · rintro rfl
    exact ofCells_toCells t

/-- The only fault of a list of cells is its length, which the report names. -/
theorem ofCells_eq_error_iff {cs : Array (Cell w)} {e : WrongLength} :
    ofCells cs = .error e ↔ cs.size ≠ length ∧ e = ⟨cs.size⟩ := by
  unfold ofCells length
  split <;> simp_all [eq_comm]

end Tape

end TapeMachine
