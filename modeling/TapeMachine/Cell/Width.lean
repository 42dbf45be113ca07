import TapeMachine.Text.Blank

/-!
# Cell widths and their names

The widths a machine can be asked for: four sizes, each signed or unsigned. A width is written as
a letter for the sign and the number of bits (`CellWidth.name`), and read back from that name with
blanks around it and in either letter case (`CellWidth.parse`). Signed widths have names, but no
machine has signed cells. Asking for one is another error than not naming a width at all, so the two
are reported separately.
-/

namespace TapeMachine

/-- The sizes of a cell. -/
inductive WordSize where
  | byte
  | half
  | word
  | double
deriving DecidableEq

namespace WordSize

/-- The number of bits of a cell. -/
def bits : WordSize → Nat
  | byte => 8
  | half => 16
  | word => 32
  | double => 64

/-- All sizes, narrowest first. -/
def all : List WordSize := [byte, half, word, double]

theorem bits_pos (s : WordSize) : 0 < s.bits := by cases s <;> decide

/-- Every cell has room for a byte. -/
theorem eight_le_bits (s : WordSize) : 8 ≤ s.bits := by cases s <;> decide

end WordSize

/-- A size of cells together with a sign. -/
structure CellWidth where
  /-- the size of a cell -/
  size : WordSize
  /-- whether the cells are signed numbers -/
  signed : Bool
deriving DecidableEq

/-- A text that names no cell width. -/
structure UnknownWidth where
  /-- the text exactly as it was given -/
  text : String
deriving DecidableEq

/-- A signed width, for which there is no machine. -/
structure UnsupportedWidth where
  /-- the width that was asked for -/
  width : CellWidth
deriving DecidableEq

namespace CellWidth

/-- The number of bits of a cell. -/
def bits (w : CellWidth) : Nat := w.size.bits

/-- The unsigned width of a size. -/
def unsigned (s : WordSize) : CellWidth := ⟨s, false⟩

/-- The width a machine has when none is asked for: unsigned bytes. -/
def standard : CellWidth := unsigned .byte

/-- All widths, the unsigned ones first. -/
def all : List CellWidth :=
  (WordSize.all.map fun s => ⟨s, false⟩) ++ (WordSize.all.map fun s => ⟨s, true⟩)

/-- The written form of a width: a letter for the sign, then the number of bits. -/
def name (w : CellWidth) : String :=
  (if w.signed then "i" else "u") ++ toString w.bits

/-- Reads a width from its name, with blanks around it and in either letter case. The report on any
other text quotes it as it was given. -/
def parse (text : String) : Except UnknownWidth CellWidth :=
  let folded := (Text.trim text.toList).map Char.toLower
  match all.find? fun w => w.name.toList == folded with
  | some w => .ok w
  | none => .error ⟨text⟩

end CellWidth

/-- The report on a text that names no cell width. -/
def UnknownWidth.message (e : UnknownWidth) : String :=
  "Unknown cell width '" ++ e.text ++ "' (expected one of u8, u16, u32, u64)"

/-- The report on a width for which there is no machine. -/
def UnsupportedWidth.message (e : UnsupportedWidth) : String :=
  "Unsupported cell width " ++ e.width.name ++ ": cells must be unsigned (u8, u16, u32 or u64)"

namespace CellWidth

/-- Every width is listed. -/
theorem mem_all (w : CellWidth) : w ∈ all := by
  rcases w with ⟨_ | _ | _ | _, _ | _⟩ <;> decide

/-- **Names read back.** A width is read from its own name. -/
theorem parse_name (w : CellWidth) : parse w.name = .ok w := by
  rcases w with ⟨_ | _ | _ | _, _ | _⟩ <;> rfl

/-- Different widths have different names. -/
theorem name_injective {v w : CellWidth} (h : v.name = w.name) : v = w :=
  Except.ok.inj (((parse_name v).symm.trans (by rw [h])).trans (parse_name w))

end CellWidth

end TapeMachine
