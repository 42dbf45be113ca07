import TapeMachine.Machine

/-!
# Options of the command line

What a command line asks for once it has been understood. Which words stand for which option, which
of them exclude each other and what is said about a wrong command line is decided by a library for
command lines, and the program sees no more of it than these options (`Platform.parse`).
-/

namespace TapeMachine.CommandLine

/-- What a command line asks for. -/
structure Options where
  /-- the file that holds the program -/
  inputFile : Option String := none
  /-- whether the program is read from the standard input instead -/
  interactive : Bool := false
  /-- the width of the cells -/
  cellWidth : CellWidth := .standard
  /-- whether the program's input is read line by line -/
  lineInput : Bool := false
  /-- whether the run is timed -/
  stopwatch : Bool := false
  /-- the address of the first current cell -/
  memoryPointer : Addr := 0
  /-- the position of the first byte to be run -/
  instructionPointer : Nat := 0
deriving DecidableEq

/-- What the machine is built from. -/
def Options.settings (o : Options) : Settings where
  width := o.cellWidth
  memoryPointer := o.memoryPointer
  instructionPointer := o.instructionPointer

end TapeMachine.CommandLine
