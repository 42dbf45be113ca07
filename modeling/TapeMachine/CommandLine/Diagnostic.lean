import TapeMachine.Cell.Width
import TapeMachine.Engine.Basic

/-!
# Diagnostics

How the command line reports what went wrong. An error that ends the program is shown in full
detail: every cause stands within what it is the cause of, under its own name and with all that it
holds. This is not the wording of `Failure.message` and its like, which is made for a reader who
wants to know what has happened; here one who looks for a mistake sees the error as it is built.
-/

namespace TapeMachine.CommandLine

/-- Why the program failed. -/
inductive ProgramError where
  /-- a file or a standard stream failed -/
  | io (error : IoError)
  /-- there is no machine with the width that was asked for -/
  | unsupportedWidth (error : UnsupportedWidth)
  /-- the run failed -/
  | failure (failure : Failure)
deriving DecidableEq

/-- A case of something, with what it holds. -/
def detail (name contents : String) : String := name ++ "(" ++ contents ++ ")"

/-- A case of something, with named contents. -/
def detailRecord (name : String) (fields : List (String × String)) : String :=
  let contents := ", ".intercalate (fields.map fun (key, value) => key ++ ": " ++ value)
  name ++ " \x7b " ++ contents ++ " \x7d"

/-- An input/output error in full detail. -/
def ioDetail : IoError → String
  | .plain kind => detail "Kind" kind.name
  | .described kind text =>
    detailRecord "Custom" [("kind", kind.name), ("error", text.quote)]
  | .system e =>
    detailRecord "Os"
      [("code", toString e.code), ("kind", e.kind.name), ("message", e.text.quote)]

/-- A fault of the console in full detail. -/
def faultDetail : Fault → String
  | .inputExhausted => "InputExhausted"
  | .io e => detail "Io" (ioDetail e)

/-- A bracket without a partner in full detail. -/
def bracketDetail (e : UnmatchedBracket) : String :=
  detailRecord "UnmatchedBracket"
    [("position", toString e.position),
     ("direction", match e.direction with | .forward => "Forward" | .backward => "Backward")]

/-- A failed run in full detail. -/
def failureDetail : Failure → String
  | .unmatchedBracket e => detail "UnmatchedBracket" (bracketDetail e)
  | .console f => detail "CallbackFailure" (faultDetail f)

/-- Why the program failed, in full detail. -/
def ProgramError.detail : ProgramError → String
  | io e => CommandLine.detail "IoError" (ioDetail e)
  | unsupportedWidth e =>
    CommandLine.detail "ConfigError"
      (CommandLine.detail "UnsupportedCellWidth" (e.width.name.map Char.toUpper))
  | failure e => CommandLine.detail "ExecutionError" (failureDetail e)

/-- The line that ends a failed program. -/
def ProgramError.line (e : ProgramError) : String := "Error: " ++ e.detail ++ "\n"

end TapeMachine.CommandLine
