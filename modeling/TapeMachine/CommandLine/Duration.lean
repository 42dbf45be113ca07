/-!
# Lengths of time

A length of time is shown in the largest unit of which it has at least one, with as many decimals
as it takes to be exact.
-/

namespace TapeMachine.CommandLine.Duration

/-- The units with their lengths in nanoseconds and the number of decimals that are exact in them,
the largest first. -/
def units : List (String × Nat × Nat) :=
  [("s", 1000000000, 9), ("ms", 1000000, 6), ("µs", 1000, 3)]

/-- A fraction of a unit as decimals after a point, without zeros at the end. -/
def fraction (places rest : Nat) : String :=
  let digits := (toString rest).toList.leftpad places '0'
  let kept := (digits.reverse.dropWhile (· = '0')).reverse
  if kept.isEmpty then "" else "." ++ String.ofList kept

/-- The text of a length of time, given in nanoseconds. -/
def text (nanoseconds : Nat) : String :=
  match units.find? fun (_, length, _) => length ≤ nanoseconds with
  | some (unit, length, places) =>
    toString (nanoseconds / length) ++ fraction places (nanoseconds % length) ++ unit
  | none => toString nanoseconds ++ "ns"

end TapeMachine.CommandLine.Duration
