import TapeMachine.Program

/-!
# Matching all brackets in one pass

The usual way to pair brackets: walk through the program once, put every opening bracket on a stack
and let every closing bracket take the topmost. A closing bracket that finds the stack empty has no
partner, nor has an opening bracket that is never taken.

This is not how programs are run. It is the specification that the scans are measured by: it looks
at every instruction once and from left to right, it has no direction and no depth, and what a
bracket's partner is can be read off its result for all brackets together.
-/

namespace TapeMachine

/-- How far the pairing has come. -/
structure Matcher where
  /-- the opening brackets that have not been closed, the innermost first -/
  opened : List Nat := []
  /-- the pairs so far, the latest first -/
  pairs : List (Nat × Nat) := []
deriving DecidableEq

namespace Matcher

/-- Takes the next instruction of the program. -/
def feed (m : Matcher) : Nat × Instruction → Matcher
  | (pos, .beginLoop) => { m with opened := pos :: m.opened }
  | (pos, .endLoop) =>
    match m.opened with
    | [] => m
    | start :: outer => ⟨outer, (start, pos) :: m.pairs⟩
  | _ => m

/-- The partner of a bracket in the pairs so far. -/
def partner? (m : Matcher) (pos : Nat) : Option Nat :=
  m.pairs.findSome? fun (start, stop) =>
    if start = pos then some stop else if stop = pos then some start else none

end Matcher

namespace Program

/-- The pairing of all brackets of a program. -/
def matcher (p : Program) : Matcher := p.instructions.foldl Matcher.feed {}

/-- The partner of the bracket at a position. -/
def partner? (p : Program) (pos : Nat) : Option Nat := p.matcher.partner? pos

end Program

end TapeMachine
