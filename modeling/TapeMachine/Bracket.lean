import TapeMachine.Program

/-!
# Partners of brackets

A loop is closed by the partner of the bracket that opens it. Nothing is matched in advance: a
partner is looked for when a jump needs it, by a scan that starts next to a bracket and keeps count
of the brackets opened since.

* `Program.closeFrom`, `Program.openBefore` — the two scans, to the right and to the left;
* `Program.matchForward`, `Program.matchBackward` — the partner of the bracket at a position, or
  the report that it has none.

The byte at the position itself is never looked at, so a scan may start anywhere, also outside the
program: to the right there is nothing then, and to the left a scan that starts beyond the end
gives up at once.
-/

namespace TapeMachine

/-- The two directions in which a partner can be looked for. -/
inductive Direction where
  | forward
  | backward
deriving DecidableEq

/-- A bracket that has no partner. -/
structure UnmatchedBracket where
  /-- where the bracket stands -/
  position : Nat
  /-- in which direction its partner was looked for -/
  direction : Direction
deriving DecidableEq

/-- The report on a bracket that has no partner. -/
def UnmatchedBracket.message (e : UnmatchedBracket) : String :=
  "Unmatched bracket: " ++
    (match e.direction with
      | .forward => "no matching ] after the [ at"
      | .backward => "no matching [ before the ] at") ++
    " offset " ++ toString e.position

namespace Program

/-- The first position from `pos` on whose bracket closes one more than were opened on the way,
when `nested` are already open inside the one to be closed. -/
def closeFrom (p : Program) (nested pos : Nat) : Option Nat :=
  if _h : pos < p.size then
    match Instruction.ofByte? p[pos] with
    | some .beginLoop => closeFrom p (nested + 1) (pos + 1)
    | some .endLoop =>
      match nested with
      | 0 => some pos
      | n + 1 => closeFrom p n (pos + 1)
    | _ => closeFrom p nested (pos + 1)
  else none
termination_by p.size - pos

/-- The last position before `pos` whose bracket opens one more than were closed on the way, when
`nested` are already closed inside the one to be opened. -/
def openBefore (p : Program) (nested : Nat) : Nat → Option Nat
  | 0 => none
  | pos + 1 =>
    match p[pos]? with
    -- the scan began beyond the end of the program
    | none => none
    | some b =>
      match Instruction.ofByte? b with
      | some .endLoop => openBefore p (nested + 1) pos
      | some .beginLoop =>
        match nested with
        | 0 => some pos
        | n + 1 => openBefore p n pos
      | _ => openBefore p nested pos

/-- The partner of an opening bracket at `start`: the bracket to the right that closes it. -/
def matchForward (p : Program) (start : Nat) : Except UnmatchedBracket Nat :=
  match closeFrom p 0 (start + 1) with
  | some pos => .ok pos
  | none => .error ⟨start, .forward⟩

/-- The partner of a closing bracket at `start`: the bracket to the left that opens it. -/
def matchBackward (p : Program) (start : Nat) : Except UnmatchedBracket Nat :=
  match openBefore p 0 start with
  | some pos => .ok pos
  | none => .error ⟨start, .backward⟩

/-! ## Where a partner can be

Both scans answer with a position on their own side of the start, at which a bracket of the other
kind stands. This much follows from the recursion alone, with no regard to how deep the scan has
been. What the depth has to do with the answer is said in terms of sums of brackets elsewhere. -/

/-- A scan to the right ends inside the program, at a closing bracket, no earlier than it began. -/
theorem closeFrom_eq_some {p : Program} {nested pos found : Nat}
    (h : closeFrom p nested pos = some found) :
    pos ≤ found ∧ p.instruction? found = some .endLoop := by
  fun_induction closeFrom p nested pos with
  | case1 nested pos _ hb ih =>
    obtain ⟨hle, hf⟩ := ih h
    exact ⟨by omega, hf⟩
  | case2 pos hpos hb =>
    cases h
    exact ⟨Nat.le_refl _, by simp [instruction?, hpos, hb]⟩
  | case3 pos _ hb n ih =>
    obtain ⟨hle, hf⟩ := ih h
    exact ⟨by omega, hf⟩
  | case4 nested pos _ _ _ ih =>
    obtain ⟨hle, hf⟩ := ih h
    exact ⟨by omega, hf⟩
  | case5 => cases h

/-- A scan to the left ends at an opening bracket before the place where it began. -/
theorem openBefore_eq_some {p : Program} {nested pos found : Nat}
    (h : openBefore p nested pos = some found) :
    found < pos ∧ p.instruction? found = some .beginLoop := by
  fun_induction openBefore p nested pos with
  | case1 => cases h
  | case2 => cases h
  | case3 nested pos b hb hi ih =>
    obtain ⟨hlt, hf⟩ := ih h
    exact ⟨by omega, hf⟩
  | case4 pos b hb hi =>
    cases h
    exact ⟨by omega, by simp [instruction?, hb, hi]⟩
  | case5 pos b hb hi n ih =>
    obtain ⟨hlt, hf⟩ := ih h
    exact ⟨by omega, hf⟩
  | case6 nested pos b hb _ _ ih =>
    obtain ⟨hlt, hf⟩ := ih h
    exact ⟨by omega, hf⟩

theorem matchForward_eq_ok_iff {p : Program} {start pos : Nat} :
    p.matchForward start = .ok pos ↔ closeFrom p 0 (start + 1) = some pos := by
  unfold matchForward
  split <;> simp_all

theorem matchBackward_eq_ok_iff {p : Program} {start pos : Nat} :
    p.matchBackward start = .ok pos ↔ openBefore p 0 start = some pos := by
  unfold matchBackward
  split <;> simp_all

/-- Nothing lies to the left of the start. -/
@[simp] theorem matchBackward_zero (p : Program) :
    p.matchBackward 0 = .error ⟨0, .backward⟩ := rfl

end Program

end TapeMachine
