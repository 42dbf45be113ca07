import TapeMachine.CommandLine.Diagnostic
import TapeMachine.CommandLine.Duration
import TapeMachine.CommandLine.Loading
import TapeMachine.CommandLine.Reader
import TapeMachine.CommandLine.Terminal

/-!
# Uses of the command line

One use of the program from its arguments to its exit. The machine is built first, then the program
is loaded, then it runs. A run that succeeds is followed by a newline and, if asked for, by the time
it took; all that was written is delivered in any case.

`execute` is a whole use. The standard input is threaded through it: what the loader leaves of it is
what the running program reads. Three parts of the program are not its own and come as a `Platform`:
the library that reads the command line, the one that shows log records, and the system's files.
What is particular to one use is its `Environment`.
-/

namespace TapeMachine.CommandLine

/-- What a use of the program leaves behind. -/
structure Report where
  /-- the exit code -/
  code : Nat
  /-- what the standard output has taken -/
  output : Array UInt8
  /-- what was written to the standard error -/
  diagnostics : String
deriving DecidableEq

/-- What the program relies on and does not define. -/
structure Platform where
  /-- reads the words of a command line: what they ask for, or the end of the program at once, with
  a complaint or with some help -/
  parse : List String → Except Report Options
  /-- how a log record is shown, if it is -/
  logged : LogRecord → String
  /-- reads a file -/
  readAll : FileReader

/-- What the program finds when it is used. -/
structure Environment where
  /-- the standard input -/
  input : Stream
  /-- whether the standard output has no space -/
  outputFull : Bool
  /-- what the stopwatch shows at the end, in nanoseconds -/
  elapsed : Nat

/-- What follows the output of a run that succeeded: a newline and, if it was timed, the time. -/
def epilogue (o : Options) (elapsed : Nat) : List UInt8 :=
  Text.newline ::
    (if o.stopwatch then ("Elapsed time: " ++ Duration.text elapsed ++ "\n").toUTF8.toList else [])

/-- Ends a use after its run: the epilogue if the run succeeded, or the reason why the program
fails. -/
def conclude (o : Options) (elapsed : Nat) (outcome : Outcome) (t : Terminal) :
    Except ProgramError Unit × Terminal :=
  match outcome with
  | .error f => (.error (.failure f), t)
  | .ok () =>
    match t.putAll (epilogue o elapsed) with
    | (.error e, t) => (.error (.io e), t)
    | (.ok (), t) =>
      let (answer, t) := t.flush
      (answer.mapError .io, t)

/-- The exit code of a program that failed. -/
def failureCode : Nat := 1

/-- The end of a program that has written its output and these records. -/
def Report.ofResult (logged : LogRecord → String) (records : List LogRecord)
    (result : Except ProgramError Unit) (t : Terminal) : Report :=
  let lines := String.join (records.map logged)
  match result with
  | .ok () => ⟨0, t.close, lines⟩
  | .error e => ⟨failureCode, t.close, lines ++ e.line⟩

/-- A whole use of the program with the given arguments, in at most `steps` steps. It is `none` if
they did not suffice. -/
def execute (platform : Platform) (env : Environment) (args : List String) (steps : Nat) :
    Option Report :=
  match platform.parse args with
  | .error report => some report
  | .ok o =>
    let terminal := Terminal.empty env.outputFull
    let fail (e : ProgramError) := Report.ofResult platform.logged [] (.error e) terminal
    match Machine.ofSettings o.settings with
    | .error e => some (fail (.unsupportedWidth e))
    | .ok m =>
      match load o platform.readAll env.input with
      | .error e => some (fail (.io e))
      | .ok l =>
        match m.run l.program steps (Reader.ofStream o.lineInput l.input, terminal) with
        | .running _ => none
        | .ended outcome (m', _, t) =>
          let (result, t) := conclude o env.elapsed outcome t
          let records := [l.record, m.startRecord l.program, m'.endRecord outcome]
          some (.ofResult platform.logged records result t)

end TapeMachine.CommandLine
