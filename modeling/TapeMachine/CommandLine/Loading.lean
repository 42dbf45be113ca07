import TapeMachine.CommandLine.Options
import TapeMachine.Input.Stream
import TapeMachine.Program

/-!
# Loading programs

The program comes from a file, or it is the first line of the standard input, its newline included.
In the second case a file that is named all the same is not looked at.

There is one standard input, and the loader and the program that it loads are both its readers. So
loading takes the stream as it is and gives back what it has left of it. That is all of the stream
when the program is in a file that has nothing to do with it; the rest after a line when that line
is the program; and nothing at all when the path of the file leads back to the standard input
itself. What a path leads to is for the system to say, and `FileReader` leaves it open.
-/

namespace TapeMachine.CommandLine

/-- Reads the whole file at a path: what it holds, or why it cannot be read, and what is left of the
standard input, which the path may lead to. -/
abbrev FileReader := String → Stream → Except IoError Program × Stream

/-- A program that has been loaded. -/
structure Loaded where
  /-- the program -/
  program : Program
  /-- what is left of the standard input -/
  input : Stream
  /-- the record of the loading -/
  record : LogRecord

/-- The program of a file. -/
def loadFile (readAll : FileReader) (path : String) (input : Stream) : Except IoError Loaded :=
  match readAll path input with
  | (.error e, _) => .error e
  | (.ok contents, input) =>
    .ok ⟨contents, input, .info, .program, "program loaded",
      [("path", path), ("len", toString contents.size)]⟩

/-- The program that is the first line of the standard input, its newline included. -/
def loadLine (input : Stream) : Except IoError Loaded :=
  match input.nextLine [] with
  | (.error e, _, _) => .error e
  | (.ok (), line, input) =>
    .ok ⟨line.toArray, input, .info, .program, "program read from standard input",
      [("len", toString line.length)]⟩

/-- The file that holds the program, unless the program is read from the standard input. -/
def Options.programFile? (o : Options) : Option String :=
  if o.interactive then none else o.inputFile

/-- Loads the program that the options ask for. -/
def load (o : Options) (readAll : FileReader) (input : Stream) : Except IoError Loaded :=
  match o.programFile? with
  | some path => loadFile readAll path input
  | none => loadLine input

end TapeMachine.CommandLine
