import TapeMachine.Cell
import TapeMachine.Fault

/-!
# Consoles

What a running machine asks of its surroundings. A console is a state with three requests: make
earlier output visible (`flush`), give one cell (`read`) and take one cell (`write`). Every request
answers with a value or a fault, and leaves the console in a new state either way; nothing else is
assumed of it.

* `Source`, `Sink` — the two halves; a pair of one of each is a console;
* `Source.readMany`, `Sink.performAll` — many requests in a row, which go on after a fault;
* `Recorder` — a console that passes every request on and keeps a list of them with their answers.
  What it asks of the console inside is what would have been asked without it.
-/

namespace TapeMachine

/-- Where the values of the input instruction come from. -/
class Source (ι : Type) (w : Nat) where
  /-- gives one cell -/
  read : ι → Except Fault (Cell w) × ι

/-- Where the values of the output instruction go. -/
class Sink (ο : Type) (w : Nat) where
  /-- takes one cell -/
  write : Cell w → ο → Except Fault Unit × ο
  /-- makes earlier output visible -/
  flush : ο → Except Fault Unit × ο

/-- The surroundings of a running machine with cells of `w` bits. -/
class Console (κ : Type) (w : Nat) where
  /-- makes earlier output visible -/
  flush : κ → Except Fault Unit × κ
  /-- gives one cell -/
  read : κ → Except Fault (Cell w) × κ
  /-- takes one cell -/
  write : Cell w → κ → Except Fault Unit × κ

variable {ι ο κ : Type} {w : Nat}

/-- A source and a sink side by side are a console. -/
instance [Source ι w] [Sink ο w] : Console (ι × ο) w where
  flush | (i, o) => let (r, o) := Sink.flush w o; (r, i, o)
  read | (i, o) => let (r, i) := Source.read i; (r, i, o)
  write | c, (i, o) => let (r, o) := Sink.write c o; (r, i, o)

/-! ## Many requests -/

/-- The answers to `n` reads in a row. -/
def Source.readMany [Source ι w] : (n : Nat) → ι → List (Except Fault (Cell w)) × ι
  | 0, i => ([], i)
  | n + 1, i =>
    let (answer, i) := Source.read i
    let (answers, i) := readMany n i
    (answer :: answers, i)

/-- What can be asked of a sink. -/
inductive SinkRequest (w : Nat) where
  /-- take a cell -/
  | write (cell : Cell w)
  /-- make earlier output visible -/
  | flush
deriving DecidableEq

/-- The answer of a sink to a request. -/
def Sink.perform [Sink ο w] (o : ο) : SinkRequest w → Except Fault Unit × ο
  | .write c => Sink.write c o
  | .flush => Sink.flush w o

/-- The answers of a sink to requests in a row. -/
def Sink.performAll [Sink ο w] (o : ο) : List (SinkRequest w) → List (Except Fault Unit) × ο
  | [] => ([], o)
  | r :: rs =>
    let (answer, o) := Sink.perform o r
    let (answers, o) := performAll o rs
    (answer :: answers, o)

/-! ## Recording

A recorder is a console itself, so nothing that is said about consoles has to be said again about
recorded ones. -/

/-- A request together with its answer. -/
inductive Call (w : Nat) where
  | flush (answer : Except Fault Unit)
  | read (answer : Except Fault (Cell w))
  | write (cell : Cell w) (answer : Except Fault Unit)

/-- A console that keeps a list of the requests it passes on. -/
structure Recorder (κ : Type) (w : Nat) where
  /-- the console that answers the requests -/
  console : κ
  /-- the requests so far, the earliest first -/
  calls : Array (Call w)

namespace Recorder

/-- A console of which nothing has been asked yet. -/
def start (k : κ) : Recorder κ w := ⟨k, #[]⟩

instance [Console κ w] : Console (Recorder κ w) w where
  flush k :=
    let (r, c) := Console.flush w k.console
    (r, ⟨c, k.calls.push (.flush r)⟩)
  read k :=
    let (r, c) := Console.read k.console
    (r, ⟨c, k.calls.push (.read r)⟩)
  write c k :=
    let (r, d) := Console.write c k.console
    (r, ⟨d, k.calls.push (.write c r)⟩)

end Recorder

end TapeMachine
