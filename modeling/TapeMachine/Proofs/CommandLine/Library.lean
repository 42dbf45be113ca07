import TapeMachine.CommandLine.Report
import TapeMachine.Output
import TapeMachine.Proofs.Input.Bytes
import TapeMachine.Proofs.Input.Lines

/-!
# The command line and the machine

A use of the command line amounts to one run of a machine that is built from the settings. What the
machine is given is told by `Use.Supplied`: the program is a file and its input is what that file
leaves of the standard input, or the program is the first line of the standard input and its input
is the rest. What the machine writes and how its run ends tell everything that can be seen from
outside (`visible`): the output with its newline, and the exit code.

The argument goes along the way of the bytes.

* The standard input is a stream that may arrive in any chunks and with any interruptions; that it
  stands for certain bytes is `Stream.Holds`. Loading a line splits these bytes after the first
  newline (`Holds.nextLine_of_newline`, `Holds.nextLine_of_not_mem`), and the stream that is left
  holds what comes after it, wherever the chunks are cut.
* The machine of the command line goes on with that very stream. It is compared with a machine that
  has the bytes as a stream of its own: the two readers see the same tokens, and so they answer
  alike.
* The command line writes to a line-buffered `Terminal`. It answers like a device that takes every
  byte, and what it has delivered or still holds is what that device has taken (`Terminal.Sends`).
  So both runs take the same steps (`sentAlike_run`), and nothing is lost when the output is
  closed (`visible_conclude`).

The parser of command lines and the reader of files are those of any `Platform`. Of the parser it is
only assumed that it accepts the arguments of the use, and of a file nothing at all, unless it is to
have nothing to do with the standard input (`Platform.Stores`).
-/

namespace TapeMachine

/-! ## Runs on bytes -/

/-- How a run has ended and which bytes it has written, if it has ended. -/
def Progress.written? {μ ι : Type} : Progress (μ × ι × ByteWriter) → Option (Outcome × Array UInt8)
  | .running _ => none
  | .ended outcome (_, _, o) => some (outcome, o.written)

/-- How the run of a machine ends and which bytes it writes, if it ends in so many steps. The input
is read one byte or one line at a time. -/
def Machine.bytesRun (m : Machine) (lineInput : Bool) (p : Program) (input : List UInt8)
    (steps : Nat) : Option (Outcome × Array UInt8) :=
  if lineInput then
    (m.run p steps (LineReader.ofStream (.ofBytes input), ByteWriter.reliable)).written?
  else
    (m.run p steps ((⟨.ofBytes input⟩ : ByteReader), ByteWriter.reliable)).written?

/-! ## Streams that hold bytes -/

namespace Stream

open Text (newline)

/-- What the stream stands for: all that is left to be read are these bytes, in any chunks and with
any interruptions, and reading them does not fail. -/
def Holds (s : Stream) (bytes : List UInt8) : Prop := s.tokens = bytes.map Token.byte

theorem holds_ofBytes (bytes : List UInt8) : (ofBytes bytes).Holds bytes :=
  (tokens_data bytes []).trans (List.append_nil _)

theorem lineBytes_map_byte (bytes : List UInt8) : lineBytes (bytes.map .byte) = .ok bytes := by
  induction bytes with
  | nil => rfl
  | cons b bytes ih =>
    rw [List.map_cons, lineBytes_cons, ih]
    rfl

/-- The first line of some bytes ends with the first newline. -/
theorem firstLine_of_newline {line : List UInt8} (h : newline ∉ line) (rest : List UInt8) :
    firstLine ((line ++ newline :: rest).map Token.byte) = (line ++ [newline]).map .byte ∧
      afterLine ((line ++ newline :: rest).map Token.byte) = rest.map .byte := by
  induction line with
  | nil => exact firstLine_cons_of_endsLine rfl _
  | cons b line ih =>
    obtain ⟨hb, hline⟩ := not_or.mp (mt List.mem_cons.mpr h)
    have hwithin : ¬ (Token.byte b).endsLine := by simpa [Token.endsLine] using Ne.symm hb
    obtain ⟨hfirst, hafter⟩ := firstLine_cons_of_not_endsLine hwithin
      ((line ++ newline :: rest).map Token.byte)
    rw [List.cons_append, List.map_cons, hfirst, hafter, (ih hline).1, (ih hline).2]
    exact ⟨rfl, rfl⟩

theorem firstLine_of_not_mem {bytes : List UInt8} (h : newline ∉ bytes) :
    firstLine (bytes.map Token.byte) = bytes.map .byte ∧ afterLine (bytes.map Token.byte) = [] := by
  induction bytes with
  | nil => exact ⟨rfl, rfl⟩
  | cons b bytes ih =>
    obtain ⟨hb, hbytes⟩ := not_or.mp (mt List.mem_cons.mpr h)
    have hwithin : ¬ (Token.byte b).endsLine := by simpa [Token.endsLine] using Ne.symm hb
    obtain ⟨hfirst, hafter⟩ := firstLine_cons_of_not_endsLine hwithin (bytes.map Token.byte)
    rw [List.map_cons, hfirst, hafter, (ih hbytes).1, (ih hbytes).2]
    exact ⟨rfl, rfl⟩

namespace Holds

variable {s : Stream} {bytes line rest : List UInt8}

/-- Reading a line off some tokens, of which all that end up in the line are bytes. -/
theorem nextLine_of_firstLine (hfirst : firstLine s.tokens = line.map .byte)
    (hafter : afterLine s.tokens = rest.map .byte) :
    ∃ s' : Stream, s.nextLine [] = (.ok (), line, s') ∧ s'.Holds rest := by
  obtain ⟨s', hnext, hrest⟩ := s.nextLine_eq []
  refine ⟨s', ?_, hrest.trans hafter⟩
  rw [hnext, hfirst, lineBytes_map_byte, List.filterMap_map]
  exact congrArg (fun line => (Except.ok (), line, s')) List.filterMap_some

theorem nextLine_of_newline (h : s.Holds (line ++ newline :: rest)) (within : newline ∉ line) :
    ∃ s' : Stream, s.nextLine [] = (.ok (), line ++ [newline], s') ∧ s'.Holds rest := by
  obtain ⟨hfirst, hafter⟩ := firstLine_of_newline within rest
  rw [← h] at hfirst hafter
  exact nextLine_of_firstLine hfirst hafter

theorem nextLine_of_not_mem (h : s.Holds bytes) (within : newline ∉ bytes) :
    ∃ s' : Stream, s.nextLine [] = (.ok (), bytes, s') ∧ s'.Holds [] := by
  obtain ⟨hfirst, hafter⟩ := firstLine_of_not_mem within
  rw [← h] at hafter
  exact nextLine_of_firstLine ((congrArg firstLine h).trans hfirst) hafter

end Holds

end Stream

namespace CommandLine

variable {w : Nat} {o : Options} {t : Terminal}

/-! ## The output

A terminal keeps a buffer, and a writer none. Seen from the program they are alike as long as there
is space. -/

namespace Terminal

/-- The output has space, and what has been sent to it is what the writer has written. -/
structure Sends (t : Terminal) (o : ByteWriter) : Prop where
  space : t.full = false
  writer : o = ⟨t.sent, [], []⟩

theorem alike_write {o : ByteWriter} (h : Sends t o) (c : Cell w) :
    AnsweredAlike Sends (Sink.write c t) (Sink.write c o) := by
  obtain ⟨hspace, rfl⟩ := h
  obtain ⟨hput, hspace', hsent⟩ := put_of_not_full hspace c.lowByte
  refine ⟨?_, hspace', ?_⟩
  · simp only [Sink.write, asFault, hput]
    rfl
  · simp only [Sink.write, asFault, hsent]
    rfl

theorem alike_flush {o : ByteWriter} (h : Sends t o) :
    AnsweredAlike Sends (Sink.flush w t) (Sink.flush w o) := by
  obtain ⟨hspace, rfl⟩ := h
  obtain ⟨hflush, hspace', hsent⟩ := flush_of_not_full hspace
  refine ⟨?_, hspace', ?_⟩
  · simp only [Sink.flush, asFault, hflush]
    rfl
  · simp only [Sink.flush, asFault, hsent]
    rfl

/-- **Nothing is lost** of many bytes either. -/
theorem putAll_of_not_full (h : t.full = false) (bytes : List UInt8) :
    (t.putAll bytes).1 = .ok () ∧ (t.putAll bytes).2.full = false ∧
      (t.putAll bytes).2.sent = t.sent ++ bytes.toArray := by
  induction bytes generalizing t with
  | nil => exact ⟨rfl, h, (Array.append_empty).symm⟩
  | cons b bytes ih =>
    obtain ⟨hput, hspace, hsent⟩ := put_of_not_full h b
    rcases hp : t.put b with ⟨_, t'⟩
    rw [hp] at hput hspace hsent
    cases hput
    obtain ⟨hall, hspace', hsent'⟩ := ih hspace
    rw [putAll, hp]
    refine ⟨hall, hspace', ?_⟩
    rw [hsent', hsent, Array.push_eq_append, Array.append_assoc]
    simp

end Terminal

/-- What can be seen of a use from outside, apart from the diagnostics: the exit code and the
output. -/
def Report.visible (r : Report) : Nat × Array UInt8 := (r.code, r.output)

/-- What is to be seen when a run ends so and has written these bytes. -/
def visible : Outcome × Array UInt8 → Nat × Array UInt8
  | (.ok (), written) => (0, written.push Text.newline)
  | (.error _, written) => (1, written)

/-- **The end of a use** that is not timed. All that was written is delivered, with a newline behind
it if the run has succeeded. -/
theorem visible_conclude (ho : o.stopwatch = false) (ht : t.full = false) (outcome : Outcome)
    (elapsed : Nat) (logged : LogRecord → String) (records : List LogRecord) :
    (Report.ofResult logged records (conclude o elapsed outcome t).1
      (conclude o elapsed outcome t).2).visible = visible (outcome, t.sent) := by
  cases outcome with
  | error f =>
    rw [conclude, Report.ofResult, Report.visible, Terminal.close_of_not_full ht]
    rfl
  | ok _ =>
    -- without the stopwatch a newline is all that comes behind the output of the run
    have hepilogue : epilogue o elapsed = [Text.newline] := by rw [epilogue, ho]; rfl
    obtain ⟨hput, hspace, hsent⟩ := Terminal.putAll_of_not_full ht (epilogue o elapsed)
    obtain ⟨hflush, hspace', hsent'⟩ := Terminal.flush_of_not_full hspace
    rcases hp : t.putAll (epilogue o elapsed) with ⟨_, t'⟩
    rw [hp] at hput hsent hflush hspace' hsent'
    cases hput
    simp only [conclude, hp, hflush]
    rw [Except.mapError, Report.ofResult, Report.visible, Terminal.close_of_not_full hspace',
      hsent', hsent, hepilogue]
    rfl

/-! ## The run

The console of a use is a `Reader` next to a terminal, and that of the machine alone is a reader of
bytes or of lines next to a writer. Two readers may hold streams that are cut differently; what
counts is that they are seen alike. -/

section Run

variable {ι τ : Type} {view : ι → τ} {rest : τ → τ} {reader : ι → Reader}

/-- A `Reader` that passes on what one source gives, next to a terminal, answers like another such
source next to a writer. -/
theorem alike_of_reader [Source ι w] {answer : τ → Except Fault (Cell w)}
    (hview : Source.SeenThrough view answer rest)
    (hread : ∀ i : ι, Source.read (w := w) (reader i) =
      ((Source.read (w := w) i).1, reader (Source.read (w := w) i).2)) :
    Console.Alike w fun (k : Reader × Terminal) (l : ι × ByteWriter) =>
      (∃ i, k.1 = reader i ∧ view i = view l.1) ∧ k.2.Sends l.2 := by
  refine Console.alike_of_pair (fun r j => ∃ i, r = reader i ∧ view i = view j) Terminal.Sends ?_
    (fun c _ _ h => Terminal.alike_write h c) fun h => Terminal.alike_flush h
  rintro _ j ⟨i, rfl, hij⟩
  obtain ⟨hanswer, hrest⟩ := hview.answeredAlike hview hij
  rw [hread]
  exact ⟨hanswer, _, rfl, hrest⟩

/-- The run of a use has come as far as the machine, of which it is told how its run has ended and
what it has written. If they have ended, they have ended in the same way, and the output of the use
has been sent what the machine has written. -/
inductive SentAlike :
    Progress (Machine × Reader × Terminal) → Option (Outcome × Array UInt8) → Prop
  | running {s : Machine × Reader × Terminal} : SentAlike (.running s) none
  | ended {outcome : Outcome} {m : Machine} {r : Reader} {t : Terminal} (space : t.full = false) :
      SentAlike (.ended outcome (m, r, t)) (some (outcome, t.sent))

variable {m : Machine} {p : Program} {steps : Nat}

/-- **The run of a use and the machine** take the same steps, if their readers are seen alike. -/
theorem sentAlike_run [Source ι m.size.bits] {answer : τ → Except Fault (Cell m.size.bits)}
    (hview : Source.SeenThrough view answer rest)
    (hread : ∀ i : ι, Source.read (w := m.size.bits) (reader i) =
      ((Source.read (w := m.size.bits) i).1, reader (Source.read (w := m.size.bits) i).2))
    {i j : ι} (hij : view i = view j) :
    SentAlike (m.run p steps (reader i, .empty false))
      (m.run p steps (j, ByteWriter.reliable)).written? := by
  have hsends : Terminal.Sends (.empty false) .reliable := ⟨rfl, rfl⟩
  have hrun := Program.run_alike (alike_of_reader hview hread) (k := (reader i, .empty false))
    (l := (j, .reliable)) ⟨⟨i, rfl, hij⟩, hsends⟩ p m.engine steps
  rw [Machine.run, Machine.run]
  generalize p.run steps ⟨m.engine, (reader i, Terminal.empty false)⟩ = first,
    p.run steps ⟨m.engine, (j, ByteWriter.reliable)⟩ = second at hrun ⊢
  cases hrun with
  | running related => exact .running
  | ended related =>
    rw [Progress.map, Progress.map, Progress.written?, related.2.writer]
    exact .ended related.2.space

/-- Whether the input is read by bytes or by lines, and however it arrives. -/
theorem sentAlike_run_ofStream (m : Machine) (p : Program) (lineInput : Bool) {s : Stream}
    {input : List UInt8} (hs : s.Holds input) (steps : Nat) :
    SentAlike (m.run p steps (Reader.ofStream lineInput s, .empty false))
      (m.bytesRun lineInput p input steps) := by
  -- both readers work from the tokens, whatever the pieces in which they arrive
  have htokens : s.tokens = (Stream.ofBytes input).tokens :=
    hs.trans (Stream.holds_ofBytes input).symm
  cases lineInput with
  | false => exact sentAlike_run ByteReader.seenThrough (fun _ => rfl) (i := ⟨s⟩) htokens
  | true => exact sentAlike_run LineReader.seenThrough (fun _ => rfl) (i := .ofStream s) htokens

end Run

/-! ## A whole use -/

section Execute

variable {platform : Platform} {env : Environment} {args : List String} {m : Machine} {l : Loaded}
  {input : List UInt8}

/-- **A use** is to be seen as the run of its machine on what has been loaded. -/
theorem execute_of_load (hargs : platform.parse args = .ok o)
    (hm : Machine.ofSettings o.settings = .ok m) (hl : load o platform.readAll env.input = .ok l)
    (hinput : l.input.Holds input) (hspace : env.outputFull = false) (htime : o.stopwatch = false)
    (steps : Nat) :
    (execute platform env args steps).map Report.visible =
      (m.bytesRun o.lineInput l.program input steps).map visible := by
  have hrun := sentAlike_run_ofStream m l.program o.lineInput hinput steps
  simp only [execute, hargs, hm, hl, hspace]
  generalize
    m.run l.program steps (Reader.ofStream o.lineInput l.input, Terminal.empty false) = run,
    m.bytesRun o.lineInput l.program input steps = written? at hrun ⊢
  cases hrun with
  | running => rfl
  | ended space =>
    exact congrArg some (visible_conclude htime space _ env.elapsed platform.logged _)

theorem execute_of_signed (hargs : platform.parse args = .ok o) (hsigned : o.cellWidth.signed)
    (hspace : env.outputFull = false) (steps : Nat) :
    (execute platform env args steps).map Report.visible = some (1, #[]) := by
  have hm : Machine.ofSettings o.settings = .error ⟨o.cellWidth⟩ := if_pos hsigned
  simp only [execute, hargs, hm, hspace]
  rfl

theorem execute_of_load_error {e : IoError} (hargs : platform.parse args = .ok o)
    (hl : load o platform.readAll env.input = .error e) (hspace : env.outputFull = false)
    (steps : Nat) : (execute platform env args steps).map Report.visible = some (1, #[]) := by
  cases hm : Machine.ofSettings o.settings with
  | error e' =>
    simp only [execute, hargs, hm, hspace]
    rfl
  | ok m =>
    simp only [execute, hargs, hm, hl, hspace]
    rfl

end Execute

/-! ## Uses -/

/-- The path leads to a file with these contents that has nothing to do with the standard input:
whatever that holds, it makes no difference to the file, and reading the file leaves it alone. -/
def Platform.Stores (platform : Platform) (path : String) (contents : Program) : Prop :=
  ∀ s : Stream, platform.readAll path s = (.ok contents, s)

/-- A use of the command line that is not timed, with arguments that can be read and with standard
streams that do not fail. -/
structure Use where
  /-- what the program relies on -/
  platform : Platform
  /-- what it finds -/
  environment : Environment
  /-- the command line -/
  arguments : List String
  /-- what it asks for -/
  options : Options
  /-- the bytes of the standard input -/
  input : List UInt8
  /-- the arguments can be read -/
  parsed : platform.parse arguments = .ok options
  /-- no time is printed -/
  untimed : options.stopwatch = false
  /-- the output takes every byte -/
  space : environment.outputFull = false
  /-- the input arrives, in whatever pieces -/
  holds : environment.input.Holds input

namespace Use

/-- The exit code and the output, if the use is over after so many steps. -/
def visible (u : Use) (steps : Nat) : Option (Nat × Array UInt8) :=
  (execute u.platform u.environment u.arguments steps).map Report.visible

/-- Loading the program of this use from what it finds. -/
def loaded (u : Use) : Except IoError Loaded :=
  load u.options u.platform.readAll u.environment.input

/-- What a use gives to its machine: the program and the program's input. -/
inductive Supplied (u : Use) : Program → List UInt8 → Prop where
  /-- a file, and what is left of the standard input when the file has been read -/
  | file {path : String} {contents : Program} {rest : Stream} {input : List UInt8}
      (notInteractive : u.options.interactive = false) (named : u.options.inputFile = some path)
      (read : u.platform.readAll path u.environment.input = (.ok contents, rest))
      (left : rest.Holds input) : Supplied u contents input
  /-- the first line of the standard input with its newline, and the rest -/
  | line {line rest : List UInt8} (interactive : u.options.interactive = true)
      (within : Text.newline ∉ line) (input : u.input = line ++ Text.newline :: rest) :
      Supplied u (line ++ [Text.newline]).toArray rest
  /-- all of the standard input, which has no newline, and nothing -/
  | onlyLine (interactive : u.options.interactive = true) (within : Text.newline ∉ u.input) :
      Supplied u u.input.toArray []

variable {u v : Use} {program : Program} {input : List UInt8} {path : String}

theorem programFile?_of_not_interactive (h : u.options.interactive = false)
    (hnamed : u.options.inputFile = some path) : u.options.programFile? = some path := by
  rw [Options.programFile?, h]
  exact hnamed

theorem loaded_of_interactive (h : u.options.interactive = true) :
    u.loaded = loadLine u.environment.input := by
  have hfile : u.options.programFile? = none := if_pos h
  rw [loaded, load, hfile]

/-- **Loading** leaves the input of the program behind it on the standard input. -/
theorem Supplied.loaded_eq (h : u.Supplied program input) :
    ∃ l, u.loaded = .ok l ∧ l.program = program ∧ l.input.Holds input := by
  cases h with
  | file notInteractive named read left =>
    rw [loaded, load, programFile?_of_not_interactive notInteractive named]
    simp only [loadFile, read]
    exact ⟨_, rfl, rfl, left⟩
  | line interactive within hinput =>
    have holds := u.holds
    rw [hinput] at holds
    obtain ⟨s, hnext, hrest⟩ := holds.nextLine_of_newline within
    rw [loaded_of_interactive interactive, loadLine, hnext]
    exact ⟨_, rfl, rfl, hrest⟩
  | onlyLine interactive within =>
    obtain ⟨s, hnext, hrest⟩ := u.holds.nextLine_of_not_mem within
    rw [loaded_of_interactive interactive, loadLine, hnext]
    exact ⟨_, rfl, rfl, hrest⟩

/-- A file that has nothing to do with the standard input leaves all of it to the program. -/
theorem supplied_of_stores (h : u.options.interactive = false)
    (hnamed : u.options.inputFile = some path) (hstores : u.platform.Stores path program) :
    u.Supplied program u.input :=
  .file h hnamed (hstores u.environment.input) u.holds

/-- What an interactive use gives to its machine is the standard input, in two pieces. -/
theorem exists_supplied (h : u.options.interactive = true) :
    ∃ program rest, u.Supplied program rest ∧ program.toList ++ rest = u.input := by
  by_cases hmem : Text.newline ∈ u.input
  · obtain ⟨line, rest, hinput, within⟩ := List.eq_append_cons_of_mem hmem
    refine ⟨_, _, .line h within hinput, ?_⟩
    rw [hinput, List.append_assoc]
    rfl
  · exact ⟨_, _, .onlyLine h hmem, List.append_nil _⟩

/-- **No byte is lost or read twice** when the program is read from the standard input: the line
that is loaded and what the stream holds afterwards are together what it held before. -/
theorem loaded_append (h : u.options.interactive = true) :
    ∃ l rest, u.loaded = .ok l ∧ l.input.Holds rest ∧ l.program.toList ++ rest = u.input ∧
      u.Supplied l.program rest := by
  obtain ⟨program, rest, hsupplied, hinput⟩ := exists_supplied h
  obtain ⟨l, hl, rfl, hrest⟩ := hsupplied.loaded_eq
  exact ⟨l, rest, hl, hrest, hinput, hsupplied⟩

theorem visible_of_supplied {m : Machine} (hm : Machine.ofSettings u.options.settings = .ok m)
    (h : u.Supplied program input) (steps : Nat) :
    u.visible steps =
      (m.bytesRun u.options.lineInput program input steps).map CommandLine.visible := by
  obtain ⟨l, hl, rfl, hrest⟩ := h.loaded_eq
  exact execute_of_load u.parsed hm hl hrest u.space u.untimed steps

theorem visible_of_signed (u : Use) (h : u.options.cellWidth.signed) (steps : Nat) :
    u.visible steps = some (1, #[]) :=
  execute_of_signed u.parsed h u.space steps

theorem visible_of_unreadable {e : IoError} (h : u.options.interactive = false)
    (hnamed : u.options.inputFile = some path)
    (hread : (u.platform.readAll path u.environment.input).1 = .error e) (steps : Nat) :
    u.visible steps = some (1, #[]) := by
  refine execute_of_load_error (e := e) u.parsed ?_ u.space steps
  rw [load, programFile?_of_not_interactive h hnamed]
  rcases hfile : u.platform.readAll path u.environment.input with ⟨answer, s⟩
  rw [hfile] at hread
  cases hread
  simp only [loadFile, hfile]

/-- Uses with the same settings whose machines are given the same cannot be told apart. -/
theorem visible_congr (hsettings : v.options.settings = u.options.settings)
    (hlines : v.options.lineInput = u.options.lineInput) (hu : u.Supplied program input)
    (hv : v.Supplied program input) (steps : Nat) : v.visible steps = u.visible steps := by
  cases hm : Machine.ofSettings u.options.settings with
  | ok m =>
    rw [visible_of_supplied hm hu, visible_of_supplied (hsettings ▸ hm) hv, hlines]
  | error e =>
    -- with these settings there is no machine, and both uses end before they load anything
    have hsigned : u.options.settings.width.signed := by
      by_contra hunsigned
      obtain ⟨m, hm'⟩ :=
        Machine.exists_ofSettings_eq_ok_iff.mpr (Bool.eq_false_iff.mpr hunsigned)
      rw [hm] at hm'
      cases hm'
    have hsigned' : v.options.settings.width.signed := hsettings ▸ hsigned
    rw [visible_of_signed u hsigned, visible_of_signed v hsigned']

/-- **The command line refines the machine.** Consider a use that is not timed, with arguments that
can be read and standard streams that do not fail, on any platform. The standard input may arrive in
any pieces.

* With cells of a signed width it fails, and writes nothing.
* With any other width there is a machine for its settings. If the run of the machine on the program
  and the input that it is supplied with, read by bytes or by lines, ends well, then the use
  succeeds, and its output is what the machine has written and a newline. If the run fails, so does
  the use, and its output is what the machine has written. If the run does not end, neither does the
  use.
* If it is not interactive, its program is a file. When that file has nothing to do with the
  standard input, the input of the program is all of it. When it cannot be read, the use fails, and
  writes nothing.
* If it is interactive, its program is loaded from the standard input and the rest is left there for
  the program, so that the two are together all of it: no byte is lost or read twice.
* An interactive use cannot be told from one that finds the first line in a file and the rest on its
  standard input. -/
theorem refines_machine (u : Use) :
    (u.options.cellWidth.signed = true → ∀ steps, u.visible steps = some (1, #[])) ∧
    (u.options.cellWidth.signed = false →
      ∃ m, Machine.ofSettings u.options.settings = .ok m ∧
        ∀ program input, u.Supplied program input → ∀ steps,
          u.visible steps =
            (m.bytesRun u.options.lineInput program input steps).map CommandLine.visible) ∧
    (u.options.interactive = false → ∀ path, u.options.inputFile = some path →
      (∀ contents, u.platform.Stores path contents → u.Supplied contents u.input) ∧
      ∀ e, (u.platform.readAll path u.environment.input).1 = .error e →
        ∀ steps, u.visible steps = some (1, #[])) ∧
    (u.options.interactive = true →
      ∃ l rest, u.loaded = .ok l ∧ l.input.Holds rest ∧ l.program.toList ++ rest = u.input ∧
        u.Supplied l.program rest) ∧
    (u.options.interactive = true → ∀ line rest,
      u.input = line ++ Text.newline :: rest → Text.newline ∉ line →
      ∀ (v : Use) (path : String), v.options.interactive = false →
        v.options.inputFile = some path →
        v.platform.Stores path (line ++ [Text.newline]).toArray →
        v.input = rest → v.options.settings = u.options.settings →
        v.options.lineInput = u.options.lineInput →
        ∀ steps, v.visible steps = u.visible steps) := by
  refine ⟨u.visible_of_signed, fun hunsigned => ?_, fun hi path hnamed => ⟨fun contents => ?_,
    fun e => visible_of_unreadable hi hnamed⟩, loaded_append, ?_⟩
  · have hm : ∃ m, Machine.ofSettings u.options.settings = .ok m :=
      Machine.exists_ofSettings_eq_ok_iff.mpr hunsigned
    obtain ⟨m, hm⟩ := hm
    exact ⟨m, hm, fun program input h => visible_of_supplied hm h⟩
  · exact supplied_of_stores hi hnamed
  · intro hi line rest hinput within v path hfile hnamed hstores hrest hsettings hlines
    subst hrest
    exact visible_congr hsettings hlines (.line hi within hinput)
      (supplied_of_stores hfile hnamed hstores)

/-- A platform that understands three command lines and knows two files: one with a program that
prints the first byte of its input, and one that leads to the standard input and drains it. -/
def smallPlatform : Platform where
  parse
    | ["-i"] => .ok { interactive := true }
    | ["-i", "-w", "i8"] => .ok { interactive := true, cellWidth := ⟨.byte, true⟩ }
    | [path] => .ok { inputFile := some path }
    | _ => .error ⟨2, #[], ""⟩
  logged _ := ""
  readAll
    | "p", s => (.ok #[44, 46, 10], s)
    | "/dev/stdin", s => (.ok s.unread.toArray, [])
    | _, s => (.error (.system ⟨2, .notFound, "No such file or directory"⟩), s)

/-- The program typed before its input, which arrives in two pieces with an interruption between
them. -/
def typed : Use where
  platform := smallPlatform
  environment := ⟨[.data [44, 46], .failure (.plain .interrupted), .data [10, 104, 105]], false, 0⟩
  arguments := ["-i"]
  options := { interactive := true }
  input := [44, 46, 10, 104, 105]
  parsed := rfl
  untimed := rfl
  space := rfl
  holds := rfl

/-- The program in a file. -/
def stored : Use where
  platform := smallPlatform
  environment := ⟨[.data [104, 105]], false, 0⟩
  arguments := ["p"]
  options := { inputFile := some "p" }
  input := [104, 105]
  parsed := rfl
  untimed := rfl
  space := rfl
  holds := rfl

/-- The program on the standard input, which is named as its file. -/
def drained : Use where
  platform := smallPlatform
  environment := ⟨[.data [44, 46]], false, 0⟩
  arguments := ["/dev/stdin"]
  options := { inputFile := some "/dev/stdin" }
  input := [44, 46]
  parsed := rfl
  untimed := rfl
  space := rfl
  holds := rfl

/-- The program typed, with cells of a signed width. -/
def typedSigned : Use where
  platform := smallPlatform
  environment := typed.environment
  arguments := ["-i", "-w", "i8"]
  options := { interactive := true, cellWidth := ⟨.byte, true⟩ }
  input := typed.input
  parsed := rfl
  untimed := rfl
  space := rfl
  holds := rfl

/-- Typed or stored, the program prints the first byte of its input and a newline. When it has been
read from the file that the input comes from, there is no byte left for it, and it prints a zero.
With cells of a signed width it prints nothing. -/
theorem refines_machine_typed_and_stored :
    typed.Supplied #[44, 46, 10] [104, 105] ∧ typed.visible 4 = some (0, #[104, 10]) ∧
      stored.Supplied #[44, 46, 10] [104, 105] ∧ stored.visible 4 = some (0, #[104, 10]) ∧
      drained.Supplied #[44, 46] [] ∧ drained.visible 4 = some (0, #[0, 10]) ∧
      typedSigned.visible 4 = some (1, #[]) := by
  have hwithin : Text.newline ∉ [44, 46] := by decide
  have hsupplied : typed.Supplied #[44, 46, 10] [104, 105] := .line rfl hwithin rfl
  obtain ⟨-, hrun, -, -, hfile⟩ := refines_machine typed
  obtain ⟨m, hm, hruns⟩ := hrun rfl
  cases hm
  have htyped : typed.visible 4 = some (0, #[104, 10]) := hruns _ _ hsupplied 4
  have hstores : smallPlatform.Stores "p" #[44, 46, 10] := fun _ => rfl
  have hstored : stored.visible 4 = typed.visible 4 :=
    hfile rfl [44, 46] [104, 105] rfl hwithin stored "p" rfl rfl hstores rfl rfl rfl 4
  obtain ⟨-, -, hnamed, -⟩ := refines_machine stored
  have hleft : drained.Supplied #[44, 46] [] :=
    .file rfl rfl rfl (rfl : Stream.Holds [] [])
  obtain ⟨-, hrun', -⟩ := refines_machine drained
  obtain ⟨m', hm', hruns'⟩ := hrun' rfl
  cases hm'
  exact ⟨hsupplied, htyped, (hnamed rfl "p" rfl).1 _ hstores, hstored.trans htyped, hleft,
    hruns' _ _ hleft 4, (refines_machine typedSigned).1 rfl 4⟩

end Use

end CommandLine

end TapeMachine
