import SmallLisp.CommandLine.Program
import Std.Time.DateTime.Timestamp

/-!
The command-line program.

Evaluation is a pure function of the sources, the files and the input, and this module supplies them
as they are asked for.  A program names files by symbols, and a symbol is a word or a line of a text
it has read, or the name of a kind of value; so the files with such names are looked up before they
can be asked for.  The input ends in a mark for what has not been typed yet.  A run that takes the
mark is given one line more and made again, and nobody sees that it was made twice, because a run has
no effects of its own.
-/

namespace SmallLisp
namespace Shell

/-- A text as a string.  All texts here come from decoded bytes, so none holds a surrogate. -/
def display (t : Text) : String := t.toString?.getD ""

/-- A number below one hundred in two digits. -/
def twoDigits (n : Nat) : Text := if n < 10 then "0" ++ Text.ofNat n else Text.ofNat n

/-- The time of day after so many seconds since midnight of some day. -/
def timeOfDay (seconds : Nat) : Text :=
  twoDigits (seconds / 3600 % 24) ++ ":" ++ twoDigits (seconds / 60 % 60) ++ ":" ++
    twoDigits (seconds % 60)

/-- The universal time of day. -/
def clock : IO Text := do
  let now ← Std.Time.Timestamp.now
  pure (timeOfDay now.toSecondsSinceUnixEpoch.val.toNat)

/-- The environment variables that hold settings, those that are set. -/
def environmentVariables : IO (Table Text) := do
  let names :=
    ["CALLISP_PATH", "CALLISP_PRELUDE", "CALLISP_LOG_LEVEL", "CALLISP_RECURSION_LIMIT"]
  names.filterMapM fun name => do
    let value ← IO.getEnv name
    pure (value.map fun value => (Text.ofString name, Text.ofString value))

/-- Adds what stands at the end of the steps from the root. -/
def look (t : FileTree) (steps : List Text) : IO FileTree := do
  let p : Path := ⟨.root, steps⟩
  if t.entries.any fun entry => entry.1 == p.names then return t
  let name := display p.toText
  let add (node : FileTree.Node) : FileTree := { t with entries := (p.names, node) :: t.entries }
  match ← ((← IO.currentDir) / name).metadata.toBaseIO with
  | .error _ => pure t
  | .ok metadata =>
    match metadata.type with
    | .dir => pure (add .directory)
    | .file =>
      match ← (IO.FS.readBinFile name).toBaseIO with
      | .ok bytes => pure (add (.file bytes.toList))
      | .error _ => pure t
    | _ => pure (if name == "/dev/null" then add .void else t)

/-- Adds what stands at every place that a path passes. -/
def observe (t : FileTree) (p : Path) : IO FileTree := do
  let start := if p.isAbsolute then [] else t.workingDirectory.map Utf8.ofName
  let (t, _) ← p.steps.foldlM
    (fun (t, here) step => do
      let here := Path.addStep here step
      pure (← look t here, here))
    (t, start)
  pure t

/-- The words of a text. -/
def wordsOf (text : Text) : List Text := (lex text).map Token.text

/-- The words of a file that is text. -/
def wordsOfNode : FileTree.Node → List Text
  | .directory | .void => []
  | .file bytes =>
    match Utf8.decode bytes with
    | .ok text => wordsOf text
    | .error _ => []

/-- Adds the files of these names, in the working directory or along the search path, and those whose
names occur in them. -/
partial def gather (searchPath : List Path) (t : FileTree) : List Text → IO FileTree
  | [] => pure t
  | name :: rest => do
    let p := Path.ofText name
    let found ← (p :: searchPath.map fun directory => directory.within p).foldlM observe t
    let fresh := found.entries.take (found.entries.length - t.entries.length)
    gather searchPath found (fresh.flatMap (fun entry => wordsOfNode entry.2) ++ rest)

/-- The names of the kinds of values. -/
def kinds : List Text :=
  [Value.number .nan, .bool true, .symbol "", .list [], .builtin .add 0, .unspecified].map Value.kind

end Shell

/-- What the program holds between two runs. -/
structure Shell where
  setup : Setup
  state : State
  /-- Whether the standard input is used up. -/
  ended : Bool

namespace Shell

abbrev Action := StateT Shell IO

def modifyHost (f : Host → Host) : Action Unit :=
  modify fun s => { s with setup := { s.setup with host := f s.setup.host } }

/-- Looks up the files whose names may come from these words. -/
def learn (words : List Text) : Action Unit := do
  let host := (← get).setup.host
  let files ← gather host.searchPath host.files words.eraseDups
  modifyHost fun host => { host with files }

/-- A line of the standard input; nothing at its end. -/
def readLine : Action (Option Text) := do
  let line ← (← IO.getStdin).getLine
  if line.isEmpty then
    modify fun s => { s with ended := true }
    pure none
  else
    learn (Repl.withoutLineFeed line :: Primitive.withoutLineEnd line :: wordsOf line)
    pure (some line)

/-- Writes at the end of the log file. -/
def writeLog (p : Path) (bytes : List UInt8) : IO Unit := do
  let handle ← IO.FS.Handle.mk (display p.toText) .append
  handle.write ⟨bytes.toArray⟩

/-- Shows what the runs have written and noted since the last time. -/
def deliver : Action Unit := do
  let s ← get
  let host := s.setup.host
  IO.print (display (s.state.console.text .standard))
  (← IO.getStdout).flush
  IO.eprint (display (CommandLine.shownNotices host s.state.journal))
  match host.sinks.bind Log.Sinks.file with
  | none => pure ()
  | some p =>
    writeLog p (Log.addedByJournal host.time s.state.journal)
  modifyHost fun host => { host with files := host.filesAfter s.state.journal }
  let console := { s.state.console with written := [] }
  modify fun s => { s with state := { s.state with console, journal := [] } }

/-- Makes a run, as often as it takes to have the input it asks for, and shows what it did. -/
partial def perform {α : Type} (m : Setup → Run α) : Action (Except Fault α) := do
  let time ← clock
  modifyHost fun host => { host with time }
  let s ← get
  let mark : Input := if s.ended then [] else [.interrupted]
  let known := s.state.console.standardInput
  let console := { s.state.console with standardInput := known ++ mark }
  let (result, after) := m s.setup { s.state with console }
  let left := after.console.standardInput
  if !s.ended && left.isEmpty then
    let line ← readLine
    modify fun s =>
      let console := { s.state.console with
        standardInput := known ++ (line.map Arrival.line).toList }
      { s with state := { s.state with console } }
    perform m
  else
    let console := { after.console with standardInput := left.take (left.length - mark.length) }
    set { s with state := { after with console } }
    deliver
    pure result

/-- What arrives at the prompt. -/
def nextArrival : Action (Option Arrival) := do
  let s ← get
  match s.state.console.standardInput with
  | arrival :: rest =>
    let console := { s.state.console with standardInput := rest }
    set { s with state := { s.state with console } }
    pure (some arrival)
  | [] =>
    let line ← readLine
    pure (line.map Arrival.line)

/-- The read-eval-print loop. -/
partial def loop (i : Interpreter) (pending : Text) : Action CommandLine.Ending := do
  IO.print (display (Repl.promptFor pending))
  (← IO.getStdout).flush
  let arrival ← nextArrival
  match ← perform fun setup => Repl.turn setup i pending arrival with
  | .ok (some pending) => loop i pending
  | .ok none => pure (.status 0)
  | .error f => pure (.fault f)

/-- Makes an interpreter and starts the loop.  There is no line editing. -/
def interact : Action CommandLine.Ending := do
  let start (setup : Setup) : Run (Option Interpreter) := do
    let i ← CommandLine.newInterpreter setup
    if i.isSome then Repl.noteEditing false
    pure i
  match ← perform start with
  | .ok (some i) => loop i ""
  | .ok none => pure (.status 1)
  | .error f => pure (.fault f)

/-- The words that a task names files by. -/
def wordsOfTask : CommandLine.Task → List Text
  | .evaluate code => wordsOf code
  | .file p => [p.toText]
  | .interact | .impossible => []

/-- Does a task. -/
def work (task : CommandLine.Task) : Action CommandLine.Ending := do
  let s ← get
  learn (kinds ++ wordsOfTask task ++ (s.setup.prelude.map Path.toText).toList)
  if task = .interact then interact
  else
    match ← perform fun setup => CommandLine.runNew setup false task with
    | .ok ending => pure ending
    | .error f => pure (.fault f)

/-- The exit status for the way the program ended, which is told if it is not an ordinary one. -/
def finish : CommandLine.Ending → IO UInt32
  | .status n => pure n.toUInt32
  | .fault (.exit status) => pure (status % 256).toNat.toUInt32
  | .fault .interrupt => pure 130
  | ending => do
    IO.eprintln (display ending.describe)
    pure 1

/-- Runs the program with options that make sense. -/
def start (options : CommandLine.Options) : IO UInt32 := do
  let here := Path.ofText (← IO.currentDir).toString
  let files : FileTree := ⟨here.names, []⟩
  let files ← match options.logFile with
    | some (.text name) => observe files (files.absolute (Path.ofText name))
    | _ => pure files
  match CommandLine.plan (.ofVariables (← environmentVariables)) options files (← clock) with
  | (_, .error ending) => finish ending
  | (_, .ok setup) =>
    let (ending, _) ← (work options.task).run ⟨setup, ⟨.empty, .start [], []⟩, false⟩
    finish ending

end Shell
end SmallLisp

def main (args : List String) : IO UInt32 :=
  match SmallLisp.CommandLine.parse (args.map SmallLisp.Text.ofString) with
  | .run options => SmallLisp.Shell.start options
  | .help => do
    IO.print (SmallLisp.Shell.display SmallLisp.CommandLine.helpText)
    pure 0
  | .version => do
    IO.print (SmallLisp.Shell.display SmallLisp.CommandLine.versionText)
    pure 0
  | .mistake message => do
    IO.eprint (SmallLisp.Shell.display (SmallLisp.CommandLine.mistakeText message))
    pure 2
