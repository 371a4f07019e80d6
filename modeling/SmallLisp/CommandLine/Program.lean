import SmallLisp.CommandLine.Options
import SmallLisp.CommandLine.Repl
import SmallLisp.Log

/-!
The program behind the command line: from the arguments and the surroundings to the status, the
texts on the two outputs, and the files.
-/

namespace SmallLisp
namespace CommandLine

/-- What the program is started with. -/
structure Invocation where
  arguments : List Text
  environmentVariables : Table Text
  files : FileTree
  input : Input
  lineEditing : Bool

/-- How the program ends. -/
inductive Ending where
  | status (n : Nat)
  | fault (f : Fault)
  /-- The code to evaluate is the mark of the end of the options, which is no code. -/
  | codeMissing
  /-- The name of the log file is the mark of the end of the options, which is no name. -/
  | logFileMissing
  /-- The frame limit is below one. -/
  | limitTooSmall
  /-- The frame limit is out of range. -/
  | limitTooLarge
  deriving DecidableEq

namespace Ending

/-- The words for the way the program ended; a status has none. -/
def describe : Ending → Text
  | .status _ => ""
  | .fault f => f.describe
  | .codeMissing => "expected string or bytes-like object, got 'list'"
  | .logFileMissing => "expected str, bytes or os.PathLike object, not list"
  | .limitTooSmall => "recursion limit must be greater or equal than 1"
  | .limitTooLarge => "Python int too large to convert to C int"

end Ending

/-- The largest limit. -/
def largestLimit : Int := Int.pow 2 31 - 1

/-- The limit that the settings ask for. -/
def limitOf (settings : Settings) : Except Ending Limit :=
  match settings.frameLimit with
  | none => .ok .default
  | some n =>
    if n < -largestLimit - 1 ∨ largestLimit < n then .error .limitTooLarge
    else if n < 1 then .error .limitTooSmall
    else if n ≤ Limit.reserved then .error (.fault .overflow)
    else .ok ⟨n.toNat⟩

/-- The message of a fault that a missing or unreadable file is reported with. -/
def fileMessage? : Fault → Option Text
  | .error e => some e.message
  | .file (.undecodable _) => none
  | .file e => some e.describe
  | _ => none

/-- Runs a file and gives the status; a mistake of the program, overflow or an unreadable file is
reported. -/
def runFile (setup : Setup) (i : Interpreter) (p : Path) : Run Nat := do
  match ← Run.outcome (i.load setup p) with
  | .ok _ => pure 0
  | .error .overflow => do
    Repl.report Fault.overflow.describe
    pure 1
  | .error f =>
    match fileMessage? f with
    | some message => do
      Repl.report message
      pure 1
    | none => Run.fault f

/-- A new interpreter; nothing if its prelude fails or a file in it cannot be read, which is
reported. -/
def newInterpreter (setup : Setup) : Run (Option Interpreter) := do
  match ← Run.outcome (Interpreter.create setup .file none none) with
  | .ok i => pure (some i)
  | .error f =>
    match fileMessage? f with
    | some message => do
      Repl.report message
      pure none
    | none => Run.fault f

/-- What the program does with its interpreter. -/
inductive Task where
  /-- Evaluates a text and prints the values. -/
  | evaluate (code : Text)
  | file (p : Path)
  | interact
  /-- There is nothing it could do. -/
  | impossible
  deriving DecidableEq

/-- The task that the options ask for; code to evaluate comes before a file. -/
def Options.task (options : Options) : Task :=
  match options.code, options.file with
  | some (.text code), _ => .evaluate code
  | some .markOnly, _ => .impossible
  | none, some file => .file (Path.ofText file)
  | none, none => .interact

/-- Does a task with a new interpreter. -/
def runTask (setup : Setup) (lineEditing : Bool) (i : Interpreter) : Task → Run Ending
  | .evaluate code => do
    let ok ← Repl.evalAndPrint setup i code
    pure (.status (if ok then 0 else 1))
  | .file p => do
    let status ← runFile setup i p
    pure (.status status)
  | .interact => do
    Repl.start setup lineEditing i
    pure (.status 0)
  | .impossible => pure .codeMissing

/-- Makes an interpreter and does a task. -/
def runNew (setup : Setup) (lineEditing : Bool) (task : Task) : Run Ending := do
  match ← newInterpreter setup with
  | some i => runTask setup lineEditing i task
  | none => pure (.status 1)

/-- The sinks that options and settings ask for. -/
def sinksOf (settings : Settings) (options : Options) : Except Ending Log.Sinks :=
  match options.logFile with
  | none => .ok (.ofNames settings.logLevel none)
  | some (.text name) => .ok (.ofNames settings.logLevel (some name))
  | some .markOnly => .error .logFileMissing

/-- Sets the log up and then the limit; the files afterwards, and what to work with if nothing was
wrong.  Log records will bear the time `time`. -/
def plan (settings : Settings) (options : Options) (files : FileTree) (time : Text) :
    FileTree × Except Ending Setup :=
  match sinksOf settings options with
  | .error ending => (files, .error ending)
  | .ok sinks =>
    match Log.setUp sinks files with
    | .error f => (files, .error (.fault f))
    | .ok files =>
      (files, (limitOf settings).map fun limit =>
        { host := ⟨files, settings.searchPath, some sinks, time⟩,
          frames := limit.available,
          prelude := settings.prelude })

/-- How the program ended and what it left behind. -/
structure Result where
  ending : Ending
  output : Text
  errors : Text
  files : FileTree

/-- What a notice adds to the error output. -/
def shownNotice (host : Host) : Notice → Text
  | .line text => text
  | .record r => Log.shownOnConsole host.sinks false host.time r

/-- What the notices of a journal add to the error output. -/
def shownNotices (host : Host) (journal : Journal) : Text :=
  journal.reverse.flatMap (shownNotice host)

/-- Runs the program with options that make sense. -/
def execute (inv : Invocation) (time : Text) (options : Options) : Result :=
  match plan (.ofVariables inv.environmentVariables) options inv.files time with
  | (files, .error ending) => ⟨ending, [], [], files⟩
  | (_, .ok setup) =>
    let (outcome, state) := runNew setup inv.lineEditing options.task ⟨.empty, .start inv.input, []⟩
    { ending := match outcome with
        | .ok ending => ending
        | .error f => .fault f,
      output := state.console.text .standard,
      errors := shownNotices setup.host state.journal,
      files := setup.host.filesAfter state.journal }

/-- Runs the program.  Log records bear the time `time`. -/
def run (inv : Invocation) (time : Text) : Result :=
  match parse inv.arguments with
  | .run options => execute inv time options
  | .help => ⟨.fault (.exit 0), helpText, [], inv.files⟩
  | .version => ⟨.fault (.exit 0), versionText, [], inv.files⟩
  | .mistake message => ⟨.fault (.exit 2), [], mistakeText message, inv.files⟩

end CommandLine
end SmallLisp
