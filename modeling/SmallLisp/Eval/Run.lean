import SmallLisp.Console
import SmallLisp.Error
import SmallLisp.Journal
import SmallLisp.Log
import SmallLisp.Store

/-!
Runs: computations that read and change the state of a program and end in a value or in a fault.
What a run has changed stays changed however it ends.

A run asks two things of its surroundings.  Outputs take every text, and a file is found and read as the
file tree has it; that the system refuses either for another reason is not modelled.
-/

namespace SmallLisp

/-- All that a program can change. -/
structure State where
  store : Store
  console : Console
  journal : Journal

/-- What a program finds in its surroundings. -/
structure Host where
  /-- The files at the start. -/
  files : FileTree
  /-- Directories in which files are looked for after the working directory. -/
  searchPath : List Path
  /-- Where log records go, if anywhere. -/
  sinks : Option Log.Sinks
  /-- The time that log records bear. -/
  time : Text

namespace Host

/-- The log file, by its path from the root. -/
def logFile? (host : Host) : Option Path :=
  (host.sinks.bind Log.Sinks.file).map host.files.absolute

/-- The files after a journal.  Only the log file ever changes. -/
def filesAfter (host : Host) (journal : Journal) : FileTree :=
  match host.logFile? with
  | none => host.files
  | some p => host.files.append p (Log.addedByJournal host.time journal)

/-- The text of a file after a journal.  The journal is made use of only if the path leads to the log
file. -/
def text (host : Host) (journal : Journal) (p : Path) : Except FileError Text :=
  match host.logFile? with
  | none => host.files.text p
  | some log =>
    if host.files.leadsTo p log.names then (host.filesAfter journal).text p else host.files.text p

end Host

def Run (α : Type) := State → Except Fault α × State

namespace Run

variable {α β : Type}

@[inline] def pure (a : α) : Run α := fun s => (.ok a, s)

@[inline] def bind (m : Run α) (f : α → Run β) : Run β := fun s =>
  match m s with
  | (.ok a, s) => f a s
  | (.error e, s) => (.error e, s)

instance : Monad Run where
  pure := Run.pure
  bind := Run.bind

/-- Ends the run. -/
@[inline] def fault (f : Fault) : Run α := fun s => (.error f, s)

/-- Ends the run with an error of the program. -/
@[inline] def fail (e : Error) : Run α := fault (.error e)

/-- Goes on with what came out, or ends the run with what went wrong. -/
def ofExcept : Except Fault α → Run α
  | .ok a => pure a
  | .error f => fault f

/-- How the run ends, as a value of another run. -/
@[inline] def outcome (m : Run α) : Run (Except Fault α) := fun s =>
  match m s with
  | (result, s) => (.ok result, s)

@[inline] def get : Run State := fun s => (.ok s, s)

/-- Changes the store and answers with what the change yields. -/
@[inline] def onStore (f : Store → α × Store) : Run α := fun s =>
  match s with
  | ⟨store, console, journal⟩ =>
    match f store with
    | (a, store) => (.ok a, ⟨store, console, journal⟩)

@[inline] def modifyStore (f : Store → Store) : Run Unit := onStore fun store => ((), f store)

@[inline] def modifyConsole (f : Console → Console) : Run Unit := fun s =>
  (.ok (), { s with console := f s.console })

/-- Adds to the journal. -/
def note (n : Notice) : Run Unit := fun s => (.ok (), { s with journal := n :: s.journal })

def log (logger : Text) (level : Level) (message : Text) : Run Unit :=
  note (.record ⟨logger, level, message⟩)

/-- The text of a value; the run overflows if writing it takes more frames than there are. -/
def shown (frames : Nat) (v : Value) : Run Text :=
  if v.rendersWithin frames then pure v.render else fault .overflow

/-- The text of a value in the notation of diagnostics, likewise. -/
def inspected (frames : Nat) (v : Value) : Run Text :=
  if v.inspectsWithin frames then pure v.inspect else fault .overflow

/-- The text of a file, or why it cannot be read; the run ends if the path cannot be used. -/
def fileText (host : Host) (p : Path) : Run (Except FileError Text) := fun s =>
  match p.invalid? with
  | some reason => (.error (.invalidPath reason), s)
  | none => (.ok (host.text s.journal p), s)

/-- The value of a name seen from a frame. -/
def lookup (frame : Nat) (name : Text) : Run Value := fun s =>
  match s.store.lookup? frame name with
  | some v => (.ok v, s)
  | none => (.error (.error (.unbound name)), s)

/-- Writes to the current output, which takes every text. -/
def write (text : Text) : Run Unit := modifyConsole fun c => c.write text

/-- Takes what arrives next from the current input; nothing at its end. -/
def nextArrival : Run (Option Arrival) := fun s =>
  match s.console.input with
  | [] => (.ok none, s)
  | arrival :: rest => (.ok (some arrival), { s with console := s.console.setInput rest })

end Run
end SmallLisp
