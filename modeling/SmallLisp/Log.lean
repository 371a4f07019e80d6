import SmallLisp.Error
import SmallLisp.Journal
import SmallLisp.Settings

/-!
How log records are shown.  The console shows those of a level or higher, with the name of the level
padded and, on a terminal, coloured; a log file holds all of them as plain text.
-/

namespace SmallLisp

namespace Level

/-- The name of a level. -/
def describe (level : Level) : Text :=
  if level = critical then "CRITICAL"
  else if level = error then "ERROR"
  else if level = warning then "WARNING"
  else if level = info then "INFO"
  else if level = debug then "DEBUG"
  else if level = 0 then "NOTSET"
  else "Level " ++ Text.ofInt level

/-- The number of the terminal colour of a level. -/
def colour? (level : Level) : Option Nat :=
  if level = debug then some 34
  else if level = info then some 32
  else if level = warning then some 33
  else if level = error ∨ level = critical then some 31
  else none

/-- The name of a level, filled up with blanks to eight characters. -/
def padded (level : Level) : Text :=
  level.describe ++ List.replicate (8 - level.describe.length) (.char ' ')

/-- The padded name, in the colour of the level if it has one. -/
def coloured (level : Level) : Text :=
  match level.colour? with
  | some colour => "\x1b[1;" ++ Text.ofNat colour ++ "m" ++ level.padded ++ "\x1b[0m"
  | none => level.padded

end Level

namespace Log

/-- The parts that the text of a record is put together from. -/
inductive Part where
  | text (s : Text)
  | time
  | level
  | logger
  | message
  deriving DecidableEq, Repr

/-- The text of a record in full: time, level, logger and message. -/
def fullLayout : List Part :=
  [.time, .text " ", .level, .text " ", .logger, .text ": ", .message]

/-- The text of a record, the name of its level being written as `level`. -/
def format (layout : List Part) (time level : Text) (r : Record) : Text :=
  layout.flatMap fun
    | .text s => s
    | .time => time
    | .level => level
    | .logger => r.logger
    | .message => r.message

/-- Colours are shown if they are wanted and there is a terminal to show them. -/
def showsColours (terminal wanted : Bool) : Bool := wanted && terminal

/-- The name of the level as the console shows it. -/
def consoleLevel (colours : Bool) (level : Level) : Text :=
  if colours then level.coloured else level.padded

def consoleLine (colours : Bool) (time : Text) (r : Record) : Text :=
  format fullLayout time (consoleLevel colours r.level) r ++ "\n"

def fileLine (time : Text) (r : Record) : Text :=
  format fullLayout time r.level.describe r ++ "\n"

/-- The logger all loggers of the program are below. -/
def rootLogger : Text := "callisp"

/-- Whether a logger is the root logger of the program or below it. -/
def isOwn (logger : Text) : Bool :=
  logger == rootLogger || Text.startsWith logger (rootLogger ++ ".")

/-- Where records go. -/
structure Sinks where
  consoleLevel : Level
  file : Option Path
  deriving DecidableEq

namespace Sinks

/-- The console from a level on, and the log file of that name if there is one. -/
def ofNames (level : Level) (file : Option Text) : Sinks :=
  ⟨level, file.map Path.ofText⟩

/-- What is left of the sinks if the log file cannot be opened. -/
def withoutFile (s : Sinks) : Sinks := ⟨s.consoleLevel, none⟩

end Sinks

/-- Whether a record of the program is made at all. -/
def isMade (r : Record) : Bool := Level.debug ≤ r.level

/-- What the console shows of a record.  Without sinks, and for loggers of others, warnings are shown
by their message alone. -/
def shownOnConsole (sinks : Option Sinks) (colours : Bool) (time : Text) (r : Record) : Text :=
  match sinks, isOwn r.logger with
  | some sinks, true =>
    if isMade r && sinks.consoleLevel ≤ r.level then consoleLine colours time r else ""
  | _, _ => if Level.warning ≤ r.level then r.message ++ "\n" else ""

/-- What the log file gains by a record.  A line that has no bytes is left out. -/
def addedToFile (time : Text) (r : Record) : List UInt8 :=
  if isOwn r.logger && isMade r then (Utf8.encode? (fileLine time r)).getD [] else []

/-- The files after a record. -/
def record (sinks : Option Sinks) (time : Text) (files : FileTree) (r : Record) : FileTree :=
  match sinks with
  | some ⟨_, some p⟩ => files.append (files.absolute p) (addedToFile time r)
  | _ => files

/-- What the log file gains by a journal. -/
def addedByJournal (time : Text) (journal : Journal) : List UInt8 :=
  journal.reverse.flatMap fun
    | .record r => addedToFile time r
    | .line _ => []

/-- The files after the sinks have been set up: the log file exists from then on. -/
def setUp (sinks : Sinks) (files : FileTree) : Except Fault FileTree :=
  match sinks.file with
  | none => .ok files
  | some p =>
    let p := files.absolute p
    match p.invalid? with
    | some reason => .error (.invalidPath reason)
    | none => (files.create p).mapError .file

end Log
end SmallLisp
