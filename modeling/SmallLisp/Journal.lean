import SmallLisp.Text.Basic

/-!
The journal of a run: log records and the lines that report errors, in the order in which they arise.
Where and how they are shown is decided later.
-/

namespace SmallLisp

/-- The importance of a log record; the higher, the more important. -/
abbrev Level := Int

namespace Level

def debug : Level := 10
def info : Level := 20
def warning : Level := 30
def error : Level := 40
def critical : Level := 50

end Level

structure Record where
  logger : Text
  level : Level
  message : Text
  deriving DecidableEq, Repr

inductive Notice where
  | record (r : Record)
  | line (text : Text)
  deriving DecidableEq, Repr

/-- The notices of a run, the latest first. -/
abbrev Journal := List Notice

end SmallLisp
