import SmallLisp.Files.Path
import SmallLisp.Journal
import SmallLisp.Number.Integer
import SmallLisp.Table

/-!
Settings, which come from environment variables.  A variable that is missing, empty or makes no sense
leaves its setting at the default.
-/

namespace SmallLisp

namespace Level

/-- The levels that have names. -/
def names : List (Text × Level) :=
  [("CRITICAL", critical), ("FATAL", critical), ("ERROR", error), ("WARN", warning),
    ("WARNING", warning), ("INFO", info), ("DEBUG", debug), ("NOTSET", 0)]

/-- The upper case of a code point as far as it is basic Latin.  Three letters outside of it have
such an upper case, and so have seven ligatures. -/
def upperCase : CodePoint → Text
  | .char 'ı' => "I"
  | .char 'ſ' => "S"
  | .char 'ß' => "SS"
  | .char 'ﬀ' => "FF"
  | .char 'ﬁ' => "FI"
  | .char 'ﬂ' => "FL"
  | .char 'ﬃ' => "FFI"
  | .char 'ﬄ' => "FFL"
  | .char 'ﬅ' | .char 'ﬆ' => "ST"
  | .char c => [.char c.toUpper]
  | c => [c]

/-- The level of that name, in any case; warnings for an unknown name. -/
def ofName (name : Text) : Level :=
  (names.lookup (name.flatMap upperCase)).getD warning

end Level

structure Settings where
  /-- Directories in which files are looked for after the working directory. -/
  searchPath : List Path
  /-- A file that every new interpreter runs. -/
  prelude : Option Path
  /-- Less important log records are not shown. -/
  logLevel : Level
  /-- How many stack frames may be nested. -/
  frameLimit : Option Int
  deriving DecidableEq

namespace Settings

/-- The directories in a list with colons between them. -/
def directories (raw : Text) : List Path :=
  (((Text.splitOn ':' raw).map (Text.trim CodePoint.isBlank)).filter (!·.isEmpty)).map Path.ofText

/-- The value of a variable that is set to something. -/
def setTo? (vars : Table Text) (name : Text) : Option Text :=
  (vars.get? name).filter (!·.isEmpty)

def ofVariables (vars : Table Text) : Settings :=
  { searchPath := ((setTo? vars "CALLISP_PATH").map directories).getD [],
    prelude := (setTo? vars "CALLISP_PRELUDE").map Path.ofText,
    logLevel := Level.ofName ((vars.get? "CALLISP_LOG_LEVEL").getD "WARNING"),
    frameLimit := (setTo? vars "CALLISP_RECURSION_LIMIT").bind Integer.parse? }

end Settings

/-- How many stack frames may be nested. -/
structure Limit where
  frames : Nat

namespace Limit

def default : Limit := ⟨1000⟩

/-- The frames that are in use before anything is evaluated. -/
def reserved : Nat := 20

/-- The frames that evaluation can use. -/
def available (l : Limit) : Nat := l.frames - reserved

end Limit
end SmallLisp
