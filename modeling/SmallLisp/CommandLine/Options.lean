import SmallLisp.Text.Digit
import SmallLisp.Text.Quoted

/-!
The arguments of the command line.  Long options may be shortened and may hold their value after an
equals sign; short options may hold it right after the letter.  `--` ends the options.  Options are
acted on in order, so a request for help or the version is answered before a later mistake is seen.
-/

namespace SmallLisp

namespace CommandLine

/-- The options. -/
inductive Flag where
  | help
  | eval
  | logFile
  | version
  deriving DecidableEq, Repr

namespace Flag

/-- The spellings of the options. -/
def spellings : List (Text × Flag) :=
  [("-h", .help), ("--help", .help), ("-e", .eval), ("--eval", .eval), ("--log-file", .logFile),
    ("--version", .version)]

def ofSpelling? (s : Text) : Option Flag := spellings.lookup s

/-- How messages name an option. -/
def name : Flag → Text
  | .help => "-h/--help"
  | .eval => "-e/--eval"
  | .logFile => "--log-file"
  | .version => "--version"

def takesValue : Flag → Bool
  | .eval | .logFile => true
  | .help | .version => false

end Flag

/-- The value of an option.  The mark of the end of the options is taken out of the values, so an
option whose value is the mark alone is left with none. -/
inductive OptionValue where
  | text (t : Text)
  | markOnly
  deriving DecidableEq, Repr

/-- The mark of the end of the options. -/
def endMark : Text := "--"

def OptionValue.ofText (t : Text) : OptionValue := if t = endMark then .markOnly else .text t

/-- What the command line asks for. -/
structure Options where
  file : Option Text
  code : Option OptionValue
  logFile : Option OptionValue
  deriving DecidableEq, Repr

inductive Request where
  | run (options : Options)
  | help
  | version
  | mistake (message : Text)
  deriving DecidableEq, Repr

/-- What an argument is, by its look alone. -/
inductive Shape where
  | operand
  | endOfOptions
  /-- An option, by a short spelling or a long one, with the text that is attached to it: after an
  equals sign, or right after the letter of a short one. -/
  | option (flag : Flag) (short : Bool) (attached : Option Text)
  | unknownOption
  | ambiguous (spellings : List Text)
  deriving DecidableEq, Repr

/-- The text before the first equals sign, and the text after it if there is one. -/
def splitAssignment : Text → Text × Option Text
  | [] => ([], none)
  | c :: t =>
    if c == '=' then ([], some t)
    else
      let (before, after) := splitAssignment t
      (c :: before, after)

/-- A minus sign and a decimal number without exponent, perhaps before a line feed. -/
def looksNegative (t : Text) : Bool :=
  let t := if t.getLast? = some (.char '\n') then t.dropLast else t
  match t with
  | .char '-' :: rest =>
    match rest.dropWhile CodePoint.isDigit with
    | [] => !rest.isEmpty
    | .char '.' :: fraction => !fraction.isEmpty && fraction.all CodePoint.isDigit
    | _ => false
  | _ => false

/-- Whether an option is spelled with two dashes. -/
def isLong (t : Text) : Bool := t.startsWith "--"

/-- The options that a spelling with two dashes may stand for. -/
def longMatches (start : Text) : List (Text × Flag) :=
  Flag.spellings.filter fun entry => isLong entry.1 && entry.1.startsWith start

/-- The shape of an argument that starts with a dash and is no option in full. -/
def dashShape (t : Text) : Shape :=
  let (start, attached) := splitAssignment t
  match attached, Flag.ofSpelling? start with
  | some _, some flag => .option flag (!isLong start) attached
  | _, _ =>
    let candidates : List (Text × Flag × Option Text) :=
      if isLong t then (longMatches start).map fun entry => (entry.1, entry.2, attached)
      else
        match Flag.ofSpelling? (t.take 2) with
        | some flag => [(t.take 2, flag, some (t.drop 2))]
        | none => []
    match candidates with
    | [(_, flag, attached)] => .option flag (!isLong t) attached
    | [] => if looksNegative t || t.contains ' ' then .operand else .unknownOption
    | several => .ambiguous (several.map fun entry => entry.1)

/-- The shape of an argument that stands before the end of the options. -/
def shapeOf (t : Text) : Shape :=
  if t = endMark then .endOfOptions
  else if t.head? ≠ some (.char '-') then .operand
  else
    match Flag.ofSpelling? t with
    | some flag => .option flag (!isLong t) none
    | none => if t.length = 1 then .operand else dashShape t

/-- The arguments with their shapes; after the end of the options all are operands. -/
def shapes : List Text → List (Text × Shape)
  | [] => []
  | t :: rest =>
    if t = endMark then (t, .endOfOptions) :: rest.map fun t => (t, .operand)
    else (t, shapeOf t) :: shapes rest

/-- The complaint about the first ambiguous argument. -/
def ambiguity? : List (Text × Shape) → Option Text
  | [] => none
  | (t, .ambiguous spellings) :: _ =>
    some ("ambiguous option: " ++ t ++ " could match " ++ Text.join ", " spellings)
  | _ :: rest => ambiguity? rest

def argumentError (flag : Flag) (message : Text) : Request :=
  .mistake ("argument " ++ flag.name ++ ": " ++ message)

def ignoredValue (flag : Flag) (value : Text) : Request :=
  argumentError flag ("ignored explicit argument " ++ Text.quoted value)

def missingValue (flag : Flag) : Request := argumentError flag "expected one argument"

/-- What comes of the letters after the letter of the help option: each may be the letter of another
short option, and the help is shown unless one of them is not.  `operandNext` says that a value for
the last of them follows. -/
def helpLetters (operandNext : Bool) : Text → Request
  | [] => .help
  | c :: t =>
    match Flag.ofSpelling? [.char '-', c] with
    | some flag =>
      if flag.takesValue then if t.isEmpty && !operandNext then missingValue flag else .help
      else helpLetters operandNext t
    | none => ignoredValue .help (c :: t)

/-- What comes of an option that takes no value. -/
def plainOption (flag : Flag) (short operandNext : Bool) : Option Text → Request
  | none => if flag = .help then .help else .version
  | some value =>
    if short && !value.isEmpty then helpLetters operandNext value else ignoredValue flag value

/-- What has been understood so far. -/
structure Progress where
  options : Options
  /-- Whether the file may still come. -/
  fileOpen : Bool
  extras : List Text

namespace Progress

def start : Progress := ⟨⟨none, none, none⟩, true, []⟩

def setValue (p : Progress) (flag : Flag) (value : Text) : Progress :=
  match flag with
  | .eval => { p with options := { p.options with code := some (.ofText value) } }
  | .logFile => { p with options := { p.options with logFile := some (.ofText value) } }
  | .help | .version => p

def finish (p : Progress) : Request :=
  if p.extras.isEmpty then .run p.options
  else .mistake ("unrecognized arguments: " ++ Text.join " " p.extras)

end Progress

/-- The operands that go to the file, from the head of a run of operands: marks of the end of the
options, one operand, and such marks again. -/
def fileOperands (args : List (Text × Shape)) : List (Text × Shape) × List (Text × Shape) :=
  let isMark := fun (arg : Text × Shape) => arg.2 = .endOfOptions
  let marks := args.takeWhile isMark
  match args.dropWhile isMark with
  | [] => (marks, [])
  | (s, .operand) :: rest =>
    (marks ++ (s, .operand) :: rest.takeWhile isMark, rest.dropWhile isMark)
  | rest => (marks, rest)

/-- Takes the file from a run of operands; what is left over is not understood. -/
def takeOperands (p : Progress) (args : List (Text × Shape)) : Progress :=
  if p.fileOpen then
    let (taken, rest) := fileOperands args
    let values := (taken.map Prod.fst).erase endMark
    { options := { p.options with file := values.head? },
      fileOpen := false,
      extras := p.extras ++ rest.map Prod.fst }
  else { p with extras := p.extras ++ args.map Prod.fst }

/-- Whether the next argument can be the value of an option. -/
def operandNext : List (Text × Shape) → Bool
  | (_, .operand) :: _ => true
  | _ => false

/-- Goes through the arguments; `awaiting` is an option whose value must come next, and `pending`
holds the operands since the last option. -/
def collect (p : Progress) (awaiting : Option Flag) (pending : List (Text × Shape)) :
    List (Text × Shape) → Request
  | [] =>
    match awaiting with
    | some flag => missingValue flag
    | none => (takeOperands p pending).finish
  | (s, shape) :: rest =>
    match awaiting, shape with
    | some flag, .operand => collect (p.setValue flag s) none [] rest
    | some flag, _ => missingValue flag
    | none, .operand | none, .endOfOptions => collect p none (pending ++ [(s, shape)]) rest
    | none, shape =>
      let p := if pending.isEmpty then p else takeOperands p pending
      match shape with
      | .option flag short attached =>
        if flag.takesValue then
          match attached with
          | some value => collect (p.setValue flag value) none [] rest
          | none => collect p (some flag) [] rest
        else plainOption flag short (operandNext rest) attached
      | _ => collect { p with extras := p.extras ++ [s] } none [] rest

/-- What the arguments ask for. -/
def parse (args : List Text) : Request :=
  let args := shapes args
  match ambiguity? args with
  | some message => .mistake message
  | none => collect .start none [] args

/-- The first line of the help. -/
def usage : Text :=
  "usage: callisp [-h] [-e CODE] [--log-file LOG_FILE] [--version] [file]\n"

def helpText : Text :=
  usage ++ "\ncallisp interpreter\n\npositional arguments:\n" ++
    "  file                  source file to run (starts the REPL if omitted)\n\noptions:\n" ++
    "  -h, --help            show this help message and exit\n" ++
    "  -e CODE, --eval CODE  evaluate CODE and print each result\n" ++
    "  --log-file LOG_FILE   also write debug logs to this file\n" ++
    "  --version             show program's version number and exit\n"

def versionText : Text := "callisp 0.3.0\n"

def mistakeText (message : Text) : Text := usage ++ "callisp: error: " ++ message ++ "\n"

end CommandLine
end SmallLisp
