import SmallLisp.Files.Tree
import SmallLisp.Primitive
import SmallLisp.Reader.Form

/-!
What can go wrong.  An `Error` is a mistake of a program; a `Fault` is anything that ends a run
before it has a value.  A value that an error is about is held as its text, because the text is made
when the error arises and making it can itself end the run.
-/

namespace SmallLisp

/-- The forms that are not procedure calls. -/
inductive SpecialForm where
  | define
  | lambda
  | ifElse
  | quote
  deriving DecidableEq, Repr

namespace SpecialForm

/-- The names of the special forms; two of the forms have two names each. -/
def names : List (Text × SpecialForm) :=
  [("def", .define), ("define", .define), ("lambda", .lambda), ("λ", .lambda), ("if", .ifElse),
    ("quote", .quote)]

def ofName? (name : Text) : Option SpecialForm := names.lookup name

end SpecialForm

inductive Error where
  | syntaxError (e : SyntaxError)
  /-- Something other than a symbol was to be bound. -/
  | invalidName (shown : Text)
  | unbound (name : Text)
  | emptyApplication
  | notCallable (shown : Text)
  /-- A special form with a wrong number of parts. -/
  | formArity (form : SpecialForm)
  | closureArity (shown : Text) (expected given : Nat)
  | arity (name : Text) (allowed : Arity) (given : Nat)
  | defineName (shown : Text)
  | lambdaFormals
  | notNumber (name : Text) (shown : Text)
  | notList (name : Text) (kind : Text)
  | notFileName (kind : Text)
  | exitStatus (shown : Text)
  | divisionByZero
  | unreadable (path : Text) (reason : FileError)
  | inputFailed
  deriving DecidableEq, Repr

namespace Error

/-- The families of errors that callers tell apart. -/
inductive Category where
  | readerSyntax
  | invalidSymbol
  | unboundSymbol
  | emptyApplication
  | notCallable
  | arity
  | type
  | divisionByZero
  | inputOutput
  deriving DecidableEq, Repr

def category : Error → Category
  | .syntaxError _ => .readerSyntax
  | .invalidName _ => .invalidSymbol
  | .unbound _ => .unboundSymbol
  | .emptyApplication => .emptyApplication
  | .notCallable _ => .notCallable
  | .formArity _ | .closureArity .. | .arity .. => .arity
  | .defineName _ | .lambdaFormals | .notNumber .. | .notList .. | .notFileName _ | .exitStatus _ =>
    .type
  | .divisionByZero => .divisionByZero
  | .unreadable .. | .inputFailed => .inputOutput

def formMessage : SpecialForm → Text
  | .define => "def requires exactly 2 arguments"
  | .lambda => "lambda requires a parameter list and a single body expression"
  | .ifElse => "if requires a condition, a then-expression and an else-expression"
  | .quote => "quote expects exactly one argument"

def message : Error → Text
  | .syntaxError e => e.describe
  | .invalidName shown => "Cannot define " ++ shown ++ " as a symbol"
  | .unbound name => "Cannot lookup unbound symbol " ++ name
  | .emptyApplication => "Cannot evaluate the empty list: it has no callable head"
  | .notCallable shown => "Cannot apply non-function " ++ shown
  | .formArity form => formMessage form
  | .closureArity shown expected given =>
    shown ++ " expects " ++ Text.ofNat expected ++ " argument(s), got " ++ Text.ofNat given
  | .arity name allowed given =>
    name ++ " takes " ++ allowed.describe ++ " argument(s), got " ++ Text.ofNat given
  | .defineName shown => "def expects a symbol name, got " ++ shown
  | .lambdaFormals => "lambda parameters must be a list of symbols"
  | .notNumber name shown => "All arguments to " ++ name ++ " must be numbers, got " ++ shown
  | .notList name kind => name ++ " expects a list, got " ++ kind
  | .notFileName kind => "use expects a symbol naming a file, got " ++ kind
  | .exitStatus shown => "exit status must be a finite number, got " ++ shown
  | .divisionByZero => "Division by zero"
  | .unreadable path reason => "Cannot read " ++ path ++ ": " ++ reason.describe
  | .inputFailed => "Cannot read input: input failed"

end Error

/-- What ends a run before it has a value. -/
inductive Fault where
  | error (e : Error)
  /-- The program asked to end with this status. -/
  | exit (status : Int)
  /-- The nesting limit was reached. -/
  | overflow
  /-- The input was interrupted. -/
  | interrupt
  /-- A file could not be read, outside of anything that reports this as an error. -/
  | file (e : FileError)
  /-- The input failed, outside of anything that reports this as an error. -/
  | inputFailed
  /-- A path cannot be used, whatever the files are. -/
  | invalidPath (reason : Path.Invalid)
  /-- A list stands where a name is looked for. -/
  | listName
  deriving DecidableEq, Repr

namespace Fault

/-- The words for a fault; leaving a program has none. -/
def describe : Fault → Text
  | .error e => e.message
  | .exit _ | .interrupt => ""
  | .overflow => "maximum recursion depth exceeded"
  | .file e => e.describe
  | .inputFailed => "input failed"
  | .invalidPath reason => reason.describe
  | .listName => "unhashable type: 'list'"

end Fault

end SmallLisp
