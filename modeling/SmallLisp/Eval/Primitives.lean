import SmallLisp.Eval.Forms
import SmallLisp.Value.Equality

/-!
What the primitive procedures do.  `Primitive.call` checks the number of arguments and then runs the
procedure; the procedures that evaluate or read files do so in the frame of the caller.
-/

namespace SmallLisp

namespace Binary64

def one : Binary64 := ofNat 1

def sum (xs : List Binary64) : Binary64 := xs.foldl add (zero false)

/-- The first number less all others; of one number, its negation. -/
def difference : List Binary64 → Binary64
  | [] => zero false
  | [x] => neg x
  | x :: rest => rest.foldl sub x

def product (xs : List Binary64) : Binary64 := xs.foldl mul one

/-- Divides by each divisor in turn; nothing if one of them is zero. -/
def divideBy (x : Binary64) : List Binary64 → Option Binary64
  | [] => some x
  | y :: ys => if y.isZero then none else divideBy (div x y) ys

/-- The first number divided by all others; of one number, its reciprocal. -/
def quotient : List Binary64 → Option Binary64
  | [] => some one
  | [x] => divideBy one [x]
  | x :: rest => divideBy x rest

/-- Whether each number stands in the relation to the next one. -/
def chained (rel : Binary64 → Binary64 → Bool) : List Binary64 → Bool
  | x :: y :: rest => rel x y && chained rel (y :: rest)
  | _ => true

end Binary64

namespace Primitive

/-- The name under which the primitives keep their log. -/
def logger : Text := "callisp.builtin.env_builtin"

/-- The arguments as numbers; the first one that is not a number is the one complained about. -/
def numbers (frames : Nat) (name : Text) : List Value → Run (List Binary64)
  | [] => pure []
  | .number x :: rest => do
    let xs ← numbers frames name rest
    pure (x :: xs)
  | v :: _ => do
    let text ← Run.shown frames v
    Run.fail (.notNumber name text)

/-- The first argument as a list. -/
def listArgument (name : Text) : List Value → Run (List Value)
  | .list items :: _ => pure items
  | v :: _ => Run.fail (.notList name v.kind)
  | [] => pure []

def compare (frames : Nat) (op : Primitive) (rel : Binary64 → Binary64 → Bool) (args : List Value) :
    Run Value := do
  let xs ← numbers frames op.name args
  pure (.bool (Binary64.chained rel xs))

/-- Whether a path leads to a file.  A path that cannot be used leads to none; only an overlong one
is an error here, as every directory of a file tree can be searched. -/
def isFile (files : FileTree) (p : Path) : Except FileError Bool :=
  match p.invalid?, files.resolve p with
  | some _, _ => .ok false
  | none, .ok (.file _) => .ok true
  | none, .error (.nameTooLong path) => .error (.nameTooLong path)
  | none, _ => .ok false

/-- The first of the directories that holds the file; the path itself if none does. -/
def searchFile (files : FileTree) (p : Path) : List Path → Except FileError Path
  | [] => pure p
  | directory :: rest => do
    let found ← isFile files (directory.within p)
    if found then pure (directory.within p) else searchFile files p rest

/-- The file that `use` reads for a name: the one of that path if there is one, else the first one
along the search path. -/
def findFile (host : Host) (name : Text) : Except FileError Path := do
  let p := Path.ofText name
  if p.isAbsolute then pure p
  else
    let found ← isFile host.files p
    if found then pure p else searchFile host.files p host.searchPath

/-- Evaluates the forms of a file in the frame of the caller. -/
def useFile (host : Host) (ev : Evaluator) (frame : Nat) : Value → Run Value
  | .symbol name => do
    let p ← Run.ofExcept ((findFile host name).mapError .file)
    match ← Run.fileText host p with
    | .error e => Run.fail (.unreadable p.toText e)
    | .ok text => do
      Run.log logger .debug ("use: evaluating " ++ p.toText)
      evaluateReading ev frame (read text)
  | v => Run.fail (.notFileName v.kind)

/-- `text` without the line feeds and carriage returns at its end. -/
def withoutLineEnd (text : Text) : Text :=
  Text.dropEndWhile (fun c => c == .char '\r' || c == .char '\n') text

/-- The next line as a symbol; the empty symbol at the end of the input. -/
def readLine : Run Value := do
  match ← Run.nextArrival with
  | none => pure (.symbol "")
  | some (.line text) => pure (.symbol (withoutLineEnd text))
  | some .interrupted => Run.fault .interrupt
  | some .failed => Run.fail .inputFailed

/-- Ends the program with a status. -/
def exitWith (status : Int) : Run Value := do
  Run.log logger .debug ("exit with status " ++ Text.ofInt status)
  Run.fault (.exit status)

/-- The status that a number stands for. -/
def exitStatus (frames : Nat) (v : Value) : Run Int := do
  let xs ← numbers frames "exit" [v]
  match xs with
  | x :: _ =>
    if x.isFinite then pure x.truncate
    else
      let text ← Run.shown frames v
      Run.fail (.exitStatus text)
  | [] => pure 0

/-- Runs a primitive on a number of arguments that it takes. -/
def body (host : Host) (room : Headroom) (frame : Nat) (op : Primitive) (args : List Value) :
    Run Value :=
  match op, args with
  | .add, args => do
    let xs ← numbers (room.enter 1).frames "+" args
    pure (.number (Binary64.sum xs))
  | .subtract, args => do
    let xs ← numbers (room.enter 1).frames "-" args
    pure (.number (Binary64.difference xs))
  | .multiply, args => do
    let xs ← numbers (room.enter 1).frames "*" args
    pure (.number (Binary64.product xs))
  | .divide, args => do
    let xs ← numbers (room.enter 1).frames "/" args
    match Binary64.quotient xs with
    | some x => pure (.number x)
    | none => Run.fail .divisionByZero
  | .greater, args => compare (room.enter 1).frames .greater (fun x y => y.less x) args
  | .greaterEq, args => compare (room.enter 1).frames .greaterEq (fun x y => y.lessEq x) args
  | .less, args => compare (room.enter 1).frames .less Binary64.less args
  | .lessEq, args => compare (room.enter 1).frames .lessEq Binary64.lessEq args
  | .equal, [] => pure (.bool true)
  | .equal, first :: rest =>
    match Value.allSameWithin (room.enter 2).frames first rest with
    | some b => pure (.bool b)
    | none => Run.fault .overflow
  | .list, args => pure (.list args)
  | .isList, v :: _ => pure (.bool v.list?.isSome)
  | .isEmpty, args => do
    let items ← listArgument "empty?" args
    pure (.bool items.isEmpty)
  | .count, args => do
    let items ← listArgument "count" args
    pure (.number (.ofNat items.length))
  | .type, v :: _ => pure (.symbol v.kind)
  | .eval, form :: _ => room.evaluate form frame
  | .use, name :: _ => useFile host room.evaluate frame name
  | .putstr, v :: _ => do
    let text ← Run.shown room.frames v
    Run.write (text ++ "\n")
    pure .unspecified
  | .readline, _ => readLine
  | .exit, [] => exitWith 0
  | .exit, v :: _ => do
    let status ← exitStatus (room.enter 1).frames v
    exitWith status
  | _, [] => pure .unspecified

/-- Calls a primitive: the number of arguments is checked before anything else. -/
def call (host : Host) (room : Headroom) (frame : Nat) (op : Primitive) (args : List Value) :
    Run Value :=
  if op.arity.admits args.length then body host room frame op args
  else Run.fail (.arity op.name op.arity args.length)

end Primitive
end SmallLisp
