import SmallLisp.Eval.Evaluate
import SmallLisp.Settings

/-!
Interpreters.  An interpreter is a frame of the store that holds the primitives and what programs
define at top level; several interpreters share one store and one console.
-/

namespace SmallLisp

/-- What interpreters run in: the surroundings, the stack frames that evaluation can use, and the
file each of them starts with. -/
structure Setup where
  host : Host
  frames : Nat
  prelude : Option Path

/-- What a new interpreter runs before anything else. -/
inductive Prelude where
  | nothing
  /-- The prelude file of the setup, if it has one. -/
  | file
  | source (text : Text)
  deriving DecidableEq

structure Interpreter where
  frame : Nat

namespace Setup

/-- Evaluation with the frames of the setup. -/
def evaluator (setup : Setup) : Evaluator := evaluate setup.host setup.frames

end Setup

namespace Interpreter

/-- The value of the last form of a text. -/
def eval (setup : Setup) (i : Interpreter) (source : Text) : Run Value :=
  evaluateReading setup.evaluator i.frame (read source)

/-- The values of the forms, up to the first one that has none; and the fault it ends in. -/
def valuesOf (ev : Evaluator) (frame : Nat) : List Value → Run (List Value × Option Fault)
  | [] => pure ([], none)
  | e :: es => do
    match ← Run.outcome (ev e frame) with
    | .error f => pure ([], some f)
    | .ok v =>
      let (vs, f) ← valuesOf ev frame es
      pure (v :: vs, f)

/-- The values of the forms of a text, and the fault that the text ends in, if it does. -/
def values (setup : Setup) (i : Interpreter) (source : Text) :
    Run (List Value × Option Fault) := do
  let reading := read source
  let (vs, f) ← valuesOf setup.evaluator i.frame reading.forms
  pure (vs, f.or (reading.error.map fun e => .error (.syntaxError e)))

/-- The name under which interpreters keep their log. -/
def logger : Text := "callisp.interpreter"

/-- Runs a file. -/
def load (setup : Setup) (i : Interpreter) (p : Path) : Run Value := do
  Run.log logger .debug ("loading " ++ p.toText)
  match ← Run.fileText setup.host p with
  | .ok text => i.eval setup text
  | .error e => Run.fault (.file e)

/-- Runs the prelude. -/
def runPrelude (setup : Setup) (i : Interpreter) : Prelude → Run Unit
  | .nothing => pure ()
  | .file =>
    match setup.prelude with
    | none => pure ()
    | some p => do
      let _ ← i.load setup p
      pure ()
  | .source text => do
    let _ ← i.eval setup text
    pure ()

/-- A new interpreter.  The streams that are given become the streams of all interpreters. -/
def create (setup : Setup) (prelude : Prelude) (input : Option Input) (output : Option Output) :
    Run Interpreter := do
  let frame ← Run.onStore fun s => s.newFrame none
  Run.modifyStore fun s => s.register frame
  Run.modifyConsole fun c => c.install input output
  let i : Interpreter := ⟨frame⟩
  i.runPrelude setup prelude
  pure i

end Interpreter
end SmallLisp
