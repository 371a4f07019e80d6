import SmallLisp.Eval.Run

/-!
The parts of evaluation that evaluate something else on the way: operands, special forms, and the
forms of a text.  Each takes the evaluator it uses as an argument, or the part of the stack that is
left for it, which holds the evaluator.
-/

namespace SmallLisp

/-- Gives the value of a form in a frame. -/
abbrev Evaluator := Value → Nat → Run Value

/-- What is left of the stack: the number of frames, and evaluation with so many of them less. -/
structure Headroom where
  frames : Nat
  evaluateBelow : Nat → Evaluator

namespace Headroom

/-- Evaluation with all the frames that are left. -/
def evaluate (room : Headroom) : Evaluator := room.evaluateBelow 0

/-- What is left after taking `n` frames. -/
def enter (room : Headroom) (n : Nat) : Headroom :=
  ⟨room.frames - n, fun used => room.evaluateBelow (n + used)⟩

end Headroom

/-- The values of forms, found from left to right. -/
def evaluateAll (ev : Evaluator) (frame : Nat) : List Value → Run (List Value)
  | [] => pure []
  | e :: es => do
    let v ← ev e frame
    let vs ← evaluateAll ev frame es
    pure (v :: vs)

/-- The value of the last of some forms, or `last` if there are none. -/
def evaluateForms (ev : Evaluator) (frame : Nat) (last : Value) : List Value → Run Value
  | [] => pure last
  | e :: es => do
    let v ← ev e frame
    evaluateForms ev frame v es

/-- The value of the last form of a text.  The forms before a syntax error are evaluated first. -/
def evaluateReading (ev : Evaluator) (frame : Nat) (r : Reading) : Run Value := do
  let v ← evaluateForms ev frame .unspecified r.forms
  match r.error with
  | none => pure v
  | some e => Run.fail (.syntaxError e)

/-- The names in a list of symbols. -/
def Value.names? : List Value → Option (List Text)
  | [] => some []
  | .symbol name :: rest => (Value.names? rest).map (name :: ·)
  | _ :: _ => none

/-- The formals that the first part of a `lambda` form lists. -/
def Value.formals? : Value → Option (List Text)
  | .list items => Value.names? items
  | _ => none

namespace SpecialForm

/-- Binds a name to the value of a form in the current frame; its value is the value bound. -/
def runDefine (room : Headroom) (frame : Nat) (name form : Value) : Run Value :=
  match name with
  | .symbol x => do
    let v ← room.evaluate form frame
    Run.modifyStore fun s => s.define frame x v
    pure v
  | other => do
    let text ← Run.inspected room.frames other
    Run.fail (.defineName text)

/-- Makes a procedure; its body is not evaluated. -/
def runLambda (frame : Nat) (formals body : Value) : Run Value :=
  match formals.formals? with
  | none => Run.fail .lambdaFormals
  | some names => do
    let id ← Run.onStore Store.newIdentity
    pure (.closure id names body frame)

/-- Evaluates the condition and one of the branches; every value but `false` chooses the first. -/
def runIf (room : Headroom) (frame : Nat) (condition yes no : Value) : Run Value := do
  let v ← room.evaluate condition frame
  match v with
  | .bool false => room.evaluate no frame
  | _ => room.evaluate yes frame

/-- The value of a special form with these parts. -/
def run (room : Headroom) (frame : Nat) : SpecialForm → List Value → Run Value
  | .define, [name, form] => runDefine room frame name form
  | .lambda, [formals, body] => runLambda frame formals body
  | .ifElse, [condition, yes, no] => runIf room frame condition yes no
  | .quote, [form] => pure form
  | form, _ => Run.fail (.formArity form)

end SpecialForm

/-- The special form that the head of a list names. -/
def Value.specialForm? : Value → Option SpecialForm
  | .symbol name => SpecialForm.ofName? name
  | _ => none

end SmallLisp
