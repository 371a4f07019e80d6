import SmallLisp.Proofs.Eval.Bounded

/-!
The rules of evaluation.

`Evaluates` tells how the evaluation of a form can end, by one rule for each case and with no stack in
sight.  A derivation is finite, so that a form whose evaluation never ends has none.
-/

namespace SmallLisp

def Value.isProcedure : Value → Bool
  | .closure .. | .builtin .. => true
  | _ => false

/-- How many parts a special form has. -/
def SpecialForm.partCount : SpecialForm → Nat
  | .define | .lambda => 2
  | .ifElse => 3
  | .quote => 1

/-- The text of the file that `use` is asked for. -/
def Primitive.usedText (host : Host) : Value → Run Text
  | .symbol name => do
    let p ← Run.ofExcept ((findFile host name).mapError .file)
    match ← Run.fileText host p with
    | .error e => Run.fail (.unreadable p.toText e)
    | .ok text => do
      Run.log logger .debug ("use: evaluating " ++ p.toText)
      pure text
  | v => Run.fail (.notFileName v.kind)

mutual

/-- The evaluation of a form in a frame leads from one state to another and ends in a value or a fault.
A fault in a part of a form is the fault of the form, and the parts after it are not evaluated. -/
inductive Evaluates (host : Host) : Value → Nat → State → Except Fault Value → State → Prop
  -- Numbers, truth values, procedures and the unspecified value.
  | itself {form : Value} {frame : Nat} {s : State} :
    form.symbol? = none → form.list? = none → Evaluates host form frame s (.ok form) s
  | bound {name : Text} {frame : Nat} {s : State} {v : Value} :
    s.store.lookup? frame name = some v → Evaluates host (.symbol name) frame s (.ok v) s
  | unbound {name : Text} {frame : Nat} {s : State} :
    s.store.lookup? frame name = none →
    Evaluates host (.symbol name) frame s (.error (.error (.unbound name))) s
  | empty {frame : Nat} {s : State} :
    Evaluates host (.list []) frame s (.error (.error .emptyApplication)) s
  -- Special forms.
  | formArity {head : Value} {special : SpecialForm} {parts : List Value} {frame : Nat} {s : State} :
    head.specialForm? = some special → parts.length ≠ special.partCount →
    Evaluates host (.list (head :: parts)) frame s (.error (.error (.formArity special))) s
  | defineName {head name form : Value} {frame : Nat} {s : State} :
    head.specialForm? = some .define → name.symbol? = none →
    Evaluates host (.list [head, name, form]) frame s (.error (.error (.defineName name.inspect))) s
  | defineFault {head form : Value} {x : Text} {frame : Nat} {s t : State} {f : Fault} :
    head.specialForm? = some .define → Evaluates host form frame s (.error f) t →
    Evaluates host (.list [head, .symbol x, form]) frame s (.error f) t
  | define {head form v : Value} {x : Text} {frame : Nat} {s t : State} :
    head.specialForm? = some .define → Evaluates host form frame s (.ok v) t →
    Evaluates host (.list [head, .symbol x, form]) frame s (.ok v)
      { t with store := t.store.define frame x v }
  | lambdaFormals {head formals body : Value} {frame : Nat} {s : State} :
    head.specialForm? = some .lambda → formals.formals? = none →
    Evaluates host (.list [head, formals, body]) frame s (.error (.error .lambdaFormals)) s
  | lambda {head formals body : Value} {names : List Text} {frame : Nat} {s : State} :
    head.specialForm? = some .lambda → formals.formals? = some names →
    Evaluates host (.list [head, formals, body]) frame s
      (.ok (.closure s.store.identities names body frame)) { s with store := s.store.newIdentity.2 }
  | conditionFault {head condition yes no : Value} {frame : Nat} {s t : State} {f : Fault} :
    head.specialForm? = some .ifElse → Evaluates host condition frame s (.error f) t →
    Evaluates host (.list [head, condition, yes, no]) frame s (.error f) t
  | yes {head condition yes no v : Value} {frame : Nat} {s t u : State} {r : Except Fault Value} :
    head.specialForm? = some .ifElse → Evaluates host condition frame s (.ok v) t →
    v ≠ .bool false → Evaluates host yes frame t r u →
    Evaluates host (.list [head, condition, yes, no]) frame s r u
  | no {head condition yes no : Value} {frame : Nat} {s t u : State} {r : Except Fault Value} :
    head.specialForm? = some .ifElse → Evaluates host condition frame s (.ok (.bool false)) t →
    Evaluates host no frame t r u → Evaluates host (.list [head, condition, yes, no]) frame s r u
  | quote {head form : Value} {frame : Nat} {s : State} :
    head.specialForm? = some .quote → Evaluates host (.list [head, form]) frame s (.ok form) s
  -- Calls.  What the head is matters only once the operands have values.
  | headFault {head : Value} {operands : List Value} {frame : Nat} {s t : State} {f : Fault} :
    head.specialForm? = none → Evaluates host head frame s (.error f) t →
    Evaluates host (.list (head :: operands)) frame s (.error f) t
  | operandFault {head fn : Value} {operands : List Value} {frame : Nat} {s t u : State} {f : Fault} :
    head.specialForm? = none → Evaluates host head frame s (.ok fn) t →
    EvaluatesAll host operands frame t (.error f) u →
    Evaluates host (.list (head :: operands)) frame s (.error f) u
  | call {head fn : Value} {operands args : List Value} {frame : Nat} {s t u w : State}
    {r : Except Fault Value} :
    head.specialForm? = none → Evaluates host head frame s (.ok fn) t →
    EvaluatesAll host operands frame t (.ok args) u → Applies host fn args frame u r w →
    Evaluates host (.list (head :: operands)) frame s r w

/-- Operands have their values found from left to right. -/
inductive EvaluatesAll (host : Host) :
    List Value → Nat → State → Except Fault (List Value) → State → Prop
  | nil {frame : Nat} {s : State} : EvaluatesAll host [] frame s (.ok []) s
  | fault {e : Value} {es : List Value} {frame : Nat} {s t : State} {f : Fault} :
    Evaluates host e frame s (.error f) t → EvaluatesAll host (e :: es) frame s (.error f) t
  | restFault {e v : Value} {es : List Value} {frame : Nat} {s t u : State} {f : Fault} :
    Evaluates host e frame s (.ok v) t → EvaluatesAll host es frame t (.error f) u →
    EvaluatesAll host (e :: es) frame s (.error f) u
  | cons {e v : Value} {es vs : List Value} {frame : Nat} {s t u : State} :
    Evaluates host e frame s (.ok v) t → EvaluatesAll host es frame t (.ok vs) u →
    EvaluatesAll host (e :: es) frame s (.ok (v :: vs)) u

/-- The application of a value to arguments by a caller in a frame. -/
inductive Applies (host : Host) :
    Value → List Value → Nat → State → Except Fault Value → State → Prop
  | notCallable {fn : Value} {args : List Value} {frame : Nat} {s : State} :
    fn.isProcedure = false →
    Applies host fn args frame s (.error (.error (.notCallable fn.render))) s
  | closureArity {id home frame : Nat} {formals : List Text} {body : Value} {args : List Value}
    {s : State} :
    formals.length ≠ args.length →
    Applies host (.closure id formals body home) args frame s
      (.error (.error (.closureArity (Value.closure id formals body home).render formals.length
        args.length))) s
  -- The body is evaluated in a new frame inside the frame where the closure was made.
  | closure {id home frame : Nat} {formals : List Text} {body : Value} {args : List Value}
    {s t : State} {r : Except Fault Value} :
    formals.length = args.length →
    Evaluates host body s.store.frames.size (s.extend home formals args) r t →
    Applies host (.closure id formals body home) args frame s r t
  | arity {op : Primitive} {id frame : Nat} {args : List Value} {s : State} :
    op.arity.admits args.length = false →
    Applies host (.builtin op id) args frame s
      (.error (.error (.arity op.name op.arity args.length))) s
  | primitive {op : Primitive} {id frame : Nat} {args : List Value} {s t : State}
    {r : Except Fault Value} :
    op ≠ .eval → op ≠ .use → op.arity.admits args.length = true → op.perform args s = (r, t) →
    Applies host (.builtin op id) args frame s r t
  -- Forms that primitives are given are evaluated in the frame of the caller.
  | eval {id frame : Nat} {form : Value} {s t : State} {r : Except Fault Value} :
    Evaluates host form frame s r t → Applies host (.builtin .eval id) [form] frame s r t
  | useFault {id frame : Nat} {name : Value} {s t : State} {f : Fault} :
    Primitive.usedText host name s = (.error f, t) →
    Applies host (.builtin .use id) [name] frame s (.error f) t
  | use {id frame : Nat} {name : Value} {text : Text} {s t u : State} {r : Except Fault Value} :
    Primitive.usedText host name s = (.ok text, t) →
    EvaluatesForms host .unspecified (read text).forms (read text).error frame t r u →
    Applies host (.builtin .use id) [name] frame s r u

/-- The forms of a text are evaluated one after the other, up to its syntax error, if it has one.  The
value is that of the last form, or the given one if there is none. -/
inductive EvaluatesForms (host : Host) :
    Value → List Value → Option SyntaxError → Nat → State → Except Fault Value → State → Prop
  | done {last : Value} {frame : Nat} {s : State} :
    EvaluatesForms host last [] none frame s (.ok last) s
  | syntaxError {last : Value} {e : SyntaxError} {frame : Nat} {s : State} :
    EvaluatesForms host last [] (some e) frame s (.error (.error (.syntaxError e))) s
  | fault {last form : Value} {forms : List Value} {error : Option SyntaxError} {frame : Nat}
    {s t : State} {f : Fault} :
    Evaluates host form frame s (.error f) t →
    EvaluatesForms host last (form :: forms) error frame s (.error f) t
  | next {last form v : Value} {forms : List Value} {error : Option SyntaxError} {frame : Nat}
    {s t u : State} {r : Except Fault Value} :
    Evaluates host form frame s (.ok v) t → EvaluatesForms host v forms error frame t r u →
    EvaluatesForms host last (form :: forms) error frame s r u

end

end SmallLisp
