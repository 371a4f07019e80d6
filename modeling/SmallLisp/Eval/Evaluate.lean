import SmallLisp.Eval.Primitives

/-!
Evaluation.  `evaluate host frames` gives the value of a form with at most so many stack frames
inside each other; a run that needs more overflows.  An evaluation takes one frame, and the way from
it to an evaluation inside takes others, which depend on the place: an operand or a part of a special
form takes one, the body of a closure two, and a form given to a primitive four.

What is counted is what can nest: evaluating, showing and comparing.  Calls of constant depth in between,
such as looking a name up, making a frame or binding a name in it, are not counted, so the last few stack
frames before the limit last a little longer here.

`evaluateWithin` recurs on the frames one at a time, so that the number taken on the way can vary;
`evaluate_succ` is the equation to work with.
-/

namespace SmallLisp

/-- The frame for a call of a closure: new, inside the frame where the closure was made, with the
formals bound to the arguments.  Making it and binding the formals are calls of constant depth, which take
no stack frames here; showing the closure takes some. -/
def callFrame (frames : Nat) (closure : Value) (formals : List Text) (frame : Nat)
    (args : List Value) : Run Nat :=
  if formals.length = args.length then Run.onStore fun s => s.extend frame formals args
  else do
    let text ← Run.shown frames closure
    Run.fail (.closureArity text formals.length args.length)

/-- Evaluates the body of a closure in a frame for the call. -/
def applyClosure (room : Headroom) (closure : Value) (formals : List Text) (body : Value)
    (frame : Nat) (args : List Value) : Run Value := do
  let inner ← callFrame (room.enter 1).frames closure formals frame args
  room.evaluate body inner

/-- Applies a procedure to arguments; `frame` is the frame of the caller. -/
def apply (host : Host) (room : Headroom) (frame : Nat) (fn : Value) (args : List Value) :
    Run Value :=
  match fn with
  | .closure _ formals body home => applyClosure (room.enter 1) fn formals body home args
  | .builtin op _ => op.call host (room.enter 3) frame args
  | other => do
    let text ← Run.shown room.frames other
    Run.fail (.notCallable text)

/-- Evaluates head and operands from left to right, and only then looks at what the head is. -/
def evaluateCall (host : Host) (room : Headroom) (frame : Nat) (head : Value)
    (operands : List Value) : Run Value := do
  let fn ← room.evaluate head frame
  let args ← evaluateAll (room.enter 1).evaluate frame operands
  apply host (room.enter 1) frame fn args

/-- The value of a form, once the evaluation has taken its frame. -/
def evaluateStep (host : Host) (room : Headroom) (form : Value) (frame : Nat) : Run Value :=
  match form with
  | .symbol name => Run.lookup frame name
  | .list [] => Run.fail .emptyApplication
  | .list (head :: rest) =>
    match head.specialForm? with
    | some special => special.run (room.enter 1) frame rest
    | none => evaluateCall host room frame head rest
  | other => pure other

/-- Evaluation with `frames` frames, of which `used` are taken already. -/
def evaluateWithin (host : Host) : (frames used : Nat) → Evaluator
  | 0, _ => fun _ _ => Run.fault .overflow
  | frames + 1, 0 => evaluateStep host ⟨frames, evaluateWithin host frames⟩
  | frames + 1, used + 1 => evaluateWithin host frames used

/-- The value of a form in a frame. -/
def evaluate (host : Host) (frames : Nat) : Evaluator := evaluateWithin host frames 0

/-- The part of the stack that is left with so many frames. -/
def Headroom.ofFrames (host : Host) (frames : Nat) : Headroom :=
  ⟨frames, fun used => SmallLisp.evaluate host (frames - used)⟩

theorem evaluateWithin_eq (host : Host) (frames used : Nat) :
    evaluateWithin host frames used = evaluate host (frames - used) := by
  induction frames generalizing used with
  | zero => simp [evaluate, evaluateWithin]
  | succ frames ih =>
    cases used with
    | zero => rfl
    | succ used => simp [evaluateWithin, ih]

theorem evaluate_zero (host : Host) : evaluate host 0 = fun _ _ => Run.fault .overflow := rfl

/-- One evaluation takes one frame. -/
theorem evaluate_succ (host : Host) (frames : Nat) :
    evaluate host (frames + 1) = evaluateStep host (.ofFrames host frames) := by
  have h : evaluateWithin host frames = fun used => evaluate host (frames - used) :=
    funext (evaluateWithin_eq host frames)
  simp [evaluate, evaluateWithin, h, Headroom.ofFrames]

end SmallLisp
