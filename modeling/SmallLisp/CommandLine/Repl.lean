import SmallLisp.Interpreter

/-!
The read-eval-print loop, and what it shares with evaluating the text of an argument: each value is
printed as soon as it is there, and a mistake is reported without ending the loop.
-/

namespace SmallLisp
namespace Repl

def prompt : Text := "callisp> "

/-- The prompt inside an unfinished form. -/
def continuation : Text := "...      "

/-- The name under which the loop keeps its log. -/
def logger : Text := "callisp.repl"

/-- Reports a mistake. -/
def report (message : Text) : Run Unit := do
  Run.note (.line ("error: " ++ message ++ "\n"))
  Run.log logger .debug "evaluation failed"

/-- Writes to the standard output, which takes every text. -/
def print (text : Text) : Run Unit :=
  Run.modifyConsole fun c => c.writeTo .standard text

/-- Prints a value on a line of its own; the unspecified value is not printed. -/
def printValue (frames : Nat) (v : Value) : Run Unit :=
  match v with
  | .unspecified => pure ()
  | v => do
    let text ← Run.shown frames v
    print (text ++ "\n")

/-- Evaluates the forms one after the other and prints each value. -/
def printEach (setup : Setup) (frame : Nat) : List Value → Run Unit
  | [] => pure ()
  | e :: es => do
    let v ← setup.evaluator e frame
    printValue setup.frames v
    printEach setup frame es

/-- Evaluates a text and prints the value of each form. -/
def printAll (setup : Setup) (i : Interpreter) (source : Text) : Run Unit := do
  let reading := read source
  printEach setup i.frame reading.forms
  match reading.error with
  | none => pure ()
  | some e => Run.fail (.syntaxError e)

/-- Evaluates a text and prints the value of each form; whether that went well.  Mistakes of the
program and overflow are reported, and everything else ends the run. -/
def evalAndPrint (setup : Setup) (i : Interpreter) (source : Text) : Run Bool := do
  match ← Run.outcome (printAll setup i source) with
  | .ok () => pure true
  | .error (.error e) => do
    report e.message
    pure false
  | .error .overflow => do
    report Fault.overflow.describe
    pure false
  | .error f => Run.fault f

/-- What a typed line leads to: more lines are needed, or the source is complete. -/
inductive Typed where
  | pending (source : Text)
  | complete (source : Text)
  deriving DecidableEq, Repr

/-- Adds a typed line to the pending source. -/
def accept (pending line : Text) : Typed :=
  let source := pending ++ line ++ "\n"
  if needsMore source then .pending source else .complete source

/-- Takes what arrives next from the standard input; nothing at its end. -/
def nextArrival : Run (Option Arrival) := fun s =>
  match s.console.standardInput with
  | [] => (.ok none, s)
  | arrival :: rest =>
    (.ok (some arrival), { s with console := { s.console with standardInput := rest } })

/-- A line without the line feed at its end. -/
def withoutLineFeed (text : Text) : Text :=
  if text.getLast? = some (.char '\n') then text.dropLast else text

/-- The prompt that is shown while `pending` is the source of an unfinished form. -/
def promptFor (pending : Text) : Text := if pending.isEmpty then prompt else continuation

/-- What the loop does with what arrives at the prompt: the source that is pending afterwards, or
nothing at the end of the input. -/
def turn (setup : Setup) (i : Interpreter) (pending : Text) :
    Option Arrival → Run (Option Text)
  | none => do
    print "\n"
    pure none
  | some .interrupted => do
    print "\n"
    pure (some "")
  | some .failed => Run.fault .inputFailed
  | some (.line text) =>
    match accept pending (withoutLineFeed text) with
    | .pending source => pure (some source)
    | .complete source => do
      let _ ← evalAndPrint setup i source
      pure (some "")

/-- At most `fuel` turns of the loop; `pending` is the source of an unfinished form. -/
def turns (setup : Setup) (i : Interpreter) : (fuel : Nat) → (pending : Text) → Run Unit
  | 0, _ => pure ()
  | fuel + 1, pending => do
    print (promptFor pending)
    let arrival ← nextArrival
    match ← turn setup i pending arrival with
    | some pending => turns setup i fuel pending
    | none => pure ()

/-- The loop, until the standard input ends.  Every turn takes at least one line, so there are at
most as many turns as lines, and the one that sees the end. -/
def loop (setup : Setup) (i : Interpreter) : Run Unit := do
  let s ← Run.get
  turns setup i (s.console.standardInput.length + 1) ""

/-- Notes that there is no line editing, if there is none. -/
def noteEditing (lineEditing : Bool) : Run Unit :=
  if lineEditing then pure ()
  else Run.log logger .debug "readline unavailable, line editing disabled"

/-- Starts the loop. -/
def start (setup : Setup) (lineEditing : Bool) (i : Interpreter) : Run Unit := do
  noteEditing lineEditing
  loop setup i

end Repl
end SmallLisp
