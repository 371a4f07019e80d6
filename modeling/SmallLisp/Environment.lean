import SmallLisp.Eval.Evaluate

/-!
Environments as clients see them, with values where names belong: binding and looking up check that
a name is a symbol.
-/

namespace SmallLisp
namespace Environment

/-- A new frame. -/
def new (outer : Option Nat) : Run Nat := Run.onStore fun s => s.newFrame outer

/-- The text of a value that stands where a name belongs. -/
def nameText (frames : Nat) (name : Value) : Run Text :=
  if name.inspectsWithin frames then pure name.inspectName else Run.fault .overflow

/-- Binds a symbol in a frame. -/
def define (frames : Nat) (frame : Nat) (name v : Value) : Run Unit :=
  match name with
  | .symbol x => Run.modifyStore fun s => s.define frame x v
  | other => do
    let text ← nameText frames other
    Run.fail (.invalidName text)

/-- Binds symbols in a frame, up to the first name that is none. -/
def defineEach (frames : Nat) (frame : Nat) : List (Value × Value) → Run Unit
  | [] => pure ()
  | (name, v) :: rest => do
    define frames frame name v
    defineEach frames frame rest

/-- Gives the first pair with the symbol `name` the value `v`, or adds a pair at the end. -/
def insertPair (name : Text) (v : Value) : List (Value × Value) → List (Value × Value)
  | [] => [(.symbol name, v)]
  | (key, w) :: rest =>
    if key.symbol? = some name then (key, v) :: rest else (key, w) :: insertPair name v rest

/-- The pairs with one pair for each symbol: at its first place, with its last value. -/
def collapse (pairs : List (Value × Value)) : List (Value × Value) :=
  pairs.foldl
    (fun done pair =>
      match pair.1 with
      | .symbol name => insertPair name pair.2 done
      | _ => done ++ [pair])
    []

/-- Binds the symbols of a mapping in a frame.  A list cannot be a key of a mapping. -/
def update (frames : Nat) (frame : Nat) (pairs : List (Value × Value)) : Run Unit :=
  if pairs.any fun pair => pair.1.list?.isSome then Run.fault .listName
  else defineEach frames frame (collapse pairs)

/-- The frame in which a name is bound, seen from a frame. -/
def find? (frame : Nat) (name : Value) : Run (Option Nat) := fun s =>
  match name with
  | .list _ => (.error .listName, s)
  | .symbol x => (.ok (s.store.find? frame x), s)
  | _ => (.ok none, s)

/-- The value of a name, seen from a frame. -/
def lookup (frames : Nat) (frame : Nat) (name : Value) : Run Value :=
  match name with
  | .list _ => Run.fault .listName
  | .symbol x => Run.lookup frame x
  | other => do
    let text ← nameText frames other
    Run.fail (.unbound text)

/-- Binds the primitives in a frame. -/
def register (frame : Nat) : Run Unit := Run.modifyStore fun s => s.register frame

/-- The bindings of a frame in words. -/
def describe (frames : Nat) (frame : Nat) : Run Text := fun s =>
  if s.store.describesWithin frames frame then (.ok (s.store.describe frame), s)
  else (.error .overflow, s)

end Environment
end SmallLisp
