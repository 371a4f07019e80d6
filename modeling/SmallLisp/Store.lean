import SmallLisp.Table
import SmallLisp.Value.Printer

/-!
Environments.  A store holds the frames made so far, numbered in order; a frame holds bindings and
the number of the frame around it.  `chain` lists the frames seen from a frame, innermost first, and
every question about names is a question about that list.
-/

namespace SmallLisp

structure Frame where
  bindings : Table Value
  outer : Option Nat

/-- The frames, and how many identities have been given to procedures. -/
structure Store where
  frames : Array Frame
  identities : Nat

namespace Store

def empty : Store := ⟨#[], 0⟩

def frame? (s : Store) (i : Nat) : Option Frame := s.frames[i]?

def outer? (s : Store) (i : Nat) : Option Nat :=
  match s.frame? i with
  | some f => f.outer
  | none => none

def bindings (s : Store) (i : Nat) : Table Value :=
  match s.frame? i with
  | some f => f.bindings
  | none => []

/-- At most `fuel` frames of the chain that starts at frame `i`. -/
def chainFrom (s : Store) : (fuel : Nat) → Nat → List Nat
  | 0, _ => []
  | fuel + 1, i =>
    i :: match s.outer? i with
      | some outer => chainFrom s fuel outer
      | none => []

/-- The frames seen from frame `i`, innermost first.  A frame is made after the frame around it, so
there are no more of them than frames. -/
def chain (s : Store) (i : Nat) : List Nat := s.chainFrom s.frames.size i

/-- The innermost frame seen from `i` that binds `name`. -/
def find? (s : Store) (i : Nat) (name : Text) : Option Nat :=
  (s.chain i).find? fun j => (s.bindings j).contains name

/-- The value of `name` seen from frame `i`. -/
def lookup? (s : Store) (i : Nat) (name : Text) : Option Value :=
  match s.find? i name with
  | some j => (s.bindings j).get? name
  | none => none

/-- The outermost frame seen from `i`. -/
def root (s : Store) (i : Nat) : Nat := (s.chain i).getLast?.getD i

/-- A new frame inside `outer`: its number, and the store with it. -/
def newFrame (s : Store) (outer : Option Nat) : Nat × Store :=
  (s.frames.size, { s with frames := s.frames.push ⟨[], outer⟩ })

/-- Binds a name in frame `i`, in place of a binding it has there. -/
def define (s : Store) (i : Nat) (name : Text) (v : Value) : Store :=
  { s with
    frames := s.frames.modify i fun f => { f with bindings := f.bindings.insert name v } }

/-- Binds names in frame `i`, one after the other. -/
def defineAll (s : Store) (i : Nat) (bindings : List (Text × Value)) : Store :=
  bindings.foldl (fun s binding => s.define i binding.1 binding.2) s

/-- An identity that no procedure has yet. -/
def newIdentity (s : Store) : Nat × Store :=
  (s.identities, { s with identities := s.identities + 1 })

/-- A new frame inside `outer` in which the formals have the values of the arguments; the last of
equal formals counts. -/
def extend (s : Store) (outer : Nat) (formals : List Text) (args : List Value) : Nat × Store :=
  let (i, s) := s.newFrame (some outer)
  (i, s.defineAll i (formals.zip args))

/-- Binds the primitive procedures and the truth values in frame `i`. -/
def register (s : Store) (i : Nat) : Store :=
  let (id, s) := s.newIdentity
  let constants : Table Value := [("true", .bool true), ("false", .bool false)]
  s.defineAll i ((Primitive.all.map fun p => (p.name, Value.builtin p id)) ++ constants)

/-- The bindings of frame `i` in words, and whether there is a frame around it. -/
def describe (s : Store) (i : Nat) : Text :=
  let shown : List Text := (s.bindings i).map fun binding =>
    binding.1 ++ ": " ++ binding.2.inspect
  "\x7b" ++ Text.join ", " shown ++ "\x7d" ++ (if (s.outer? i).isSome then " -> ..." else "")

/-- Whether so many stack frames are enough for writing out the values in `describe`. -/
def describesWithin (s : Store) (frames : Nat) (i : Nat) : Bool :=
  (s.bindings i).all fun binding => binding.2.inspectsWithin frames

/-- The numbers of bindings of the frames seen from frame `i`. -/
def describeChain (s : Store) (i : Nat) : Text :=
  let sizes := (s.chain i).map fun j => Text.ofNat (s.bindings j).length
  "<Environment chain: " ++ Text.join " -> " sizes ++ ">"

end Store
end SmallLisp
