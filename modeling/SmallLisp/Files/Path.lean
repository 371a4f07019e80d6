import SmallLisp.Text.Lines
import SmallLisp.Text.Quoted
import SmallLisp.Text.Utf8

/-!
File paths.  Writing a path and taking it apart forgets what does not matter: repeated slashes, a
slash at the end, and steps to the directory itself.  Steps to the parent stay, because the
directory before them may be missing.

A path reaches the operating system as bytes, so two paths whose texts differ may lead to one place:
a surrogate can stand for a byte.  A path with a surrogate that stands for none, or with the character
number zero, cannot be used at all.
-/

namespace SmallLisp

/-- The name of a file or directory, as the operating system knows it. -/
abbrev FileName := List UInt8

/-- Where a path starts.  Exactly two slashes are kept apart from one. -/
inductive Path.Anchor where
  | relative
  | root
  | doubleRoot
  deriving DecidableEq, Repr

structure Path where
  anchor : Path.Anchor
  steps : List Text
  deriving DecidableEq, Repr

namespace Path

def anchorOf : Text → Anchor
  | .char '/' :: .char '/' :: .char '/' :: _ => .root
  | .char '/' :: .char '/' :: _ => .doubleRoot
  | .char '/' :: _ => .root
  | _ => .relative

def ofText (t : Text) : Path :=
  { anchor := anchorOf t,
    steps := (Text.splitOn '/' t).filter fun step => !step.isEmpty && step != "." }

def isAbsolute (p : Path) : Bool := p.anchor != .relative

def toText (p : Path) : Text :=
  match p.anchor with
  | .relative => if p.steps.isEmpty then "." else Text.join "/" p.steps
  | .root => "/" ++ Text.join "/" p.steps
  | .doubleRoot => "//" ++ Text.join "/" p.steps

/-- The path `p` seen from the directory `base`. -/
def within (base p : Path) : Path :=
  if p.isAbsolute then p else { base with steps := base.steps ++ p.steps }

/-- Takes one more step after the steps `done`; a step to the parent takes the last one back. -/
def addStep (done : List Text) (step : Text) : List Text :=
  if step == ".." then done.dropLast else done ++ [step]

/-- The steps without steps to the parent, seen from the root and whatever the directories are. -/
def simplify (steps : List Text) : List Text := steps.foldl addStep []

/-- The directory that holds the end of the path. -/
def parent (p : Path) : Path := { p with steps := p.steps.dropLast }

/-- The steps as the operating system knows them. -/
def names (p : Path) : List FileName := p.steps.map Utf8.toName

/-- Why a path cannot be used. -/
inductive Invalid where
  /-- The surrogates from `start` on, `length` of them, stand for no bytes; `first` is the first. -/
  | surrogates (first : CodePoint) (start length : Nat)
  | nul
  deriving DecidableEq, Repr

def isSurrogate : CodePoint → Bool
  | .char _ => false
  | .surrogate _ => true

/-- The first surrogate that stands for no byte, and those right after it; `start` code points stand
before the text. -/
def badSurrogates? (start : Nat) : Text → Option Invalid
  | [] => none
  | .char _ :: t => badSurrogates? (start + 1) t
  | .surrogate n :: t =>
    if (Utf8.escapedByte? n).isSome then badSurrogates? (start + 1) t
    else some (.surrogates (.surrogate n) start ((t.takeWhile isSurrogate).length + 1))

/-- What makes a path useless; a surrogate is found first. -/
def invalid? (p : Path) : Option Invalid :=
  let t := p.toText
  (badSurrogates? 0 t).or (if t.contains '\x00' then some .nul else none)

def Invalid.describe : Invalid → Text
  | .surrogates first start length =>
    let place : Text :=
      if length == 1 then
        "character '" ++ Text.numericEscape first ++ "' in position " ++ Text.ofNat start
      else
        "characters in position " ++ Text.ofNat start ++ "-" ++ Text.ofNat (start + length - 1)
    "'utf-8' codec can't encode " ++ place ++ ": surrogates not allowed"
  | .nul => "embedded null byte"

end Path
end SmallLisp
