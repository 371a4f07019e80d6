/-!
Texts.  A text is a list of code points, and a code point is a character or a surrogate: half of a
pair that stands for one character, met without the other half.  No encoded file holds a surrogate,
but a JSON string can spell one, and from there it can reach every name and message.
-/

namespace SmallLisp

inductive CodePoint where
  | char (c : Char)
  /-- The surrogate number `n`, counted from the first one. -/
  | surrogate (n : Fin 0x800)
  deriving DecidableEq, Repr

abbrev Text := List CodePoint

namespace CodePoint

instance : Coe Char CodePoint := ⟨.char⟩

/-- The number of the first surrogate; no character has a number of a surrogate. -/
def firstSurrogate : Nat := 0xd800

def toNat : CodePoint → Nat
  | .char c => c.toNat
  | .surrogate n => firstSurrogate + n

def char? : CodePoint → Option Char
  | .char c => some c
  | .surrogate _ => none

/-- The code point of a number. -/
def ofNat (n : Nat) : CodePoint :=
  if h : firstSurrogate ≤ n ∧ n - firstSurrogate < 0x800 then .surrogate ⟨n - firstSurrogate, h.2⟩
  else .char (Char.ofNat n)

end CodePoint

namespace Text

def ofString (s : String) : Text := s.toList.map .char

instance : Coe String Text := ⟨ofString⟩

/-- The decimal digits of a number. -/
def ofNat (n : Nat) : Text := (Nat.toDigits 10 n).map .char

/-- The decimal digits of an integer, after a minus sign if it is negative. -/
def ofInt (n : Int) : Text :=
  if n < 0 then .char '-' :: ofNat n.natAbs else ofNat n.natAbs

/-- The texts with `separator` between each two of them. -/
def join (separator : Text) : List Text → Text
  | [] => []
  | [s] => s
  | s :: rest => s ++ separator ++ join separator rest

/-- Whether a text begins with another one. -/
def startsWith (t start : Text) : Bool := start.isPrefixOf t

/-- The text as a string, if it holds no surrogate. -/
def toString? (t : Text) : Option String := (t.mapM CodePoint.char?).map String.ofList

end Text
end SmallLisp
