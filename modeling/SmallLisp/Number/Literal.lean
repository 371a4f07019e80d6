import SmallLisp.Number.Binary64
import SmallLisp.Text.Digit

/-!
Number literals: an optional sign, digits with an optional point among them, an optional exponent.
`Literal.parse?` takes the parts of a text that is a literal as a whole, and `Literal.value` rounds
them to a number.
-/

namespace SmallLisp

/-- The written parts of a number: the value is `coefficient * 10 ^ exponent`, with the sign. -/
structure Literal where
  negative : Bool
  coefficient : Nat
  exponent : Int
  deriving DecidableEq, Repr

namespace Literal

/-- An optional sign at the head: whether it is a minus, and what follows it. -/
def sign : Text → Bool × Text
  | .char '-' :: t => (true, t)
  | .char '+' :: t => (false, t)
  | t => (false, t)

/-- The digits at the head of a text and what follows them. -/
def digits (t : Text) : Text × Text :=
  (t.takeWhile CodePoint.isDigit, t.dropWhile CodePoint.isDigit)

/-- The digits after an optional point at the head, and what follows them. -/
def fraction : Text → Text × Text
  | .char '.' :: t => digits t
  | t => ([], t)

/-- The exponent that a text is as a whole: nothing, or a mark, an optional sign and digits. -/
def exponent? : Text → Option Int
  | [] => some 0
  | mark :: t =>
    if mark == 'e' || mark == 'E' then
      let (negative, t) := sign t
      let (ds, rest) := digits t
      if ds.isEmpty || !rest.isEmpty then none
      else some (if negative then -(Text.digitsValue ds : Int) else Text.digitsValue ds)
    else none

/-- The parts of a text that is a literal as a whole. -/
def parse? (t : Text) : Option Literal :=
  let (negative, t) := sign t
  let (whole, t) := digits t
  let (part, t) := fraction t
  if whole.isEmpty && part.isEmpty then none
  else
    (exponent? t).map fun e =>
      { negative, coefficient := Text.digitsValue (whole ++ part), exponent := e - part.length }

/-- The number nearest to `coefficient * 10 ^ exponent`.  Powers of ten are formed only where the
result can depend on them: from `10 ^ 400` on every magnitude is infinite, and a coefficient has at
most `log2` decimal digits after its first, so far enough below one every magnitude is zero. -/
def value (l : Literal) : Binary64 :=
  if l.coefficient = 0 then .zero l.negative
  else if 400 < l.exponent then .infinity l.negative
  else if l.exponent + l.coefficient.log2 < -400 then .zero l.negative
  else if 0 ≤ l.exponent then
    .ofRank l.negative
      (Rank.nearest (l.coefficient * Nat.pow 10 l.exponent.toNat * Rank.one) 1)
  else
    .ofRank l.negative
      (Rank.nearest (l.coefficient * Rank.one) (Nat.pow 10 (-l.exponent).toNat))

end Literal

/-- The number a text denotes, if it is a number literal as a whole. -/
def Binary64.read? (t : Text) : Option Binary64 :=
  (Literal.parse? t).map Literal.value

end SmallLisp
