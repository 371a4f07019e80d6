import SmallLisp.Number.Literal
import SmallLisp.Text.Blank

/-!
Decimal texts of numbers.

`shortest` is the text with the fewest digits that reads back as the number, and of two such texts
the one nearer to it.  It is found by trying, for one digit, two digits and so on, the two decimals
next to the number: a text is taken only when reading it gives the number again.  The exact decimal
expansion, which every finite number has, stands last.
-/

namespace SmallLisp

namespace Decimal

/-- The digits of a positive coefficient without the zeros at its end. -/
def significant (coefficient : Nat) : Text :=
  Text.dropEndWhile (· == .char '0') (Text.ofNat coefficient)

/-- A decimal exponent with its sign, in two digits at least. -/
def exponentText (e : Int) : Text :=
  let ds := Text.ofNat e.natAbs
  (if e < 0 then .char '-' else .char '+') :: (if ds.length < 2 then .char '0' :: ds else ds)

def zeros (n : Nat) : Text := List.replicate n (.char '0')

/-- The text of the digits `ds` with the point before the digit number `point`. -/
def positional (ds : Text) (point : Int) : Text :=
  if point ≤ 0 then "0." ++ zeros (-point).toNat ++ ds
  else if ds.length ≤ point.toNat then
    ds ++ zeros (point.toNat - ds.length) ++ ".0"
  else ds.take point.toNat ++ .char '.' :: ds.drop point.toNat

/-- The text of the digits `ds` with the point after the first one and an exponent. -/
def scientific (ds : Text) (point : Int) : Text :=
  let tail := ds.drop 1
  ds.take 1 ++ (if tail.isEmpty then [] else .char '.' :: tail) ++ .char 'e' :: exponentText (point - 1)

/-- How `coefficient * 10 ^ exponent` is written: positionally if its first digit stands between the
fourth place after the point and the sixteenth before it, else with an exponent. -/
def layout (coefficient : Nat) (exponent : Int) : Text :=
  let point := (Text.ofNat coefficient).length + exponent
  let ds := significant coefficient
  if -4 < point ∧ point ≤ 16 then positional ds point else scientific ds point

end Decimal

namespace Rank

/-- The decimal place of the first digit of a positive finite magnitude: a magnitude of place `p` is
at least `10 ^ (p - 1)` and less than `10 ^ p`. -/
def decimalPlace (rank : Nat) : Int :=
  (Text.ofNat (scaled rank * Nat.pow 10 400 / one)).length - 400

/-- The number of steps `10 ^ exponent` in a magnitude as a fraction. -/
def steps (rank : Nat) (exponent : Int) : Nat × Nat :=
  if 0 ≤ exponent then (scaled rank, one * Nat.pow 10 exponent.toNat)
  else (scaled rank * Nat.pow 10 (-exponent).toNat, one)

/-- The multiples of `10 ^ exponent` next to a magnitude, the nearer one first; of two equally near
the even one is first. -/
def neighbours (rank : Nat) (exponent : Int) : List Nat :=
  let (num, den) := steps rank exponent
  let below := num / den
  let twice := 2 * (num % den)
  if twice < den || (twice == den && below % 2 == 0) then [below, below + 1]
  else [below + 1, below]

/-- The first text of at most `digits` digits, counted from `count` up, that reads back. -/
def shortestFrom (rank : Nat) (place : Int) (count : Nat) : (digits : Nat) → Option Text
  | 0 => none
  | digits + 1 =>
    let exponent := place - count
    let texts := (neighbours rank exponent).map fun n => Decimal.layout n exponent
    match texts.find? fun text => Binary64.read? text = some (.ofRank false rank) with
    | some text => some text
    | none => shortestFrom rank place (count + 1) digits

/-- The exact decimal expansion of a magnitude. -/
def exactText (rank : Nat) : Text :=
  Text.ofNat (scaled rank * Nat.pow 5 1074) ++ "e-1074"

/-- The shortest text of a finite magnitude that reads back. -/
def shortest (rank : Nat) : Text :=
  if rank = 0 then "0.0"
  else (shortestFrom rank (decimalPlace rank) 1 17).getD (exactText rank)

end Rank

namespace Binary64

/-- A minus sign in front of `text` if `negative`. -/
def withSign (negative : Bool) (text : Text) : Text :=
  if negative then .char '-' :: text else text

/-- The text of a number as diagnostics show it: always with a point or an exponent. -/
def inspect : Binary64 → Text
  | .nan => "nan"
  | .number negative rank =>
    if rank.val = Rank.infinity then if negative then "-inf" else "inf"
    else withSign negative (Rank.shortest rank)

/-- Integers from here on are printed with an exponent. -/
def integerBound : Nat := Nat.pow 10 16

/-- The text of a number in programs.  Integers have no point, and infinity is a literal that is out
of range, so that every number but NaN reads back as itself up to the sign of zero. -/
def render (x : Binary64) : Text :=
  match x with
  | .nan => "nan"
  | .number negative rank =>
    if rank.val = Rank.infinity then if negative then "-1e999" else "1e999"
    else
      match x.integer? with
      | some n => if n.natAbs < integerBound then Text.ofInt n else x.inspect
      | none => x.inspect

end Binary64
end SmallLisp
