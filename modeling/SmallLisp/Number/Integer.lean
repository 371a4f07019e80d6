import SmallLisp.Text.Blank
import SmallLisp.Text.Digit

/-!
Whole numbers as settings are written: blanks around them, a sign, and digits of any script with
single underscores between them.
-/

namespace SmallLisp
namespace Integer

/-- Blanks that may stand around a whole number; the information separators are not among them. -/
def isMargin (c : CodePoint) : Bool :=
  c.isBlank && !(0x1c ≤ c.toNat && c.toNat ≤ 0x1f)

/-- Whole numbers with more digits are not read. -/
def digitLimit : Nat := 4300

/-- The digits of a text in which single underscores may stand between digits. -/
def grouped? : Text → Option Text
  | [] => none
  | c :: cs =>
    if c.isDigit then
      match cs with
      | [] => some [c]
      | .char '_' :: rest => (grouped? rest).map (c :: ·)
      | rest => (grouped? rest).map (c :: ·)
    else none

def parse? (t : Text) : Option Int :=
  let (negative, t) : Bool × Text :=
    match Text.trim isMargin t with
    | .char '-' :: rest => (true, rest)
    | .char '+' :: rest => (false, rest)
    | rest => (false, rest)
  match grouped? t with
  | none => none
  | some ds =>
    if digitLimit < ds.length then none
    else some (if negative then -(Text.digitsValue ds : Int) else Text.digitsValue ds)

end Integer
end SmallLisp
