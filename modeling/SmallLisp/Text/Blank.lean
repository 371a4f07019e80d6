import SmallLisp.Text.Basic

/-!
Blank characters, and the operations that treat a run of them as a gap: trimming both ends and
cutting a text into words.
-/

namespace SmallLisp

/-- Blank characters: the white space of every script, and the four information separators. -/
def CodePoint.isBlank (c : CodePoint) : Bool :=
  let n := c.toNat
  (0x09 ≤ n && n ≤ 0x0d) || (0x1c ≤ n && n ≤ 0x20) || n == 0x85 || n == 0xa0 || n == 0x1680 ||
    (0x2000 ≤ n && n ≤ 0x200a) || n == 0x2028 || n == 0x2029 || n == 0x202f || n == 0x205f ||
    n == 0x3000

namespace Text

/-- The text without the code points satisfying `p` at its end. -/
def dropEndWhile (p : CodePoint → Bool) (t : Text) : Text :=
  (t.reverse.dropWhile p).reverse

/-- The text without the code points satisfying `p` at either end. -/
def trim (p : CodePoint → Bool) (t : Text) : Text :=
  dropEndWhile p (t.dropWhile p)

/-- The maximal runs of code points that are not blank; `word` is the run being read. -/
def wordsFrom (word : Text) : Text → List Text
  | [] => if word.isEmpty then [] else [word]
  | c :: cs =>
    if c.isBlank then
      if word.isEmpty then wordsFrom [] cs else word :: wordsFrom [] cs
    else wordsFrom (word ++ [c]) cs

/-- The words of a text: its maximal runs of code points that are not blank, in order. -/
def words (t : Text) : List Text :=
  wordsFrom [] t

end Text
end SmallLisp
