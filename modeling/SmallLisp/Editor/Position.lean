import SmallLisp.Text.Blank
import SmallLisp.Text.Lines

/-!
What stands at a place of a document: the word there, the text of the line before it, and the name
of the procedure being called there.
-/

namespace SmallLisp
namespace Editor

/-- A place between two characters of a document, line and character counted from zero. -/
structure Position where
  line : Nat
  character : Nat
  deriving DecidableEq, Repr

/-- Code points that stand between words. -/
def isWordBreak (c : CodePoint) : Bool :=
  c == ' ' || c == '\t' || c == '(' || c == ')' || c == '\'' || c == '\n' || c == '\r'

/-- The line that a position is in, with its boundary. -/
def lineAt? (text : Text) (p : Position) : Option Text := (Text.lines text)[p.line]?

/-- The word that touches a position. -/
def wordAt? (text : Text) (p : Position) : Option Text :=
  match lineAt? text p with
  | none => none
  | some line =>
    let before := (line.take p.character).reverse.takeWhile (!isWordBreak ·)
    let after := (line.drop p.character).takeWhile (!isWordBreak ·)
    let word := before.reverse ++ after
    if word.isEmpty then none else some word

/-- The text of the line before a position. -/
def textBefore (text : Text) (p : Position) : Text :=
  match lineAt? text p with
  | none => ""
  | some line => line.take p.character

/-- What follows the last opening parenthesis of a text. -/
def afterLastParen? : Text → Option Text
  | [] => none
  | c :: cs =>
    match afterLastParen? cs with
    | some rest => some rest
    | none => if c == '(' then some cs else none

/-- The name of the procedure whose call a text breaks off in: the first word after the last opening
parenthesis, without closing parentheses at its end. -/
def callee? (before : Text) : Option Text :=
  match afterLastParen? before with
  | none => none
  | some rest => (Text.words rest).head?.map (Text.dropEndWhile (· == .char ')'))

end Editor
end SmallLisp
