import SmallLisp.Text.Blank

/-!
Tokens.  A text is a sequence of gaps and tokens: a gap is made of blanks and of comments, which run
from a semicolon to the end of the line, and a token is a parenthesis, a quote or an atom, which is
as long as it can be.  `lex` gives the tokens with the line and column where each starts.
-/

namespace SmallLisp

inductive Token.Kind where
  | lparen
  | rparen
  | quote
  | atom
  deriving DecidableEq, Repr

/-- A token and the place where it starts, line and column counted from one. -/
structure Token where
  kind : Token.Kind
  text : Text
  line : Nat
  column : Nat
  deriving DecidableEq, Repr

namespace Token

/-- Code points that belong to atoms. -/
def isAtomChar (c : CodePoint) : Bool :=
  !(c.isBlank || c == '(' || c == ')' || c == '\'' || c == ';')

/-- What the code points just read belong to. -/
inductive Mode where
  | gap
  | comment
  /-- An atom that started at `column`; `reversed` holds its code points, the last one first. -/
  | atom (column : Nat) (reversed : Text)

namespace Mode

/-- The atom that ends here, if one does. -/
def ending (line : Nat) : Mode → List Token
  | .atom column reversed => [⟨.atom, reversed.reverse, line, column⟩]
  | _ => []

/-- After one more code point of an atom, at `column`. -/
def extend (column : Nat) (c : CodePoint) : Mode → Mode
  | .atom start reversed => .atom start (c :: reversed)
  | _ => .atom column [c]

end Mode

/-- The token that one character is by itself, if it is one. -/
def punctuation (line column : Nat) (c : CodePoint) : List Token :=
  if c == '(' then [⟨.lparen, "(", line, column⟩]
  else if c == ')' then [⟨.rparen, ")", line, column⟩]
  else if c == '\'' then [⟨.quote, "'", line, column⟩]
  else []

/-- The tokens that end in the rest of a text, which starts at `line` and `column`. -/
def scan : Mode → (line column : Nat) → Text → List Token
  | mode, line, _, [] => mode.ending line
  | .comment, line, column, c :: cs =>
    if c == '\n' then scan .gap (line + 1) 1 cs else scan .comment line (column + 1) cs
  | mode, line, column, c :: cs =>
    if isAtomChar c then scan (mode.extend column c) line (column + 1) cs
    else if c == '\n' then mode.ending line ++ scan .gap (line + 1) 1 cs
    else if c == ';' then mode.ending line ++ scan .comment line (column + 1) cs
    else mode.ending line ++ punctuation line column c ++ scan .gap line (column + 1) cs

end Token

/-- The tokens of a text, in order. -/
def lex (source : Text) : List Token :=
  Token.scan .gap 1 1 source

end SmallLisp
