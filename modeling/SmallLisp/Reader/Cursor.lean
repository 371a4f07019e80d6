import SmallLisp.Reader.Form

/-!
A cursor over the tokens of a text, for reading it piece by piece: single tokens, single forms, or
the forms in sequence.
-/

namespace SmallLisp

/-- The tokens not yet used, and whether the sequence of forms has ended, which it does at the end
of the tokens and at the first error. -/
structure Cursor where
  remaining : List Token
  ended : Bool

namespace Cursor

def ofSource (source : Text) : Cursor := ⟨lex source, false⟩

/-- The next token, which stays there. -/
def peek (c : Cursor) : Option Token := c.remaining.head?

/-- The next token, which is used. -/
def advance (c : Cursor) : Option Token × Cursor :=
  (c.remaining.head?, { c with remaining := c.remaining.tail })

/-- The next form; nothing at the end of the tokens. -/
def form (c : Cursor) : Except SyntaxError (Option Value) × Cursor :=
  let (result, rest) := Reader.readOne [] c.remaining
  (result, { c with remaining := rest })

/-- The next form of the sequence of forms; nothing once the sequence has ended. -/
def next (c : Cursor) : Except SyntaxError (Option Value) × Cursor :=
  if c.ended then (.ok none, c)
  else
    match c.form with
    | (.ok (some v), c) => (.ok (some v), c)
    | (result, c) => (result, { c with ended := true })

end Cursor
end SmallLisp
