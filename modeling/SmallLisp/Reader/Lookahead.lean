import SmallLisp.Reader.Form

/-!
Tokens that come one at a time, with one token of lookahead.  A token that has been looked at and not
used is held back, and everything that uses tokens takes the one that is held before those that are
still to come.
-/

namespace SmallLisp

/-- The token that is held back, the tokens still to come, and whether the sequence of forms has
ended, which it does at the end of the tokens and at the first error. -/
structure Lookahead where
  held : Option Token
  coming : List Token
  ended : Bool

namespace Lookahead

def ofSource (source : Text) : Lookahead := ⟨none, lex source, false⟩

/-- The next token, which is held back from now on. -/
def peek (a : Lookahead) : Option Token × Lookahead :=
  match a.held, a.coming with
  | some t, _ => (some t, a)
  | none, t :: ts => (some t, { a with held := some t, coming := ts })
  | none, [] => (none, a)

/-- The next token, which is used. -/
def advance (a : Lookahead) : Option Token × Lookahead :=
  match a.held, a.coming with
  | some t, _ => (some t, { a with held := none })
  | none, t :: ts => (some t, { a with coming := ts })
  | none, [] => (none, a)

/-- The tokens that have not been used. -/
def tokens (a : Lookahead) : List Token := a.held.toList ++ a.coming

theorem tokens_of_advance_eq_none {a b : Lookahead} (h : a.advance = (none, b)) :
    a.tokens = [] ∧ b = a := by
  obtain ⟨held, coming, ended⟩ := a
  cases held with
  | some t => cases h
  | none =>
    cases coming with
    | nil => exact ⟨rfl, (Prod.mk.inj h).2.symm⟩
    | cons t ts => cases h

theorem tokens_of_advance_eq_some {a b : Lookahead} {t : Token} (h : a.advance = (some t, b)) :
    a.tokens = t :: b.tokens ∧ b.ended = a.ended := by
  obtain ⟨held, coming, ended⟩ := a
  cases held with
  | some t => cases h; exact ⟨rfl, rfl⟩
  | none =>
    cases coming with
    | nil => cases h
    | cons t ts => cases h; exact ⟨rfl, rfl⟩

theorem length_lt_of_advance {a b : Lookahead} {t : Token} (h : a.advance = (some t, b)) :
    b.tokens.length < a.tokens.length := by
  rw [(tokens_of_advance_eq_some h).1]
  exact Nat.lt_succ_self _

/-- Reads one form token by token, starting with the open forms `stack`: the form, or nothing at the
end of the tokens, or the error. -/
def formFrom (stack : List Reader.Opened) (a : Lookahead) :
    Except SyntaxError (Option Value) × Lookahead :=
  match _ : a.advance with
  | (none, b) =>
    match Reader.endError stack with
    | none => (.ok none, b)
    | some e => (.error e, b)
  | (some t, b) =>
    match Reader.feed stack t with
    | .more stack => formFrom stack b
    | .done form => (.ok (some form), b)
    | .failed e => (.error e, b)
termination_by a.tokens.length
decreasing_by exact length_lt_of_advance ‹_›

/-- The next form; nothing at the end of the tokens. -/
def form (a : Lookahead) : Except SyntaxError (Option Value) × Lookahead := a.formFrom []

/-- The next form of the sequence of forms; nothing once the sequence has ended. -/
def next (a : Lookahead) : Except SyntaxError (Option Value) × Lookahead :=
  if a.ended then (.ok none, a)
  else
    match a.form with
    | (.ok (some v), b) => (.ok (some v), b)
    | (result, b) => (result, { b with ended := true })

end Lookahead
end SmallLisp
