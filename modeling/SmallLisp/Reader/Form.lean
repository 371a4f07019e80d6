import SmallLisp.Reader.Token
import SmallLisp.Value.Basic

/-!
Reading forms from tokens.  The forms that are open at some point of a text, innermost first, are
kept in a list, so a form may nest to any depth.  `feed` is one step: it takes a token and tells
whether a top-level form is finished, still open, or cannot be finished at all.
-/

namespace SmallLisp

/-- A text that is not a sequence of forms.  `incomplete` says that more text could make it one. -/
structure SyntaxError where
  message : Text
  line : Option Int
  column : Option Int
  incomplete : Bool
  deriving DecidableEq, Repr

namespace SyntaxError

def place : Option Int → Text
  | some n => Text.ofInt n
  | none => "None"

/-- The message with the place, if the line is known. -/
def describe (e : SyntaxError) : Text :=
  match e.line with
  | none => e.message
  | some line =>
    e.message ++ " at line " ++ Text.ofInt line ++ ", column " ++ place e.column

/-- The parenthesis `t` has no partner before the end of the text. -/
def unterminated (t : Token) : SyntaxError :=
  ⟨"Unterminated '('", some t.line, some t.column, true⟩

/-- The parenthesis `t` closes nothing. -/
def unmatched (t : Token) : SyntaxError :=
  ⟨"Unmatched ')'", some t.line, some t.column, false⟩

/-- Nothing that the quote `t` could quote follows it. -/
def danglingQuote (t : Token) (incomplete : Bool) : SyntaxError :=
  ⟨"Expected an expression after quote", some t.line, some t.column, incomplete⟩

end SyntaxError

/-- The value an atom denotes: a number if it is a number literal, else the symbol of that name. -/
def Value.ofAtom (text : Text) : Value :=
  match Binary64.read? text with
  | some x => .number x
  | none => .symbol text

namespace Reader

/-- A list or a quote that is not finished: the token that opened it, and the finished elements, the
last one first. -/
structure Opened where
  opener : Token
  items : List Value

/-- What a token leads to. -/
inductive Step where
  | more (stack : List Opened)
  | done (form : Value)
  | failed (error : SyntaxError)

/-- Adds a finished value to the innermost open form; a quote is finished by it. -/
def deliver (v : Value) : List Opened → Step
  | [] => .done v
  | o :: rest =>
    if o.opener.kind = .quote then deliver (.list [.symbol "quote", v]) rest
    else .more ({ o with items := v :: o.items } :: rest)

/-- Closes the innermost open list at the token `t`. -/
def close (t : Token) : List Opened → Step
  | [] => .failed (.unmatched t)
  | o :: rest =>
    if o.opener.kind = .quote then .failed (.danglingQuote o.opener false)
    else deliver (.list o.items.reverse) rest

def feed (stack : List Opened) (t : Token) : Step :=
  match t.kind with
  | .lparen | .quote => .more (⟨t, []⟩ :: stack)
  | .rparen => close t stack
  | .atom => deliver (Value.ofAtom t.text) stack

/-- What is wrong if the text ends while these forms are open. -/
def endError : List Opened → Option SyntaxError
  | [] => none
  | o :: _ =>
    some (if o.opener.kind = .quote then .danglingQuote o.opener true else .unterminated o.opener)

/-- Reads one form: the form, or nothing at the end of the tokens, or the error; and the tokens that
were not used.  A token that leads to an error is used. -/
def readOne (stack : List Opened) : List Token → Except SyntaxError (Option Value) × List Token
  | [] =>
    match endError stack with
    | none => (.ok none, [])
    | some e => (.error e, [])
  | t :: ts =>
    match feed stack t with
    | .more stack => readOne stack ts
    | .done form => (.ok (some form), ts)
    | .failed e => (.error e, ts)

end Reader

/-- The forms of a text up to its first syntax error, and that error. -/
structure Reading where
  forms : List Value
  error : Option SyntaxError

namespace Reader

/-- Reads every form, starting with the open forms `stack`. -/
def readAll (stack : List Opened) : List Token → Reading
  | [] => ⟨[], endError stack⟩
  | t :: ts =>
    match feed stack t with
    | .more stack => readAll stack ts
    | .done form =>
      let later := readAll [] ts
      { later with forms := form :: later.forms }
    | .failed e => ⟨[], some e⟩

end Reader

/-- Reads a text. -/
def read (source : Text) : Reading :=
  Reader.readAll [] (lex source)

/-- Whether a text ends inside an unfinished form. -/
def needsMore (source : Text) : Bool :=
  (read source).error.any SyntaxError.incomplete

end SmallLisp
