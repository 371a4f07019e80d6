import SmallLisp.Json.Basic
import SmallLisp.Number.Literal

/-!
Reading JSON documents.  A reader takes what stands at the head of the rest of a text and gives what
follows it; `value` reads nested documents with readers of smaller depth.  A failure names the place
where the text stops making sense.
-/

namespace SmallLisp
namespace Json

/-- Why a text cannot be read. -/
inductive Failure where
  | malformed (message : Text) (offset : Nat)
  /-- The document nests deeper than the reader may go. -/
  | tooDeep
  /-- A whole number has more digits than the reader takes. -/
  | tooManyDigits (count : Nat)
  deriving DecidableEq, Repr

/-- The rest of a text, and how many code points stand before it. -/
structure Rest where
  offset : Nat
  text : Text

namespace Rest

def drop (r : Rest) (n : Nat) : Rest := ⟨r.offset + n, r.text.drop n⟩

def isSpace (c : CodePoint) : Bool := c == ' ' || c == '\t' || c == '\n' || c == '\r'

def skipSpace (r : Rest) : Rest := r.drop (r.text.takeWhile isSpace).length

/-- The rest after `start`, if it starts with it. -/
def after? (start : Text) (r : Rest) : Option Rest :=
  if r.text.startsWith start then some (r.drop start.length) else none

end Rest

def failAt {α : Type} (message : Text) (offset : Nat) : Except Failure α :=
  .error (.malformed message offset)

def isDigit : CodePoint → Bool
  | .char c => '0' ≤ c && c ≤ '9'
  | .surrogate _ => false

def hexValue? : CodePoint → Option Nat
  | .char c =>
    if '0' ≤ c && c ≤ '9' then some (c.toNat - '0'.toNat)
    else if 'a' ≤ c && c ≤ 'f' then some (c.toNat - 'a'.toNat + 10)
    else if 'A' ≤ c && c ≤ 'F' then some (c.toNat - 'A'.toNat + 10)
    else none
  | .surrogate _ => none

/-- The value of four hexadecimal digits at the head. -/
def unit? : Text → Option Nat
  | a :: b :: c :: d :: _ => do
    let a ← hexValue? a
    let b ← hexValue? b
    let c ← hexValue? c
    let d ← hexValue? d
    pure (((a * 16 + b) * 16 + c) * 16 + d)
  | _ => none

/-- The character that a letter after a backslash stands for. -/
def escape? : CodePoint → Option CodePoint
  | .char '"' => some (.char '"')
  | .char '\\' => some (.char '\\')
  | .char '/' => some (.char '/')
  | .char 'b' => some (.char '\x08')
  | .char 'f' => some (.char '\x0c')
  | .char 'n' => some (.char '\n')
  | .char 'r' => some (.char '\r')
  | .char 't' => some (.char '\t')
  | _ => none

def isHighSurrogate (n : Nat) : Bool := 0xd800 ≤ n && n < 0xdc00

def isLowSurrogate (n : Nat) : Bool := 0xdc00 ≤ n && n < 0xe000

/-- The character of a surrogate pair. -/
def joined (high low : Nat) : CodePoint :=
  .ofNat (0x10000 + (high - 0xd800) * 0x400 + (low - 0xdc00))

/-- Whether more than `n` code points are left. -/
def hasMore (n : Nat) (t : Text) : Bool := !(t.drop n).isEmpty

/-- A unit escape, from the first of its four digits, which stands at `offset`: the code point, and
how many code points the escape has from there on.  A high surrogate takes a low one after it along,
if more of the text follows that. -/
def unitEscapeAt (offset : Nat) (t : Text) : Except Failure (CodePoint × Nat) :=
  let bad {α : Type} (place : Nat) : Except Failure α := failAt "Invalid \\uXXXX escape" place
  if !hasMore 4 t then bad (offset - 1)
  else
    match unit? t with
    | none => bad (offset - 1)
    | some high =>
      match t.drop 4 with
      | .char '\\' :: .char 'u' :: more =>
        if isHighSurrogate high && hasMore 4 more then
          match unit? more with
          | none => bad (offset + 5)
          | some low =>
            if isLowSurrogate low then .ok (joined high low, 10) else .ok (.ofNat high, 4)
        else .ok (.ofNat high, 4)
      | _ => .ok (.ofNat high, 4)

/-- The rest of a string whose opening quote stands at `start`, after the code points `done`, the last
one first; the first `skip` code points belong to an escape that has been read.  Together with the
string it gives the place after its closing quote. -/
def stringFrom (start : Nat) : (done : Text) → (offset skip : Nat) → Text →
    Except Failure (Text × Nat)
  | _, _, _, [] => failAt "Unterminated string starting at" start
  | done, offset, skip + 1, _ :: t => stringFrom start done (offset + 1) skip t
  | done, offset, 0, c :: t =>
    if c == '"' then .ok (done.reverse, offset + 1)
    else if c == '\\' then
      match t with
      | [] => failAt "Unterminated string starting at" start
      | .char 'u' :: digits =>
        match unitEscapeAt (offset + 2) digits with
        | .error e => .error e
        | .ok (c, length) => stringFrom start (c :: done) (offset + 1) (length + 1) t
      | letter :: _ =>
        match escape? letter with
        | none => failAt "Invalid \\escape" offset
        | some c => stringFrom start (c :: done) (offset + 1) 1 t
    else if c.toNat < 0x20 then failAt "Invalid control character at" offset
    else stringFrom start (c :: done) (offset + 1) 0 t

/-- A string, from its opening quote on. -/
def readString (r : Rest) : Except Failure (Text × Rest) := do
  let (s, stop) ← stringFrom r.offset [] (r.offset + 1) 0 (r.text.drop 1)
  pure (s, r.drop (stop - r.offset))

/-- The fraction at the head of a text, point included; empty without a digit after the point. -/
def fraction : Text → Text
  | .char '.' :: t => if (t.takeWhile isDigit).isEmpty then [] else .char '.' :: t.takeWhile isDigit
  | _ => []

/-- The exponent at the head of a text, mark included; empty without a digit in it. -/
def exponent : Text → Text
  | mark :: t =>
    if mark == 'e' || mark == 'E' then
      let (sign, t) : Text × Text :=
        match t with
        | .char '-' :: rest => ("-", rest)
        | .char '+' :: rest => ("+", rest)
        | rest => ([], rest)
      if (t.takeWhile isDigit).isEmpty then [] else mark :: sign ++ t.takeWhile isDigit
    else []
  | [] => []

/-- The digits of a whole number at the head of a text: a zero, or digits that start with no zero. -/
def wholeDigits : Text → Text
  | .char '0' :: _ => "0"
  | t => t.takeWhile isDigit

/-- Whole numbers with more digits are not read. -/
def digitLimit : Nat := 4300

def expectedValue {α : Type} (offset : Nat) : Except Failure α := failAt "Expecting value" offset

def readNumber (r : Rest) : Except Failure (Json × Rest) :=
  let (negative, t) : Bool × Text :=
    match r.text with
    | .char '-' :: rest => (true, rest)
    | rest => (false, rest)
  let whole := wholeDigits t
  if whole.isEmpty then expectedValue r.offset
  else
    let part := fraction (t.drop whole.length)
    let power := exponent (t.drop (whole.length + part.length))
    let text := whole ++ part ++ power
    let rest := r.drop (text.length + if negative then 1 else 0)
    if part.isEmpty && power.isEmpty then
      if digitLimit < whole.length then .error (.tooManyDigits whole.length)
      else
        let n := Text.digitsValue whole
        .ok (.integer (if negative then -(n : Int) else n), rest)
    else
      let x := (Binary64.read? (if negative then .char '-' :: text else text)).getD .nan
      .ok (.number x, rest)

/-- The words that are documents. -/
def words : List (Text × Json) :=
  [("null", .null), ("true", .bool true), ("false", .bool false), ("NaN", .number .nan),
    ("Infinity", .number (.infinity false)), ("-Infinity", .number (.infinity true))]

/-- A document without parts: a word or a number. -/
def readScalar (r : Rest) : Except Failure (Json × Rest) :=
  match words.findSome? fun word => (r.after? word.1).map fun rest => (word.2, rest) with
  | some found => .ok found
  | none => readNumber r

/-- Reads one document. -/
abbrev Reader := Rest → Except Failure (Json × Rest)

/-- The items of an array after the first bracket and blanks; `fuel` bounds their number. -/
def readItems (read : Reader) : (fuel : Nat) → Rest → Except Failure (List Json × Rest)
  | 0, r => expectedValue r.offset
  | fuel + 1, r => do
    let (v, r) ← read r
    let r := r.skipSpace
    match r.text with
    | .char ']' :: _ => pure ([v], r.drop 1)
    | .char ',' :: _ =>
      let (vs, r) ← readItems read fuel (r.drop 1).skipSpace
      pure (v :: vs, r)
    | _ => failAt "Expecting ',' delimiter" r.offset

def readArray (read : Reader) (r : Rest) : Except Failure (Json × Rest) :=
  let r := (r.drop 1).skipSpace
  match r.text with
  | .char ']' :: _ => .ok (.array [], r.drop 1)
  | _ => do
    let (vs, r) ← readItems read (r.text.length + 1) r
    pure (.array vs, r)

/-- The fields of an object after the first brace and blanks; `fuel` bounds their number. -/
def readFields (read : Reader) : (fuel : Nat) → Rest → Except Failure (List (Text × Json) × Rest)
  | 0, r => expectedValue r.offset
  | fuel + 1, r =>
    match r.text with
    | .char '"' :: _ => do
      let (key, r) ← readString r
      let r := r.skipSpace
      match r.text with
      | .char ':' :: _ =>
        let (v, r) ← read (r.drop 1).skipSpace
        let r := r.skipSpace
        match r.text with
        | .char '\x7d' :: _ => pure ([(key, v)], r.drop 1)
        | .char ',' :: _ =>
          let (rest, r) ← readFields read fuel (r.drop 1).skipSpace
          pure ((key, v) :: rest, r)
        | _ => failAt "Expecting ',' delimiter" r.offset
      | _ => failAt "Expecting ':' delimiter" r.offset
    | _ => failAt "Expecting property name enclosed in double quotes" r.offset

def readObject (read : Reader) (r : Rest) : Except Failure (Json × Rest) :=
  let r := (r.drop 1).skipSpace
  match r.text with
  | .char '\x7d' :: _ => .ok (.object [], r.drop 1)
  | _ => do
    let (entries, r) ← readFields read (r.text.length + 1) r
    pure (.object (Table.ofList entries), r)

/-- A document that starts at the head of the rest, with at most `depth` arrays and objects inside
each other. -/
def value : (depth : Nat) → Reader
  | 0, r =>
    match r.text with
    | .char '[' :: _ | .char '\x7b' :: _ => .error .tooDeep
    | .char '"' :: _ => (readString r).map fun (s, r) => (.string s, r)
    | _ => readScalar r
  | depth + 1, r =>
    match r.text with
    | .char '[' :: _ => readArray (value depth) r
    | .char '\x7b' :: _ => readObject (value depth) r
    | .char '"' :: _ => (readString r).map fun (s, r) => (.string s, r)
    | _ => readScalar r

/-- Reads a text that is one document, with blanks around it. -/
def parse (depth : Nat) (t : Text) : Except Failure Json :=
  match t with
  | .char '\ufeff' :: _ => failAt "Unexpected UTF-8 BOM (decode using utf-8-sig)" 0
  | t => do
    let (v, r) ← value depth (Rest.skipSpace ⟨0, t⟩)
    let r := r.skipSpace
    if r.text.isEmpty then pure v else failAt "Extra data" r.offset

/-- The place of a failure in words: line and column counted from one, and the offset. -/
def describePlace (t : Text) (offset : Nat) : Text :=
  let before := t.take offset
  let line := before.count (.char '\n') + 1
  let column := (before.reverse.takeWhile (· != .char '\n')).length + 1
  "line " ++ Text.ofNat line ++ " column " ++ Text.ofNat column ++ " (char " ++ Text.ofNat offset ++
    ")"

end Json
end SmallLisp
