import SmallLisp.Json.Basic

/-!
Writing JSON documents.  Everything outside printable basic Latin is written as an escape, so a
written document is one line of plain text whatever it holds.
-/

namespace SmallLisp
namespace Json

/-- The escape of a UTF-16 unit. -/
def unitEscape (unit : Nat) : Text := "\\u" ++ Text.hex 4 unit

/-- The escape of a code point: one unit, or the two units of a surrogate pair. -/
def codePointEscape (c : CodePoint) : Text :=
  let n := c.toNat
  if n < 0x10000 then unitEscape n
  else
    unitEscape (0xd800 + (n - 0x10000) / 0x400) ++ unitEscape (0xdc00 + (n - 0x10000) % 0x400)

/-- One code point of a JSON string. -/
def writtenChar (c : CodePoint) : Text :=
  if c == '"' || c == '\\' then [.char '\\', c]
  else if c == '\n' then "\\n"
  else if c == '\r' then "\\r"
  else if c == '\t' then "\\t"
  else if c == '\x08' then "\\b"
  else if c == '\x0c' then "\\f"
  else if 0x20 ≤ c.toNat && c.toNat < 0x7f then [c]
  else codePointEscape c

/-- A string in quotes. -/
def writeString (t : Text) : Text :=
  .char '"' :: t.flatMap writtenChar ++ [.char '"']

/-- A number that is no whole number by its look. -/
def writeNumber (x : Binary64) : Text :=
  match x with
  | .nan => "NaN"
  | .number negative rank =>
    if rank.val = Rank.infinity then if negative then "-Infinity" else "Infinity" else x.inspect

mutual

/-- The text of a document. -/
def render : Json → Text
  | .null => "null"
  | .bool b => if b then "true" else "false"
  | .integer n => Text.ofInt n
  | .number x => writeNumber x
  | .string s => writeString s
  | .array items => "[" ++ Text.join ", " (renderAll items) ++ "]"
  | .object fields => "\x7b" ++ Text.join ", " (renderFields fields) ++ "\x7d"

def renderAll : List Json → List Text
  | [] => []
  | v :: vs => v.render :: renderAll vs

def renderFields : List (Text × Json) → List Text
  | [] => []
  | (k, v) :: rest => (writeString k ++ ": " ++ v.render) :: renderFields rest

end

end Json
end SmallLisp
