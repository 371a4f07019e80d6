import SmallLisp.Text.Printable

/-!
Quoted text, as diagnostics show names and paths: between quotes, with escapes for the quote, the
backslash and every code point that cannot be shown.
-/

namespace SmallLisp
namespace Text

/-- `n` in exactly `width` hexadecimal digits in lower case; higher digits are dropped. -/
def hex : (width : Nat) → Nat → Text
  | 0, _ => []
  | width + 1, n => hex width (n / 16) ++ [.char (Nat.digitChar (n % 16))]

/-- The shortest of the three numeric escapes that can hold the code point. -/
def numericEscape (c : CodePoint) : Text :=
  let n := c.toNat
  if n < 0x100 then "\\x" ++ hex 2 n
  else if n < 0x10000 then "\\u" ++ hex 4 n
  else "\\U" ++ hex 8 n

/-- One code point of quoted text between quotes `quote`. -/
def quotedChar (quote c : CodePoint) : Text :=
  if c == quote || c == '\\' then [.char '\\', c]
  else if c == '\n' then "\\n"
  else if c == '\r' then "\\r"
  else if c == '\t' then "\\t"
  else if c.isPrintable then [c]
  else numericEscape c

/-- Single quotes, unless the text holds a single quote and no double quote. -/
def quoteFor (t : Text) : CodePoint :=
  if t.contains '\'' && !t.contains '"' then '"' else '\''

def quoted (t : Text) : Text :=
  let quote := quoteFor t
  quote :: t.flatMap (quotedChar quote) ++ [quote]

end Text
end SmallLisp
