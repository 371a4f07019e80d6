import SmallLisp.Text.Basic

/-!
Three ways to see the lines of a text: cut at every line feed, cut after every line boundary with
the boundary kept, and with the two other common line endings turned into line feeds.
-/

namespace SmallLisp

/-- Code points that end a line of a document: the line feed, the carriage return, vertical tab, form
feed, three information separators, next line, and the line and paragraph separators. -/
def CodePoint.isLineBoundary (c : CodePoint) : Bool :=
  let n := c.toNat
  (0x0a ≤ n && n ≤ 0x0d) || (0x1c ≤ n && n ≤ 0x1e) || n == 0x85 || n == 0x2028 || n == 0x2029

namespace Text

/-- The pieces between occurrences of `separator`; always at least one. -/
def splitOn (separator : CodePoint) : Text → List Text
  | [] => [[]]
  | c :: cs =>
    match splitOn separator cs with
    | [] => [[c]]
    | piece :: rest => if c == separator then [] :: piece :: rest else (c :: piece) :: rest

/-- The lines of a document, each with the boundary that ends it; a carriage return and a line feed
after it are one boundary, and an empty text has no line. -/
def lines : Text → List Text
  | [] => []
  | .char '\r' :: .char '\n' :: cs => [.char '\r', .char '\n'] :: lines cs
  | c :: cs =>
    if c.isLineBoundary then [c] :: lines cs
    else
      match lines cs with
      | [] => [[c]]
      | line :: rest => (c :: line) :: rest

/-- Every line ending written as one line feed. -/
def unifyNewlines : Text → Text
  | [] => []
  | .char '\r' :: .char '\n' :: cs => .char '\n' :: unifyNewlines cs
  | c :: cs => (if c == '\r' then .char '\n' else c) :: unifyNewlines cs

end Text
end SmallLisp
