import SmallLisp.Text.Quoted

/-!
Text as bytes.  `decode` reads well-formed byte sequences only, and says of the first ill-formed one
where it starts, how many bytes belong to it and what is wrong with it.  `encode?` writes texts that
hold no surrogate.

The operating system hands out and takes names that need not be text.  For them, 128 surrogates stand
for the bytes from 128 on: `ofName` reads any bytes, giving every byte that belongs to no character
its surrogate, and `toName` writes them again.
-/

namespace SmallLisp
namespace Utf8

inductive Reason where
  | invalidStart
  | invalidContinuation
  | unexpectedEnd
  deriving DecidableEq, Repr

/-- The bytes from `start` on, `length` of them, are no character; `first` is the first of them. -/
structure Malformed where
  first : Nat
  start : Nat
  length : Nat
  reason : Reason
  deriving DecidableEq, Repr

def isContinuation (b : Nat) : Bool :=
  0x80 ≤ b && b < 0xc0

/-- How many bytes the character that starts with `b` has. -/
def width? (b : Nat) : Option Nat :=
  if b < 0x80 then some 1
  else if 0xc2 ≤ b && b < 0xe0 then some 2
  else if 0xe0 ≤ b && b < 0xf0 then some 3
  else if 0xf0 ≤ b && b < 0xf5 then some 4
  else none

/-- Whether `c` may follow the first byte `b`.  The second byte is bounded more tightly after four
first bytes, so that no character has two encodings and no surrogate has one. -/
def isSecond (b c : Nat) : Bool :=
  isContinuation c &&
    (b != 0xe0 || 0xa0 ≤ c) && (b != 0xed || c < 0xa0) &&
    (b != 0xf0 || 0x90 ≤ c) && (b != 0xf4 || c < 0x90)

/-- How many of the bytes after the first one continue the character that starts with `b`. -/
def continued (b : Nat) : Nat → List Nat → Nat
  | 0, _ => 0
  | _, [] => 0
  | n + 1, c :: cs =>
    if isSecond b c then 1 + ((cs.take n).takeWhile isContinuation).length else 0

/-- The code point of a first byte of a character of `width` bytes, followed by `rest`. -/
def codePoint (width b : Nat) (rest : List Nat) : Nat :=
  rest.foldl (fun n c => n * 64 + c % 64) (if width == 1 then b else b % Nat.pow 2 (7 - width))

/-- The character at the head of the bytes and the number of bytes after the first one. -/
def headChar (offset b : Nat) (rest : List Nat) : Except Malformed (CodePoint × Nat) :=
  match width? b with
  | none => .error ⟨b, offset, 1, .invalidStart⟩
  | some width =>
    let found := continued b (width - 1) rest
    if found == width - 1 then
      .ok (.char (Char.ofNat (codePoint width b (rest.take found))), found)
    else if found == rest.length then .error ⟨b, offset, found + 1, .unexpectedEnd⟩
    else .error ⟨b, offset, found + 1, .invalidContinuation⟩

/-- Decodes from `offset` on; the first `skip` bytes belong to a character already read. -/
def decodeFrom : (offset skip : Nat) → List Nat → Except Malformed Text
  | _, _, [] => .ok []
  | offset, skip + 1, _ :: rest => decodeFrom (offset + 1) skip rest
  | offset, 0, b :: rest =>
    match headChar offset b rest with
    | .error e => .error e
    | .ok (c, skip) => (decodeFrom (offset + 1) skip rest).map (c :: ·)

def decode (bytes : List UInt8) : Except Malformed Text :=
  decodeFrom 0 0 (bytes.map UInt8.toNat)

/-- The bytes of a text; nothing if it holds a surrogate. -/
def encode? : Text → Option (List UInt8)
  | [] => some []
  | .char c :: t => (encode? t).map (String.utf8EncodeChar c ++ ·)
  | .surrogate _ :: _ => none

/-- The byte that a surrogate stands for in a name. -/
def escapedByte? (n : Fin 0x800) : Option UInt8 :=
  if 0x480 ≤ n.val && n.val < 0x500 then some (UInt8.ofNat (n.val - 0x400)) else none

/-- The surrogate of a byte of a name. -/
def escape (b : Nat) : CodePoint := .ofNat (0xdc00 + b)

/-- Reads a name of which the first `skip` bytes belong to a character already read. -/
def ofNameFrom : (skip : Nat) → List Nat → Text
  | _, [] => []
  | skip + 1, _ :: rest => ofNameFrom skip rest
  | 0, b :: rest =>
    match headChar 0 b rest with
    | .error _ => escape b :: ofNameFrom 0 rest
    | .ok (c, skip) => c :: ofNameFrom skip rest

/-- The text of a name. -/
def ofName (bytes : List UInt8) : Text := ofNameFrom 0 (bytes.map UInt8.toNat)

/-- The bytes of a name.  A surrogate that stands for no byte has none. -/
def toName (t : Text) : List UInt8 :=
  t.flatMap fun
    | .char c => String.utf8EncodeChar c
    | .surrogate n => (escapedByte? n).toList

def Reason.describe : Reason → Text
  | .invalidStart => "invalid start byte"
  | .invalidContinuation => "invalid continuation byte"
  | .unexpectedEnd => "unexpected end of data"

/-- The position in words, with the byte itself if it is the only one. -/
def Malformed.describe (m : Malformed) : Text :=
  let bytes : Text :=
    if m.length == 1 then "byte 0x" ++ Text.hex 2 m.first ++ " in position " ++ Text.ofNat m.start
    else
      "bytes in position " ++ Text.ofNat m.start ++ "-" ++ Text.ofNat (m.start + m.length - 1)
  "'utf-8' codec can't decode " ++ bytes ++ ": " ++ m.reason.describe

end Utf8
end SmallLisp
