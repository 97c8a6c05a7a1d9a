/-
# Quoted text in JSON

Between its quotes a JSON string escapes the quote, the backslash and the
control characters, the common ones by a letter and the rest by four
hexadecimal digits; everything else stands for itself.  Reading undoes any
escape the format has, a surrogate pair included, and asks that the outcome be
text: a surrogate on its own stands for no character, and bytes that are not
UTF-8 are no text at all.
-/

import FlatDB.Text.Utf8

namespace FlatDB

namespace Json

namespace Quoted

/-- A hexadecimal digit, in lower case. -/
def hexDigit (n : Nat) : Char :=
  Nat.digitChar (n % 16)

/-- How one character is written inside a string. -/
def escape (c : Char) : List Char :=
  if c = '"' then ['\\', '"']
  else if c = '\\' then ['\\', '\\']
  else if c = '\x08' then ['\\', 'b']
  else if c = '\x0c' then ['\\', 'f']
  else if c = '\n' then ['\\', 'n']
  else if c = '\r' then ['\\', 'r']
  else if c = '\t' then ['\\', 't']
  else if c.toNat < 0x20 then
    ['\\', 'u', '0', '0', hexDigit (c.toNat / 16), hexDigit c.toNat]
  else [c]

/-- A text as a JSON string, quotes included. -/
def quote (s : String) : String :=
  String.ofList ('"' :: s.toList.flatMap escape ++ ['"'])

/-- The value of a hexadecimal digit. -/
def hexValue? (b : UInt8) : Option Nat :=
  let n := b.toNat
  if 48 ≤ n ∧ n ≤ 57 then some (n - 48)
  else if 65 ≤ n ∧ n ≤ 70 then some (n - 55)
  else if 97 ≤ n ∧ n ≤ 102 then some (n - 87)
  else none

/-- The value of four hexadecimal digits. -/
def hex4? (a b c d : UInt8) : Option Nat := do
  return ((((← hexValue? a) * 16 + (← hexValue? b)) * 16 + (← hexValue? c)) * 16 + (← hexValue? d))

/-- The byte that an escape letter stands for. -/
def letter? (b : UInt8) : Option UInt8 :=
  match b.toNat with
  | 34 => some 34
  | 92 => some 92
  | 47 => some 47
  | 98 => some 8
  | 102 => some 12
  | 110 => some 10
  | 114 => some 13
  | 116 => some 9
  | _ => none

/-- Whether a unit opens a surrogate pair. -/
def isHighSurrogate (n : Nat) : Bool := 0xD800 ≤ n && n < 0xDC00

/-- Whether a unit closes a surrogate pair. -/
def isLowSurrogate (n : Nat) : Bool := 0xDC00 ≤ n && n < 0xE000

/-- The bytes of the character a surrogate pair stands for. -/
def pair (high low : Nat) : Bytes :=
  String.utf8EncodeChar (Char.ofNat (0x10000 + (high - 0xD800) * 0x400 + (low - 0xDC00)))

/-- The bytes that a string's inside stands for. -/
def unescape? : Bytes → Option Bytes
  | [] => some []
  | 92 :: 117 :: a :: b :: c :: d :: 92 :: 117 :: a' :: b' :: c' :: d' :: rest => do
    let unit ← hex4? a b c d
    if isLowSurrogate unit then none
    else if isHighSurrogate unit then
      let low ← hex4? a' b' c' d'
      if isLowSurrogate low then return pair unit low ++ (← unescape? rest) else none
    else return String.utf8EncodeChar (Char.ofNat unit) ++
      (← unescape? (92 :: 117 :: a' :: b' :: c' :: d' :: rest))
  | 92 :: 117 :: a :: b :: c :: d :: rest => do
    let unit ← hex4? a b c d
    if isLowSurrogate unit || isHighSurrogate unit then none
    else return String.utf8EncodeChar (Char.ofNat unit) ++ (← unescape? rest)
  | 92 :: b :: rest => do return (← letter? b) :: (← unescape? rest)
  | 92 :: [] => none
  | b :: rest => do return b :: (← unescape? rest)

/-- The text that a string's inside stands for. -/
def unquote? (inside : Bytes) : Option String :=
  (unescape? inside).bind Utf8.decode?

end Quoted

end Json

end FlatDB
