/-
# Tokens of a JSON text

A JSON text is a sequence of brackets, commas, colons, strings, numbers and
words, with blanks between them.  A token keeps the bytes it was written with.
In particular a string is only checked to be well delimited, its escapes
spelled right and free of control characters; whether it stands for a text is
decided when somebody asks for that text, so that a part of a document nobody
asks for need not be text.

Cutting is a left fold with one byte of state: what kind of token is under way.
A number or word ends where a byte comes that cannot belong to it, and that byte
is then looked at afresh.
-/

import FlatDB.Json.Quoted
import FlatDB.Text.Numeral

namespace FlatDB

namespace Json

/-- A token of a JSON text. -/
inductive Token where
  | openArray
  | closeArray
  | openObject
  | closeObject
  | comma
  | colon
  | string (inside : Bytes)
  | number (digits : List Char)
  | word (letters : List Char)
  deriving DecidableEq, Repr

namespace Token

/-! ## Numbers -/

/-- Drop a non-empty run of digits. -/
def dropDigits? (cs : List Char) : Option (List Char) :=
  if (cs.takeWhile Char.isDigit).isEmpty then none else some (cs.dropWhile Char.isDigit)

/-- Drop the whole part of a number: a zero, or digits that start with none. -/
def dropWhole? : List Char → Option (List Char)
  | '0' :: cs => some cs
  | cs => dropDigits? cs

/-- Drop a fraction, if there is one. -/
def dropFraction? : List Char → Option (List Char)
  | '.' :: cs => dropDigits? cs
  | cs => some cs

/-- Drop an exponent, if there is one. -/
def dropExponent? : List Char → Option (List Char)
  | e :: cs =>
    if e = 'e' ∨ e = 'E' then
      match cs with
      | '+' :: ds => dropDigits? ds
      | '-' :: ds => dropDigits? ds
      | ds => dropDigits? ds
    else some (e :: cs)
  | [] => some []

/-- Drop a minus sign, if there is one. -/
def dropMinus : List Char → List Char
  | '-' :: cs => cs
  | cs => cs

/-- Whether some characters spell a number. -/
def isNumber (cs : List Char) : Bool :=
  (((dropWhole? (dropMinus cs)).bind dropFraction?).bind dropExponent?) == some []

/-- Whether some characters spell a word of the format. -/
def isWord (cs : List Char) : Bool :=
  cs == "null".toList || cs == "true".toList || cs == "false".toList

/-! ## Cutting -/

/-- How far an escape inside a string has come. -/
inductive Escape where
  | outside
  | begun
  | hex (missing : Nat)

/-- The kind of token under way, with what it holds so far, last byte first. -/
inductive Mode where
  | between
  | string (inside : Bytes) (escape : Escape)
  | number (digits : List Char)
  | word (letters : List Char)

/-- The state of cutting: what is under way, and the tokens so far, last first. -/
structure Cutter where
  /-- The token under way. -/
  mode : Mode := .between
  /-- The finished tokens, last first. -/
  done : List Token := []

namespace Cutter

/-- Whether a character can occur in a number after its first. -/
def numberChar (c : Char) : Bool :=
  c.isDigit || c == '+' || c == '-' || c == '.' || c == 'e' || c == 'E'

/-- Finish the number or word under way. -/
def settle? (s : Cutter) : Option Cutter :=
  match s.mode with
  | .between => some s
  | .string _ _ => none
  | .number digits =>
    if isNumber digits.reverse then some ⟨.between, .number digits.reverse :: s.done⟩ else none
  | .word letters =>
    if isWord letters.reverse then some ⟨.between, .word letters.reverse :: s.done⟩ else none

/-- Look at a byte that starts something new. -/
def start? (done : List Token) (b : UInt8) : Option Cutter :=
  let c := Char.ofNat b.toNat
  if c = ' ' ∨ c = '\t' ∨ c = '\n' ∨ c = '\r' then some ⟨.between, done⟩
  else if c = '[' then some ⟨.between, .openArray :: done⟩
  else if c = ']' then some ⟨.between, .closeArray :: done⟩
  else if c = '\x7b' then some ⟨.between, .openObject :: done⟩
  else if c = '\x7d' then some ⟨.between, .closeObject :: done⟩
  else if c = ',' then some ⟨.between, .comma :: done⟩
  else if c = ':' then some ⟨.between, .colon :: done⟩
  else if c = '"' then some ⟨.string [] .outside, done⟩
  else if c.isDigit ∨ c = '-' then some ⟨.number [c], done⟩
  else if c.isLower then some ⟨.word [c], done⟩
  else none

/-- Look at a byte inside a string. -/
def inside? (done : List Token) (inside : Bytes) (escape : Escape) (b : UInt8) : Option Cutter :=
  match escape with
  | .outside =>
    if b = 34 then some ⟨.between, .string inside.reverse :: done⟩
    else if b = 92 then some ⟨.string (b :: inside) .begun, done⟩
    else if b < 32 then none
    else some ⟨.string (b :: inside) .outside, done⟩
  | .begun =>
    if b = 117 then some ⟨.string (b :: inside) (.hex 4), done⟩
    else if (Quoted.letter? b).isSome then some ⟨.string (b :: inside) .outside, done⟩
    else none
  | .hex missing =>
    if (Quoted.hexValue? b).isSome then
      some ⟨.string (b :: inside) (if missing ≤ 1 then .outside else .hex (missing - 1)), done⟩
    else none

/-- Look at the next byte. -/
def next? (s : Cutter) (b : UInt8) : Option Cutter :=
  let c := Char.ofNat b.toNat
  match s.mode with
  | .between => start? s.done b
  | .string inside escape => inside? s.done inside escape b
  | .number digits =>
    if numberChar c then some ⟨.number (c :: digits), s.done⟩
    else s.settle?.bind fun t => start? t.done b
  | .word letters =>
    if c.isLower then some ⟨.word (c :: letters), s.done⟩
    else s.settle?.bind fun t => start? t.done b

end Cutter

/-- The tokens of a JSON text, if it can be cut into tokens. -/
def ofBytes? (bytes : Bytes) : Option (List Token) :=
  ((bytes.foldlM Cutter.next? {}).bind Cutter.settle?).map fun s => s.done.reverse

end Token

end Json

end FlatDB
