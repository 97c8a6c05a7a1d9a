/-
# Syntax trees of JSON texts

The tree of a JSON text keeps its strings and numbers as they were written and
its members in the order they were written, repeated names included; what a
document means, and which repetitions are allowed, is for its reader to say.

The tree is built by an automaton with a stack.  Each frame of the stack is a
list or object under construction, so a token either starts a value, finishes
one, or separates two, and no token is looked at twice.
-/

import FlatDB.Json.Token

namespace FlatDB

namespace Json

/-- The tree of a JSON text.  A name or string is what stood between its quotes. -/
inductive Tree where
  | word (letters : List Char)
  | number (digits : List Char)
  | string (inside : Bytes)
  | array (items : List Tree)
  | object (members : List (Bytes × Tree))

namespace Tree

/-- A list or object under construction, its parts last first. -/
inductive Frame where
  | items (done : List Tree)
  | members (done : List (Bytes × Tree)) (key : Bytes)

/-- What may come next, inside which frames. -/
inductive State where
  | value (stack : List Frame)
  | firstItem (stack : List Frame)
  | afterItem (done : List Tree) (stack : List Frame)
  | firstName (stack : List Frame)
  | name (done : List (Bytes × Tree)) (stack : List Frame)
  | colon (done : List (Bytes × Tree)) (key : Bytes) (stack : List Frame)
  | afterMember (done : List (Bytes × Tree)) (stack : List Frame)
  | finished (tree : Tree)

namespace State

/-- A finished value takes its place in the innermost frame. -/
def place (tree : Tree) : List Frame → State
  | [] => .finished tree
  | .items done :: stack => .afterItem (tree :: done) stack
  | .members done key :: stack => .afterMember ((key, tree) :: done) stack

/-- A token where a value must start. -/
def start? (stack : List Frame) : Token → Option State
  | .openArray => some (.firstItem stack)
  | .openObject => some (.firstName stack)
  | .string inside => some (place (.string inside) stack)
  | .number digits => some (place (.number digits) stack)
  | .word letters => some (place (.word letters) stack)
  | _ => none

/-- The next token. -/
def next? : State → Token → Option State
  | .value stack, token => start? stack token
  | .firstItem stack, .closeArray => some (place (.array []) stack)
  | .firstItem stack, token => start? (.items [] :: stack) token
  | .afterItem done stack, .comma => some (.value (.items done :: stack))
  | .afterItem done stack, .closeArray => some (place (.array done.reverse) stack)
  | .firstName stack, .closeObject => some (place (.object []) stack)
  | .firstName stack, .string inside => some (.colon [] inside stack)
  | .name done stack, .string inside => some (.colon done inside stack)
  | .colon done key stack, .colon => some (.value (.members done key :: stack))
  | .afterMember done stack, .comma => some (.name done stack)
  | .afterMember done stack, .closeObject => some (place (.object done.reverse) stack)
  | _, _ => none

end State

/-- The tree of a sequence of tokens, if it has one. -/
def ofTokens? (tokens : List Token) : Option Tree :=
  match tokens.foldlM State.next? (.value []) with
  | some (.finished tree) => some tree
  | _ => none

/-- The tree of a JSON text, if it is one. -/
def ofBytes? (bytes : Bytes) : Option Tree :=
  (Token.ofBytes? bytes).bind ofTokens?

/-- The text that a tree stands for, if it is a string. -/
def text? : Tree → Option String
  | .string inside => Quoted.unquote? inside
  | _ => none

/-- The number that an integer numeral of JSON stands for: no leading zeros, no
fraction, no exponent, and no minus sign before a zero. -/
def integer? (digits : List Char) : Option Int :=
  match digits with
  | ['0'] => some 0
  | '0' :: _ => none
  | '-' :: '0' :: _ => none
  | '-' :: cs => (Numeral.digits? cs).map fun n => -(n : Int)
  | cs => (Numeral.digits? cs).map fun n => (n : Int)

end Tree

end Json

end FlatDB
