/-
# Identifiers

Names of tables and columns double as names of files, so an identifier is a
non-empty run of ASCII letters, digits and underscores.  In particular it holds
no slash, no dot and no blank.
-/

import FlatDB.Error

namespace FlatDB

namespace Identifier

/-- Whether a character can occur in an identifier. -/
def isIdentifierChar (c : Char) : Bool :=
  c.isAlphanum || c == '_'

/-- Whether a text is an identifier. -/
def isValid (name : String) : Bool :=
  !name.toList.isEmpty && name.toList.all isIdentifierChar

/-- Refuse what is not an identifier. -/
def check (name : String) : Except Error Unit :=
  if isValid name then .ok () else .error (.invalidIdentifier name)

end Identifier

end FlatDB
