/-
# Errors

Every way in which an operation on tables can fail, by its cause.  An error
names the table and column it is about, so its message needs no context.  The
errors of validation are those a statement is refused with before anything is
written; the others report that something stored is missing, damaged or out of
reach.
-/

import FlatDB.Disk.Fault

namespace FlatDB

/-- Why a table's header cannot be read. -/
inductive HeaderDamage where
  | unreachable (fault : Fault)
  | empty
  | malformedHeader (line : String)
  | notANumber (field : String) (text : String)
  | missingColumn (position : Nat)
  | malformedColumn (line : String)
  | unknownType (tag : Nat) (column : String)
  | notAFlag (text : String)
  deriving DecidableEq, Repr

/-- Why a line of a data file is not a record. -/
inductive RecordDamage where
  | notAnId (text : String)
  | unknownEscape (escaped : Option Char)
  | wrongArity (expected found : Nat)
  | notACounter (text : String)
  deriving DecidableEq, Repr

/-- Why an index cannot be kept. -/
inductive IndexDamage where
  | notAnInt (value : String)
  | unknownColumn
  deriving DecidableEq, Repr

/-- What a statement asks for that is not supported. -/
inductive Unsupported where
  | columnList
  | assignments (count : Nat)
  | indexColumns (count : Nat)
  | selectExpression (expression : String)
  deriving DecidableEq, Repr

/-- Why an operation failed. -/
inductive Error where
  | tableExists (table : String)
  | tableNotFound (table : String)
  | unreadableHeader (table : String) (damage : HeaderDamage)
  | foreignHeader (expected found : String)
  | invalidIdentifier (name : String)
  | duplicateColumn (table column : String)
  | noColumns (table : String)
  | missingValues (table : String) (expected found : Nat)
  | tooManyValues (table : String) (expected found : Nat)
  | valueTooLarge (table column : String)
  | invalidDate (table column value : String)
  | typeMismatch (table column : String)
  | wildcardNotAlone
  | repeatedField (column : String)
  | columnNotFound (table column : String)
  | assignmentMismatch (table column : String)
  | indexExists (table column : String)
  | notIndexable (table column : String)
  | damagedIndex (table column : String) (damage : IndexDamage)
  | unknownOperator (symbol : String)
  | notAColumn (expression : String)
  | missingRecords (table : String)
  | damagedRecord (table : String) (line : Nat) (damage : RecordDamage)
  | unsupported (feature : Unsupported)
  | storage (fault : Fault)
  deriving DecidableEq, Repr

/-- The damage in words. -/
def HeaderDamage.message : HeaderDamage → String
  | .unreachable fault => fault.message
  | .empty => "empty metadata file"
  | .malformedHeader line => "malformed header '" ++ line ++ "'"
  | .notANumber field text => "invalid " ++ field ++ " '" ++ text ++ "'"
  | .missingColumn position => "missing definition for column " ++ Numeral.ofNat position
  | .malformedColumn line => "malformed column line '" ++ line ++ "'"
  | .unknownType tag column =>
    "unknown type code " ++ Numeral.ofNat tag ++ " for column '" ++ column ++ "'"
  | .notAFlag text => "invalid nullable flag '" ++ text ++ "'"

/-- The damage in words.  An escape at the very end of a field is reported as
that of a blank. -/
def RecordDamage.message : RecordDamage → String
  | .notAnId text => "invalid record id '" ++ text ++ "'"
  | .unknownEscape escaped =>
    "invalid escape sequence '\\" ++ String.singleton (escaped.getD ' ') ++ "'"
  | .wrongArity expected found =>
    "expected " ++ Numeral.ofNat expected ++ " fields, found " ++ Numeral.ofNat found
  | .notACounter text => "invalid record counter '" ++ text ++ "'"

/-- The damage in words. -/
def IndexDamage.message : IndexDamage → String
  | .notAnInt value => "value '" ++ value ++ "' is not an INT"
  | .unknownColumn => "indexed column is not part of the table"

/-- The feature in words. -/
def Unsupported.message : Unsupported → String
  | .columnList => "INSERT into a column list other than the declared one"
  | .assignments count => "UPDATE with " ++ Numeral.ofNat count ++ " assignments"
  | .indexColumns count => "index over " ++ Numeral.ofNat count ++ " columns"
  | .selectExpression expression => "select expression '" ++ expression ++ "'"

namespace Error

/-- The error in words. -/
def message : Error → String
  | .tableExists table => "Catalog error: table '" ++ table ++ "' already exists"
  | .tableNotFound table => "Catalog error: table '" ++ table ++ "' doesn't exist"
  | .unreadableHeader table damage =>
    "Catalog error: could not read metadata for table '" ++ table ++ "': " ++ damage.message
  | .foreignHeader expected found =>
    "Catalog error: metadata stores table '" ++ found ++ "' but '" ++ expected ++
      "' was requested"
  | .invalidIdentifier name => "Catalog error: '" ++ name ++ "' is not a valid identifier"
  | .duplicateColumn table column =>
    "Catalog error: column '" ++ column ++ "' is declared twice in table '" ++ table ++ "'"
  | .noColumns table =>
    "Catalog error: table '" ++ table ++ "' must declare at least one column"
  | .missingValues table expected found =>
    "Insert error: table '" ++ table ++ "' has " ++ Numeral.ofNat expected ++
      " columns but only " ++ Numeral.ofNat found ++ " values were given"
  | .tooManyValues table expected found =>
    "Insert error: table '" ++ table ++ "' has " ++ Numeral.ofNat expected ++
      " columns but " ++ Numeral.ofNat found ++ " values were given"
  | .valueTooLarge table column =>
    "Type error: value for column '" ++ column ++ "' in table '" ++ table ++ "' is too large"
  | .invalidDate table column value =>
    "Type error: '" ++ value ++ "' for column '" ++ column ++ "' in table '" ++ table ++
      "' isn't a valid date, use DD-MM-YYYY"
  | .typeMismatch table column =>
    "Type error: data type of column '" ++ column ++ "' in table '" ++ table ++
      "' doesn't match the value's type"
  | .wildcardNotAlone => "Select error: can't use * along with other fields"
  | .repeatedField column =>
    "Select error: field '" ++ column ++ "' is requested more than once"
  | .columnNotFound table column =>
    "Catalog error: column '" ++ column ++ "' not found in table '" ++ table ++ "'"
  | .assignmentMismatch table column =>
    "Update error: column '" ++ column ++ "' in table '" ++ table ++
      "' and the assigned value have different types"
  | .indexExists table column =>
    "Index error: there's already an index on column '" ++ column ++ "' of table '" ++ table ++
      "'"
  | .notIndexable table column =>
    "Index error: column '" ++ column ++ "' of table '" ++ table ++
      "' must be of type INT to be indexed"
  | .damagedIndex table column damage =>
    "Index error: index on column '" ++ column ++ "' of table '" ++ table ++
      "' is corrupted: " ++ damage.message
  | .unknownOperator symbol => "Where error: unknown operator '" ++ symbol ++ "'"
  | .notAColumn expression =>
    "Where error: left hand side must be a column reference, found " ++ expression
  | .missingRecords table =>
    "Storage error: record container of table '" ++ table ++ "' is missing"
  | .damagedRecord table line damage =>
    "Storage error: corrupted record at line " ++ Numeral.ofNat line ++ " of table '" ++
      table ++ "': " ++ damage.message
  | .unsupported feature => "Execution error: " ++ feature.message ++ " is not supported"
  | .storage fault => "I/O error: " ++ fault.message

/-- Whether the error is one of validation: a statement was refused before
anything was written. -/
def isValidation : Error → Bool
  | .storage _ | .damagedIndex .. | .damagedRecord .. | .missingRecords _
  | .unreadableHeader .. | .foreignHeader .. => false
  | _ => true

/-- What lies behind the error, where that is a fault of storage. -/
def cause? : Error → Option Fault
  | .storage fault => some fault
  | _ => none

end Error

end FlatDB
