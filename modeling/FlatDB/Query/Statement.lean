/-
# Statements

What the library can be asked to do with tables.  A statement is a value; it
says nothing about whether the tables and columns it names exist.
-/

import FlatDB.Query.Expr
import FlatDB.Schema.Definition

namespace FlatDB

/-- One item of a select list. -/
inductive SelectItem where
  /-- All columns. -/
  | wildcard
  /-- An expression, under a label of its own if it has one. -/
  | expr (value : Expr) (label : Option String)

/-- A column and the value it is set to. -/
structure Assignment where
  /-- The column. -/
  column : String
  /-- The value. -/
  value : Expr

/-- A statement. -/
inductive Statement where
  | createTable (table : String) (columns : List Declaration)
  /-- Add a row; the columns may be listed. -/
  | insert (table : String) (columns : Option (List String)) (values : List Expr)
  | select (table : String) (items : List SelectItem) (filter : Option Expr)
  | update (table : String) (assignments : List Assignment) (filter : Option Expr)
  | delete (table : String) (filter : Option Expr)
  /-- Make an index.  Its name is only repeated in the answer: what counts is the column. -/
  | createIndex (table : String) (index : String) (columns : List String)
  | dropTable (table : String)
  | describe (table : String)
  | showTables

namespace Statement

/-- The words a statement starts with. -/
def kind : Statement → String
  | .createTable .. => "CREATE TABLE"
  | .insert .. => "INSERT"
  | .select .. => "SELECT"
  | .update .. => "UPDATE"
  | .delete .. => "DELETE"
  | .createIndex .. => "CREATE INDEX"
  | .dropTable .. => "DROP TABLE"
  | .describe .. => "DESCRIBE"
  | .showTables => "SHOW TABLES"

/-- The table a statement is about, if it is about one. -/
def table? : Statement → Option String
  | .createTable table _ => some table
  | .insert table _ _ => some table
  | .select table _ _ => some table
  | .update table _ _ => some table
  | .delete table _ => some table
  | .createIndex table _ _ => some table
  | .dropTable table => some table
  | .describe table => some table
  | .showTables => none

end Statement

end FlatDB
