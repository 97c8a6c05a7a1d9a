/-
# Where a table is kept

A table has a directory of its own under the storage root, named like the table.
In it are the header, the data file with the records, the counter of ids, and a
directory for the indexes: one file for each, and a list of the columns that
have one.  A new table is assembled in a hidden directory beside its own.
-/

import FlatDB.Disk.Path

namespace FlatDB

/-- The paths of one table. -/
structure Layout where
  /-- The directory of the table. -/
  directory : Path
  deriving DecidableEq, Repr

namespace Layout

/-- The paths of a table under a storage root. -/
def ofTable (root : Path) (table : String) : Layout :=
  ⟨root.join table⟩

/-- The data file, with one record on each line. -/
def data (l : Layout) : Path :=
  l.directory.join "registers.sqlito"

/-- The header, with the definition of the table. -/
def header (l : Layout) : Path :=
  l.directory.join "metadata.dat"

/-- The counter, with the last id handed out. -/
def counter (l : Layout) : Path :=
  l.directory.join "reg_count.dat"

/-- The directory of the indexes. -/
def indexes (l : Layout) : Path :=
  l.directory.join "indexes"

/-- The list of indexed columns. -/
def indexList (l : Layout) : Path :=
  l.indexes.join "columns.dat"

/-- The index of a column. -/
def index (l : Layout) (column : String) : Path :=
  l.indexes.join (column ++ ".idx")

/-- The hidden directory in which a table is assembled. -/
def staging (root : Path) (table : String) : Path :=
  root.join ("." ++ table ++ ".creating")

end Layout

end FlatDB
