/-
# The header files of tables

A header that is written to a file is read from that file as the definition it was
made from, under the name of its table and under no other.  This holds of every
definition that a table can be made with, up to the limits of machine words.

Reading a header that something else wrote comes to a definition too, and that is as
good as one that a table was made with only if the header repeats no name.
-/

import FlatDB.Proofs.Disk.Absence
import FlatDB.Proofs.Schema.Reading
import FlatDB.Proofs.Table.Files
import FlatDB.Table.Basic

namespace FlatDB

/-! ## Files that were written -/

namespace Disk

variable {d : Disk} {path : Path} {content : Bytes} {sync : Bool}

/-- A file that was created and written is read as it was written. -/
theorem step_read_of_created
    (h : (d.perform (do Action.fill (← Action.create path) content sync)).1 = .ok ()) :
    ((d.perform (do Action.fill (← Action.create path) content sync)).2.step (.read path)).1 =
      .ok (.content content) := by
  rw [perform_bind, Action.create, perform_bind, perform_ask] at h ⊢
  cases reply : (d.step (.create path)).1 with
  | error fault => simp [reply] at h
  | ok handle =>
      obtain ⟨place, leads, noSlash, file, created⟩ := step_create_eq_ok reply
      have ne : place ≠ [] := fun e => file (by rw [e, FileTree.at?_nil])
      obtain rfl : d.waiting.length = handle := by
        rw [created] at reply
        exact Except.ok.inj reply
      have written := FileTree.Leads.perform_fill_created (t := d.tree) ne d.waiting content sync
      have stays := FileTree.place_keeps (FileTree.keeps_put ne file (.file content)) leads
      simp only [created, perform_ofReply_ok, written]
      simp only [step, FileTree.look_of_place stays noSlash, FileTree.at?_put d.tree ne, if_true]

end Disk

namespace Table

variable {disk : Disk} {layout : Layout}

/-- What reading a header comes to is decided by what can be read from its file. -/
theorem perform_readHeader_of_read {source : Source}
    (h : (disk.step (.read layout.header)).1 = .ok source) (name : String) :
    (disk.perform (readHeader layout name)).1 = Header.parse name source.lines := by
  rw [readHeader, Disk.perform_bind, Disk.perform_ask, h]
  rfl

theorem perform_readHeader_of_fault {fault : Fault}
    (h : (disk.step (.read layout.header)).1 = .error fault) (name : String) :
    (disk.perform (readHeader layout name)).1 =
      .error (.unreadableHeader name (.unreachable fault)) := by
  rw [readHeader, Disk.perform_bind, Disk.perform_ask, h]
  rfl

/-! ## Headers that were written -/

/-- A header that was written is read under the name of its table, as far as its numbers are
machine words, and under no other name. -/
theorem perform_readHeader_of_written {d : Definition} (proper : d.Proper)
    (written : (disk.perform (writeHeader layout.header d)).1 = .ok ()) :
    ((disk.perform (writeHeader layout.header d)).2.perform (readHeader layout d.name)).1 =
        Header.reread d ∧
      ∀ other, other ≠ d.name →
        ((disk.perform (writeHeader layout.header d)).2.perform (readHeader layout other)).1 =
          .error (.foreignHeader other d.name) := by
  have read := Disk.step_read_of_created written
  refine ⟨perform_readHeader_of_read read d.name, fun other ne => ?_⟩
  apply (perform_readHeader_of_read read other).trans
  rw [Header.parse_ofDef (Header.legible_of_proper proper), if_neg (Ne.symm ne)]

/-- The header of every table that can be declared is written wherever there is room for it,
and what is read back under the table's name is the definition, unless its numbers are beyond
machine words.  Under any other name nothing is read.  The definition has the declared
columns in the declared order, each at its own place. -/
theorem header_round_trip {table : String} {columns : List Declaration} {schema : Schema}
    (valid : Identifier.isValid table = true)
    (declared : Schema.ofDeclarations? table columns = .ok schema) (layout : Layout)
    (disk : Disk) :
    let definition := Definition.ofSchema table schema
    let written := disk.perform (writeHeader layout.header definition)
    (∀ q, disk.tree.Leads layout.directory q → layout.directory.Admits "metadata.dat" →
      disk.tree.at? ("metadata.dat" :: q) ≠ some .directory → written.1 = .ok ()) ∧
    (written.1 = .ok () →
      ((written.2.perform (readHeader layout table)).1 = .ok definition ↔
        ¬ Declaration.Oversized columns) ∧
      ∀ other, other ≠ table →
        (written.2.perform (readHeader layout other)).1 = .error (.foreignHeader other table)) ∧
    definition.schema.columns = columns.mapIdx fun i d => { d with position := i } := by
  have proper : (Definition.ofSchema table schema).Proper := ⟨valid, .of_ofDeclarations? declared⟩
  refine ⟨fun q leads admits vacant => ?_, fun written => ?_, ?_⟩
  · have runs := leads.runs_create_fill fileName_header.step admits vacant
      (Utf8.encode (Header.ofDef (.ofSchema table schema))) false
    obtain ⟨waiting, performed⟩ := runs disk.waiting
    exact congrArg Prod.fst performed
  · obtain ⟨own, others⟩ := perform_readHeader_of_written proper written
    refine ⟨?_, others⟩
    apply Iff.trans (b := Header.reread (.ofSchema table schema) = .ok (.ofSchema table schema))
    · exact own ▸ Iff.rfl
    · rw [Header.reread_eq_ok_iff proper, Header.fits_iff_not_oversized declared]
  · have distinct : (columns.map Declaration.name).Nodup := by
      rw [← Schema.declarations_of_ofDeclarations? declared, List.map_map]
      exact proper.schema.distinct
    rw [← Schema.columns_ofDeclarations distinct, ← Schema.eq_ofDeclarations declared]
    rfl

/-- The header of a small table comes back in its directory. -/
theorem header_round_trip_people :
    let columns : List Declaration :=
      [⟨"id", .int, false⟩, ⟨"name", .char 20, true⟩, ⟨"born", .date, false⟩]
    let definition := Definition.ofSchema "people" (.ofDeclarations columns)
    let layout : Layout := ⟨⟨"people"⟩⟩
    let disk : Disk := ⟨FileTree.empty.put ["people"] .directory, []⟩
    let written := (disk.perform (writeHeader layout.header definition)).2
    Schema.ofDeclarations? "people" columns = .ok definition.schema ∧
      (written.perform (readHeader layout "people")).1 = .ok definition ∧
      (written.perform (readHeader layout "pets")).1 = .error (.foreignHeader "pets" "people") := by
  intro columns definition layout disk written
  have declared : Schema.ofDeclarations? "people" columns = .ok definition.schema := by
    decide +kernel
  have leads : disk.tree.Leads layout.directory ["people"] := ⟨by decide +kernel, by decide +kernel⟩
  have small : ¬ Declaration.Oversized columns := by
    simp [Declaration.Oversized, columns, ColumnType.length, UInt64.size]
  obtain ⟨made, read, -⟩ := header_round_trip (by decide) declared layout disk
  have done := made ["people"] leads ⟨by decide, by decide⟩ (by decide +kernel)
  exact ⟨declared, (read done).1.2 small, (read done).2 "pets" (by decide)⟩

/-! ## Headers that something else wrote -/

/-- Whatever is in the file, reading a header comes to the definition of the columns that it
declares, or it fails because the header is damaged or another table's.  No two columns that
are read have one name.  But there are as many as the header announces, they are where
they say they are, and the definition comes back when it is written and read again, only
if no name was declared twice. -/
theorem readHeader_sound_iff (disk : Disk) (layout : Layout) (name : String) :
    match (disk.perform (readHeader layout name)).1 with
    | .error e => (∃ damage, e = .unreadableHeader name damage) ∨
        ∃ found, found ≠ name ∧ e = .foreignHeader name found
    | .ok d => ∃ source ds, (disk.step (.read layout.header)).1 = .ok source ∧
        Header.Announces source.lines name ds d.recordSize ∧
        d.name = name ∧ d.schema = .ofDeclarations ds ∧ d.schema.columnNames.Nodup ∧
        (d.schema.arity = ds.length ↔ (ds.map Declaration.name).Nodup) ∧
        ((∀ c ∈ d.schema.columns, d.schema.index? c.name = some c.position ∧
          c.position < d.schema.arity) ↔ (ds.map Declaration.name).Nodup) ∧
        (Header.reread d = .ok d ↔ (ds.map Declaration.name).Nodup) := by
  cases found : (disk.step (.read layout.header)).1 with
  | error fault =>
      rw [perform_readHeader_of_fault found]
      exact .inl ⟨_, rfl⟩
  | ok source =>
      rw [perform_readHeader_of_read found]
      cases read : Header.parse name source.lines with
      | error e => exact Header.parse_eq_error read
      | ok d =>
          obtain ⟨ds, announced, made⟩ := Header.parse_eq_ok.1 read
          have schema : d.schema = .ofDeclarations ds := congrArg Definition.schema made
          have whole : ∀ line, .ok line ∈ source.lines → '\n' ∉ line.toList :=
            fun line => Source.not_mem_of_ok_mem_lines
          refine ⟨source, ds, rfl, announced, congrArg Definition.name made, schema, ?_⟩
          rw [schema]
          refine ⟨Schema.nodup_columnNames_ofDeclarations ds, Schema.arity_ofDeclarations_eq_iff ds,
            Schema.index?_ofDeclarations_iff ds, ?_⟩
          rw [made]
          exact announced.reread_eq_self_iff whole

/-- A header that declares one column twice is read, as a definition with a single column that
says it is the second. -/
theorem repeated_column_accepted :
    let disk : Disk := ⟨(FileTree.empty.put ["t"] .directory).put ["metadata.dat", "t"]
      (.file (Utf8.encode "t\t2\t8\nid\t1\t0\t1\nid\t1\t0\t1\n")), []⟩
    ∃ d, (disk.perform (readHeader ⟨⟨"t"⟩⟩ "t")).1 = .ok d ∧ d.schema.arity ≠ 2 ∧
      d.schema.index? "id" = some 0 ∧ (d.schema.column? "id").map Column.position = some 1 ∧
      Header.reread d ≠ .ok d :=
  ⟨⟨"t", ⟨[⟨⟨"id", .int, true⟩, 1⟩]⟩, 8⟩, by decide +kernel, by decide, by decide, by decide,
    by decide +kernel⟩

end Table

end FlatDB
