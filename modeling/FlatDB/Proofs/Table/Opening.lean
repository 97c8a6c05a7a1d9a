/-
# Opening a stored table

Opening a table yields its contents as they are stored, whatever was open before:
the definition from the header, the last id from the counter, and the indexes
from the list and their files, none of which has to be made anew.  Only a
definition with a number of more than 64 bits cannot be read back.
-/

import FlatDB.Proofs.Table.Reading

namespace FlatDB

/-- An identifier is a step. -/
theorem isStep_of_isValid {name : String}
    (h : Identifier.isValid name = true) : Path.IsStep name := by
  have absent {c : Char} (hc : Identifier.isIdentifierChar c = false) : c ∉ name.toList :=
    Identifier.not_mem_of_isValid h hc
  refine ⟨Identifier.toList_ne_nil_of_isValid h, absent (by decide), absent (by decide), ?_, ?_⟩
  · rintro rfl
    exact absent (c := '.') (by decide) (by decide)
  · rintro rfl
    exact absent (c := '.') (by decide) (by decide)

/-- The index of a column is found in the file that was written for it. -/
theorem Index.filter_ofBytes?_ofStored (column : Column) (stored : List Stored) :
    (ofBytes? column.position (Utf8.encode (ofStored column stored).text)).filter
      (fun i => i.column == column.name) = some (ofStored column stored) := by
  have read : ofBytes? column.position (Utf8.encode (ofStored column stored).text) =
      some (ofStored column stored) := by
    rw [ofBytes?_text]
    have position := position_ofStored column stored
    generalize ofStored column stored = index at position
    rw [← position]
  rw [read, Option.filter_some, column_ofStored, beq_self_eq_true, if_pos rfl]

namespace TableIndexes

/-- The names on a list are read back. -/
theorem listOfText_listText {columns : List String}
    (h : ∀ column ∈ columns, Identifier.isValid column = true) :
    listOfText (listText columns) = columns := by
  have newline {column : String} (valid : Identifier.isValid column = true) : '\n' ∉
    column.toList :=
    Identifier.not_mem_of_isValid valid (by decide)
  have pieces : Split.pieces '\n' (listText columns).toList =
    columns.map String.toList ++ [[]] := by
    unfold listText
    induction columns with
    | nil => rfl
    | cons column columns ih =>
        have rest := ih fun c mem => h c (List.mem_cons_of_mem column mem)
        have text : (String.join ((column :: columns).map (· ++ "\n"))).toList =
            column.toList ++ '\n' :: (String.join (columns.map (· ++ "\n"))).toList := by
          simp
        rw [text, Split.pieces_append_cons (newline (h column List.mem_cons_self)), rest]
        rfl
  have trimmed : columns.map (fun column => Blank.trim (String.ofList column.toList)) =
    columns := by
    conv => rhs; rw [← List.map_id columns]
    apply List.map_congr_left
    intro column mem
    rw [String.ofList_toList, Identifier.trim_of_isValid (h column mem)]
    rfl
  have kept : columns.filter (fun name => !name.isEmpty) = columns := by
    rw [List.filter_eq_self]
    intro column mem
    rw [Bool.not_eq_true', Bool.eq_false_iff]
    intro empty
    exact Identifier.toList_ne_nil_of_isValid (h column mem)
      (by rw [String.isEmpty_iff.1 empty]; rfl)
  rw [listOfText, pieces, List.map_append, List.map_map, List.filter_append]
  show (columns.map fun column => Blank.trim (String.ofList column.toList)).filter _ ++ _ = _
  rw [trimmed, kept]
  have last : ([[]].map fun line : List Char => Blank.trim (String.ofList line)).filter
      (fun name => !name.isEmpty) = [] := by decide
  rw [last, List.append_nil]

end TableIndexes

namespace FileTree

namespace Houses

variable {t : FileTree} {root : Path} {r : Place} {table : String} {f : TableFiles}

/-- The counter is read back. -/
theorem runs_loadCounter (h : t.Houses root r table f) {id : RecordId}
    (counts : f.counter = Utf8.encode (Numeral.ofUInt64 id)) (s : RecordFile)
    (counter : s.counter = (Layout.ofTable root table).counter) :
    s.loadCounter.Runs t (.ok id) t := by
  have text : (Source.content f.counter).text = .ok (Numeral.ofUInt64 id) := by
    rw [counts]
    exact Source.text_encode _
  rw [RecordFile.loadCounter]
  rw [counter]
  refine .bind h.runs_read_counter ?_
  have decoded : (Action.ofReply (Source.content f.counter).text).Runs t
      (.ok (Numeral.ofUInt64 id)) t := by
    rw [text]
    exact .ofReply_ok _ t
  apply Action.Runs.bind decoded
  rw [RecordFile.counterOfText_ofUInt64]
  exact .ofResult _ t

/-- The records are opened whatever they are. -/
theorem runs_load_records (h : t.Houses root r table f) {id : RecordId}
    (counts : f.counter = Utf8.encode (Numeral.ofUInt64 id)) (arity : Nat) (sync : Bool) :
    (RecordFile.load table (Layout.ofTable root table).data (Layout.ofTable root table).counter
        arity sync).Runs t
      (.ok ⟨table, (Layout.ofTable root table).data, (Layout.ofTable root table).counter, arity, id,
        sync⟩) t := by
  rw [RecordFile.load]
  refine .bind (h.runs_kind_file fileName_data rfl) ?_
  rw [if_neg (by simp)]
  exact .bind (h.runs_loadCounter counts _ rfl) (.pure _ t)

/-- There are no indexes where there is no list of them. -/
theorem runs_readList_of_none (h : t.Houses root r table f) (none : f.list = none)
    (i : TableIndexes) (layout : i.layout = Layout.ofTable root table) :
    i.readList.Runs t (.ok []) t := by
  rw [TableIndexes.readList]
  rw [layout]
  refine .bind h.runs_read_list ?_
  rw [none]
  exact .pure _ t

end Houses

namespace Retains

variable {t t' : FileTree} {root : Path} {r : Place} {c : Contents}
  {index : String → Option Bytes}

theorem runs_readHeader (h : t.Retains root r c index) :
    (Table.readHeader (Layout.ofTable root c.name) c.name).Runs t (Header.reread c.definition) t :=
  .bind h.houses.runs_read_header (.ofResult _ t)

/-- The records are opened. -/
theorem runs_load_records (h : t.Retains root r c index) (sync : Bool) :
    (RecordFile.load c.name (Layout.ofTable root c.name).data (Layout.ofTable root c.name).counter
      c.schema.arity sync).Runs t (.ok (c.recordFile root sync)) t :=
  h.houses.runs_load_records rfl c.schema.arity sync

/-- The list of indexes is read back. -/
theorem runs_readList (h : t.Retains root r c index) (i : TableIndexes)
    (layout : i.layout = Layout.ofTable root c.name) : i.readList.Runs t (.ok c.indexedNames)
      t := by
  have valid : ∀ name ∈ c.indexedNames, Identifier.isValid name = true := by
    intro name mem
    obtain ⟨column, hc, rfl⟩ := List.mem_map.1 mem
    exact h.proper.isValid hc
  by_cases empty : c.indexed.isEmpty = true
  · have none : c.indexedNames = [] := by
      rw [Contents.indexedNames, List.isEmpty_iff.1 empty]
      rfl
    rw [none]
    exact h.houses.runs_readList_of_none (if_pos empty) i layout
  · have list : c.files.list = some (Utf8.encode (TableIndexes.listText c.indexedNames)) :=
      if_neg empty
    rw [TableIndexes.readList]
    rw [layout]
    refine .bind h.houses.runs_read_list ?_
    rw [list]
    have text : (Source.content (Utf8.encode (TableIndexes.listText c.indexedNames))).text =
        .ok (TableIndexes.listText c.indexedNames) := Source.text_encode _
    have decoded : (Action.ofReply
        (Source.content (Utf8.encode (TableIndexes.listText c.indexedNames))).text).Runs t
        (.ok (TableIndexes.listText c.indexedNames)) t := by
      rw [text]
      exact .ofReply_ok _ t
    apply Action.Runs.bind decoded
    rw [TableIndexes.listOfText_listText valid]
    exact .pure _ t

/-- Opening a table whose definition can be read back takes no more than opening its
indexes. -/
theorem runs_load_of_fits (h : t.Retains root r c index) (fits : Header.Fits c.definition)
    (sync : Bool)
    (indexes : (TableIndexes.load c.definition (Layout.ofTable root c.name)
      (c.recordFile root sync) sync).Runs t (.ok (c.tableIndexes root sync)) t') :
    (Table.load root c.name sync).Runs t (.ok (c.handle root sync)) t' := by
  have valid : Identifier.check c.name = .ok () :=
    Identifier.check_eq_ok.2 h.proper.definition.name
  have read := h.runs_readHeader
  rw [Header.reread_of_fits h.proper.definition fits] at read
  rw [Table.load]
  rw [valid]
  refine .bind (.ofResult _ t) (.bind h.houses.runs_kind_directory ?_)
  rw [if_neg (by simp)]
  exact .bind read (.bind (h.runs_load_records sync) (.bind indexes (.pure _ t')))

end Retains

namespace Stores

variable {t : FileTree} {root : Path} {r : Place} {c : Contents}

/-- The index of a column is read back from its file. -/
theorem runs_readIndex? (h : t.Stores root r c) (i : TableIndexes)
    (layout : i.layout = Layout.ofTable root c.name) {column : Column} (mem : column ∈ c.indexed) :
    (i.readIndex? column.name column.position).Runs t
      (.ok (some (Index.ofStored column c.stored))) t := by
  rw [TableIndexes.readIndex?]
  rw [layout]
  refine .bind (h.houses.runs_read_index (isStep_of_isValid (h.proper.isValid mem))
    (h.rooms column mem) (h.proper.index_files mem)) ?_
  simp only [Index.filter_ofBytes?_ofStored]
  exact .pure _ t

/-- The indexes of listed columns are opened one after the other. -/
theorem runs_loadIndexes (h : t.Stores root r c) (sync : Bool) (front : List Column)
    {back : List Column} (split : c.indexed = front ++ back) :
    ((back.map fun column => column.name).foldlM
        (TableIndexes.loadIndex c.definition (c.recordFile root sync))
        ⟨c.name, Layout.ofTable root c.name, TableIndexes.ofStored front c.stored, sync⟩).Runs t
      (.ok (c.tableIndexes root sync)) t := by
  induction back generalizing front with
  | nil =>
      rw [List.append_nil] at split
      rw [← split]
      exact .pure _ t
  | cons column back ih =>
      have mem : column ∈ c.indexed := split ▸ List.mem_append_right front List.mem_cons_self
      have known : c.definition.schema.column? column.name = some column :=
        h.proper.definition.schema.column?_name (h.proper.indexed column mem).1
      have more : TableIndexes.ofStored front c.stored ++ [Index.ofStored column c.stored] =
          TableIndexes.ofStored (front ++ [column]) c.stored := by
        simp [TableIndexes.ofStored]
      rw [List.map_cons, List.foldlM_cons]
      refine .bind (x := ⟨c.name, Layout.ofTable root c.name,
        TableIndexes.ofStored (front ++ [column]) c.stored, sync⟩) ?_ (ih _ (by simp [split]))
      rw [TableIndexes.loadIndex]
      simp only [known]
      refine .bind (h.runs_readIndex? _ rfl mem) ?_
      rw [← more]
      exact .pure _ t

theorem runs_load_indexes (h : t.Stores root r c) (sync : Bool) :
    (TableIndexes.load c.definition (Layout.ofTable root c.name) (c.recordFile root sync) sync).Runs
      t
      (.ok (c.tableIndexes root sync)) t := by
  refine .bind (h.retains.runs_readList _ rfl) ?_
  exact h.runs_loadIndexes sync [] rfl

/-- Opening a stored table yields its contents, unless its definition cannot be read back. -/
theorem runs_load (h : t.Stores root r c) (sync : Bool) :
    (Table.load root c.name sync).Runs t
      (Header.reread c.definition >>= fun _ => .ok (c.handle root sync)) t := by
  by_cases fits : Header.Fits c.definition
  · rw [Header.reread_of_fits h.proper.definition fits]
    exact h.retains.runs_load_of_fits fits sync (h.runs_load_indexes sync)
  · have read := h.retains.runs_readHeader
    obtain ⟨damage, unread⟩ := Header.reread_of_not_fits h.proper.definition fits
    have valid : Identifier.check c.name = .ok () :=
      Identifier.check_eq_ok.2 h.proper.definition.name
    rw [unread] at read ⊢
    rw [Table.load]
    rw [valid]
    refine .bind (.ofResult _ t) (.bind h.houses.runs_kind_directory ?_)
    rw [if_neg (by simp)]
    exact .bind_error read

end Stores

/-- There is no table where there is nothing. -/
theorem Leads.runs_load_of_absent {t : FileTree} {root : Path} {r : Place} (h : t.Leads root r)
    {name : String} (valid : Identifier.isValid name = true) (absent : t.at? (name :: r) = none)
    (sync : Bool) : (Table.load root name sync).Runs t (.error (.tableNotFound name)) t := by
  rw [Table.load]
  rw [Identifier.check_eq_ok.2 valid]
  refine .bind (.ofResult _ t) (.bind (h.runs_kind_join (isStep_of_isValid valid)) ?_)
  have nothing : (if root.Admits name then (t.at? (name :: r)).map Entry.kind else none) =
    none := by
    rw [absent]
    split <;> rfl
  rw [nothing, if_pos (by simp)]
  exact .bind_error (.throw _ t)

/-- There is no table without a valid name. -/
theorem runs_load_of_not_isValid (t : FileTree) (root : Path) {name : String}
    (invalid : Identifier.isValid name = false) (sync : Bool) :
    (Table.load root name sync).Runs t (.error (.invalidIdentifier name)) t := by
  unfold Table.load Identifier.check
  rw [invalid, if_neg Bool.false_ne_true]
  exact .bind_error (.ofResult _ t)

end FileTree

end FlatDB
