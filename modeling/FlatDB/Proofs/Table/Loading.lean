/-
# Indexes that are loaded from a list

A set of indexes is well formed if it has at most one index of a column, and each is of a column
that holds integers and knows the place of that column.  Making an index sees to all of this.
Opening a table does not: it loads an index for each name on the list of indexed columns, and the
list is a text that may name a column twice, or one that does not hold integers.  What is loaded is
well formed exactly if the list is.

Nothing that is done to a set afterwards makes it any better or worse, because the columns of its
indexes stay what they are, and the ones that are added are checked.  So in a set from a list that
names a column twice there will always be two indexes of it, and an update of records follows only
the first, while everything else reaches both.
-/

import FlatDB.Proofs.Table.BadKeys
import FlatDB.Proofs.Table.Confinement

namespace FlatDB

namespace Index

variable {table : String} {i i' : Index}

/-- The column that an index is of, and its place. -/
def seat (i : Index) : String × Nat :=
  (i.column, i.position)

/-! ## Columns of indexes -/

theorem seat_of_insertRecord {s : Stored} (h : i.insertRecord table s = .ok i') :
    i'.seat = i.seat := by
  obtain ⟨key, -, made⟩ := Result.bind_eq_ok.1 h
  cases made
  exact Prod.ext (column_insert i key s.1) (position_insert i key s.1)

theorem seat_of_eraseRecord {s : Stored} (h : i.eraseRecord table s = .ok i') :
    i'.seat = i.seat := by
  obtain ⟨key, -, made⟩ := Result.bind_eq_ok.1 h
  cases made
  exact Prod.ext (column_erase i key s.1) (position_erase i key s.1)

theorem seat_relocate (i : Index) (old new : Int32) (id : RecordId) :
    (i.relocate old new id).seat = i.seat := by
  rw [relocate]
  split
  · rfl
  · exact Prod.ext (column_erase i old id) (position_erase i old id)

theorem seat_of_build {column : String} {position : Nat} {entries : List (Except Error Stored)}
    (h : build table column position entries = .ok i) : i.seat = (column, position) := by
  refine Result.of_foldlM_eq_ok (P := fun i => i.seat = (column, position))
    (fun i entry i' same made => ?_) rfl h
  obtain ⟨s, -, made⟩ := Result.bind_eq_ok.1 made
  exact (seat_of_insertRecord made).trans same

/-- What a document says of an index, it does not say of its place. -/
theorem position_of_ofBytes? {position : Nat} {bytes : Bytes}
    (h : ofBytes? position bytes = some i) : i.position = position := by
  obtain ⟨tree, -, made⟩ := Option.bind_eq_some_iff.1 h
  unfold ofTree? at made
  split at made
  · obtain ⟨column, -, made⟩ := Option.bind_eq_some_iff.1 made
    obtain ⟨buckets, -, made⟩ := Option.bind_eq_some_iff.1 made
    cases made
    rfl
  · obtain ⟨members, -, made⟩ := Option.bind_eq_some_iff.1 made
    obtain ⟨named, -, made⟩ := Option.bind_eq_some_iff.1 made
    obtain ⟨column, -, made⟩ := Option.bind_eq_some_iff.1 made
    obtain ⟨values, -, made⟩ := Option.bind_eq_some_iff.1 made
    obtain ⟨buckets, -, made⟩ := Option.bind_eq_some_iff.1 made
    cases made
    rfl
  · cases made

end Index

namespace TableIndexes

variable {t t' : TableIndexes} {s : Schema} {d : Definition} {records : RecordFile}

/-! ## Well-formed sets -/

/-- The columns of the indexes, and their places. -/
def seats (t : TableIndexes) : List (String × Nat) :=
  t.indexes.map Index.seat

/-- Whether an index may be made of a column in a place. -/
def Admits (s : Schema) (seat : String × Nat) : Prop :=
  ∃ c, s.column? seat.1 = some c ∧ c.type = .int ∧ seat.2 = c.position

/-- Whether there are only indexes that could have been made one after the other. -/
structure WellFormed (s : Schema) (t : TableIndexes) : Prop where
  /-- No column has two indexes. -/
  single : (t.indexes.map Index.column).Nodup
  /-- Each index is of a column that holds integers, and knows its place. -/
  admitted : ∀ i ∈ t.indexes, ∃ c, s.column? i.column = some c ∧ c.type = .int ∧
    i.position = c.position

/-- Whether there is but one index for each column: the one that is found by its name is all the
indexes that have it. -/
def Unambiguous (t : TableIndexes) : Prop :=
  ∀ column, t.indexes.filter (fun i => i.column == column) = (t.get? column).toList

theorem map_fst_seats (t : TableIndexes) : t.seats.map Prod.fst = t.indexes.map Index.column := by
  rw [seats, List.map_map]
  rfl

theorem unambiguous_iff : t.Unambiguous ↔ (t.seats.map Prod.fst).Nodup := by
  rw [map_fst_seats, List.nodup_iff_count_le_one]
  apply forall_congr'
  intro column
  rw [get?, ← List.head?_filter, List.count, List.countP_map, List.countP_eq_length_filter]
  show t.indexes.filter (fun i => i.column == column) = _ ↔
    (t.indexes.filter fun i => i.column == column).length ≤ 1
  generalize t.indexes.filter (fun i => i.column == column) = found
  rcases found with _ | ⟨i, _ | ⟨j, more⟩⟩ <;> simp

theorem wellFormed_iff :
    t.WellFormed s ↔ (t.seats.map Prod.fst).Nodup ∧ ∀ seat ∈ t.seats, Admits s seat := by
  rw [seats, List.forall_mem_map, ← seats, map_fst_seats]
  exact ⟨fun h => ⟨h.single, h.admitted⟩, fun h => ⟨h.1, h.2⟩⟩

/-! ## Loading -/

/-- The index that is read or made for a listed column is of that column. -/
theorem seat_of_readIndex? {disk : Disk} {column : String} {position : Nat} {i : Index}
    (h : (disk.perform (t.readIndex? column position)).1 = .ok (some i)) :
    i.seat = (column, position) := by
  obtain ⟨reply, -, h⟩ := Disk.perform_bind_eq_ok h
  split at h
  · next bytes =>
    have kept := Except.ok.inj h
    rw [Option.filter_eq_some_iff] at kept
    exact Prod.ext (beq_iff_eq.1 kept.2) (Index.position_of_ofBytes? kept.1)
  · cases h

/-- A listed name puts an index at the end of the set. -/
theorem loadIndex_eq_ok {disk : Disk} {name : String}
    (h : (disk.perform (loadIndex d records t name)).1 = .ok t') :
    ∃ c i, d.schema.column? name = some c ∧ i.seat = (name, c.position) ∧
      t' = { t with indexes := t.indexes ++ [i] } := by
  unfold loadIndex at h
  split at h
  · cases h
  · next c found =>
    refine ⟨c, ?_⟩
    obtain ⟨read, first, h⟩ := Disk.perform_bind_eq_ok h
    cases read with
    | some i =>
        cases h
        exact ⟨i, found, seat_of_readIndex? first, rfl⟩
    | none =>
        obtain ⟨i, made, h⟩ := Disk.perform_bind_eq_ok h
        obtain ⟨-, -, h⟩ := Disk.perform_bind_eq_ok h
        cases h
        obtain ⟨entries, -, built⟩ := Disk.perform_bind_eq_ok made
        have seat := Index.seat_of_build built
        rw [Schema.name_of_column? found] at seat
        exact ⟨i, found, seat, rfl⟩

/-- Whether indexes are of listed columns, one for each name. -/
def Listed (s : Schema) : List String → List (String × Nat) → Prop :=
  List.Forall₂ fun name seat => seat.1 = name ∧ ∃ c, s.column? name = some c ∧ seat.2 = c.position

theorem Listed.map_fst {names : List String} {seats : List (String × Nat)}
    (h : Listed s names seats) : seats.map Prod.fst = names := by
  induction h with
  | nil => rfl
  | cons first _ ih => rw [List.map_cons, first.1, ih]

/-- The indexes may be of these columns just if the columns hold integers. -/
theorem Listed.admits_iff {names : List String} {seats : List (String × Nat)}
    (h : Listed s names seats) : (∀ seat ∈ seats, Admits s seat) ↔
      ∀ name ∈ names, ∃ c, s.column? name = some c ∧ c.type = .int := by
  induction h with
  | nil => simp
  | @cons name seat names seats first _ ih =>
      obtain ⟨rfl, c, found, place⟩ := first
      rw [List.forall_mem_cons, List.forall_mem_cons, ih, Admits, found]
      simp [place]

/-- So do listed names, one after the other. -/
theorem foldlM_loadIndex_eq_ok {disk : Disk} {names : List String}
    (h : (disk.perform (names.foldlM (loadIndex d records) t)).1 = .ok t') :
    ∃ seats, t'.seats = t.seats ++ seats ∧ Listed d.schema names seats := by
  induction names generalizing t disk with
  | nil =>
      cases h
      exact ⟨[], (List.append_nil _).symm, .nil⟩
  | cons name names ih =>
      rw [List.foldlM_cons] at h
      obtain ⟨next, first, h⟩ := Disk.perform_bind_eq_ok h
      obtain ⟨c, i, found, seat, rfl⟩ := loadIndex_eq_ok first
      obtain ⟨seats, more, listed⟩ := ih h
      refine ⟨i.seat :: seats, ?_, .cons ⟨by rw [seat], c, found, by rw [seat]⟩ listed⟩
      rw [more, TableIndexes.seats, List.map_append, List.append_assoc]
      rfl

/-! ## Keeping up -/

variable {F : Tolerance} {disk : Disk}

/-- What is done with files leaves a set as it is. -/
theorem ensures_same (t : TableIndexes) (a : Action Unit) (disk : Disk) :
    (liftM a : Update TableIndexes Unit).Ensures F (fun _ t' _ => t' = t) t disk :=
  .ofAction ((Program.ensures_true (ExceptT.run a) disk).mono fun _ _ _ => rfl)

theorem seats_enter (table : String) (s : Stored) (indexes : List Index) :
    (enter table s indexes).2.map Index.seat = indexes.map Index.seat := by
  induction indexes with
  | nil => rfl
  | cons i indexes ih =>
      rw [enter]
      cases made : i.insertRecord table s with
      | error e => rfl
      | ok i' => exact congrArg₂ List.cons (Index.seat_of_insertRecord made) ih

theorem seats_leave {table : String} {s : Stored} {indexes left : List Index}
    (h : leave table indexes s = .ok left) : left.map Index.seat = indexes.map Index.seat := by
  have each := Result.mapM_eq_ok.1 h
  clear h
  induction each with
  | nil => rfl
  | cons first _ ih => exact congrArg₂ List.cons (Index.seat_of_eraseRecord first) ih

theorem seat_of_follow {table column : String} {state next : Index × Bool} {change : FieldChange}
    (h : follow table column state change = .ok next) : next.1.seat = state.1.seat := by
  obtain ⟨old, -, h⟩ := Result.bind_eq_ok.1 h
  obtain ⟨new, -, h⟩ := Result.bind_eq_ok.1 h
  cases h
  exact state.1.seat_relocate old new change.id

/-- The first index with a name is the one in the first place that has the name. -/
theorem getElem?_of_get? {column : String} {place : Nat} {index : Index}
    (first : t.indexes.findIdx? (fun i => i.column == column) = some place)
    (found : t.get? column = some index) : t.indexes[place]? = some index := by
  rw [get?] at found
  generalize t.indexes = indexes at first found ⊢
  induction indexes generalizing place with
  | nil => cases found
  | cons i indexes ih =>
      rw [List.find?_cons] at found
      rw [List.findIdx?_cons] at first
      cases here : i.column == column with
      | true =>
          simp only [here, if_true, Option.some.injEq] at first found
          rw [← first, ← found]
          rfl
      | false =>
          simp only [here, Bool.false_eq_true, if_false, Option.map_eq_some_iff] at first found
          obtain ⟨later, first, rfl⟩ := first
          exact ih first found

/-- What has become of a set while it was kept up, or given an index: its columns are what they
were, or one more that it had no index of and may have one. -/
def Extends (s : Schema) (t t' : TableIndexes) : Prop :=
  t'.seats = t.seats ∨
    ∃ seat, t'.seats = t.seats ++ [seat] ∧ seat.1 ∉ t.seats.map Prod.fst ∧ Admits s seat

theorem Extends.unambiguous_iff (h : Extends s t t') : t'.Unambiguous ↔ t.Unambiguous := by
  rw [TableIndexes.unambiguous_iff, TableIndexes.unambiguous_iff]
  rcases h with same | ⟨seat, more, new, -⟩
  · rw [same]
  · rw [more, List.map_append, List.map_singleton, List.nodup_append_comm, List.singleton_append,
      List.nodup_cons]
    exact and_iff_right new

theorem Extends.wellFormed_iff (h : Extends s t t') : t'.WellFormed s ↔ t.WellFormed s := by
  rw [TableIndexes.wellFormed_iff, TableIndexes.wellFormed_iff, ← TableIndexes.unambiguous_iff,
    ← TableIndexes.unambiguous_iff, h.unambiguous_iff]
  apply and_congr_right
  intro _
  rcases h with same | ⟨seat, more, -, admitted⟩
  · rw [same]
  · rw [more, List.forall_mem_append, List.forall_mem_singleton]
    exact and_iff_left admitted

theorem ensures_seats_onInsert (t : TableIndexes) (disk : Disk) (r : Stored) :
    (onInsert r).Ensures F (fun _ t' _ => t'.seats = t.seats) t disk := by
  rw [onInsert]
  apply Update.Ensures.bind_get
  dsimp only
  split
  · exact .pure rfl
  · have same : TableIndexes.seats { t with indexes := (enter t.table r t.indexes).2 } = t.seats :=
      seats_enter t.table r t.indexes
    apply Update.Ensures.bind_set
    apply Update.Ensures.bind (Q := fun _ t' _ => t'.seats = t.seats)
    · exact .ofAction (.ofResult same)
    · intro _ t' disk' kept
      exact (ensures_same t' _ disk').mono fun _ _ _ still => still ▸ kept
    · exact fun _ _ _ kept => kept

theorem ensures_seats_onUpdate (t : TableIndexes) (disk : Disk) (column : String)
    (changes : List FieldChange) :
    (onUpdate column changes).Ensures F (fun _ t' _ => t'.seats = t.seats) t disk := by
  rw [onUpdate]
  apply Update.Ensures.bind_get
  dsimp only
  split
  · next place index first found =>
    apply Update.Ensures.bind
      (Q := fun x t' _ => t' = t ∧ ∀ next, x = .ok next → next.1.seat = index.seat)
    · refine .ofAction (.ofResult ⟨rfl, fun next made => ?_⟩)
      exact Result.of_foldlM_eq_ok (P := fun state : Index × Bool => state.1.seat = index.seat)
        (fun _ _ _ same followed => (seat_of_follow followed).trans same) rfl made
    · rintro ⟨next, changed⟩ t disk' ⟨rfl, kept⟩
      have same : TableIndexes.seats { t with indexes := t.indexes.set place next } = t.seats := by
        show (t.indexes.set place next).map Index.seat = t.indexes.map Index.seat
        have here : (t.indexes.map Index.seat)[place]? = some next.seat := by
          rw [List.getElem?_map, getElem?_of_get? first found, kept _ rfl]
          rfl
        obtain ⟨below, seat⟩ := List.getElem?_eq_some_iff.1 here
        rw [List.map_set, ← seat, List.set_getElem_self]
      dsimp only
      split
      · apply Update.Ensures.bind_set
        exact (ensures_same _ _ disk').mono fun _ _ _ still => still ▸ same
      · exact .pure rfl
    · exact fun _ _ _ kept => congrArg seats kept.1
  · exact .pure rfl

theorem ensures_seats_onDelete (t : TableIndexes) (disk : Disk) (removed : List Stored) :
    (onDelete removed).Ensures F (fun _ t' _ => t'.seats = t.seats) t disk := by
  rw [onDelete]
  apply Update.Ensures.bind_get
  dsimp only
  split
  · exact .pure rfl
  · apply Update.Ensures.bind
      (Q := fun x t' _ => t' = t ∧ ∀ left, x = .ok left → left.map Index.seat = t.seats)
    · refine .ofAction (.ofResult ⟨rfl, fun left made => ?_⟩)
      exact Result.of_foldlM_eq_ok (P := fun left : List Index => left.map Index.seat = t.seats)
        (fun _ _ _ same left => (seats_leave left).trans same) rfl made
    · rintro left _ disk' ⟨rfl, kept⟩
      apply Update.Ensures.bind_set
      exact (ensures_same _ _ disk').mono fun _ _ _ still => still ▸ kept left rfl
    · exact fun _ _ _ kept => congrArg seats kept.1

theorem ensures_seats_clear (t : TableIndexes) (disk : Disk) :
    clear.Ensures F (fun _ t' _ => t'.seats = t.seats) t disk := by
  have same : TableIndexes.seats { t with indexes := t.indexes.map Index.clear } = t.seats := by
    show (t.indexes.map Index.clear).map Index.seat = t.indexes.map Index.seat
    rw [List.map_map]
    rfl
  rw [clear]
  apply Update.Ensures.bind_get
  apply Update.Ensures.bind_set
  exact (ensures_same _ _ disk).mono fun _ _ _ still => still ▸ same

/-- A column that is given an index has none yet and holds integers. -/
theorem indexable_eq_ok {name : String} {c : Column} (h : indexable d t name = .ok c) :
    c.type = .int ∧ name ∉ t.seats.map Prod.fst := by
  obtain ⟨found, -, checked⟩ := Result.bind_eq_ok.1 h
  by_cases old : (t.get? name).isSome = true
  · simp [old] at checked
  · by_cases int : found.type = .int
    · simp only [old, int] at checked
      cases checked
      refine ⟨int, fun mem => old ?_⟩
      rw [map_fst_seats] at mem
      simpa [get?] using mem
    · simp [old, int] at checked

theorem ensures_extends_create (t : TableIndexes) (disk : Disk) (name : String)
    (records : RecordFile) :
    (create d name records).Ensures F (fun _ t' _ => Extends d.schema t t') t disk := by
  rw [create]
  apply Update.Ensures.bind_get
  apply Update.Ensures.bind (Q := fun x t' _ => t' = t ∧ x = indexable d t name)
  · exact .ofAction (.ofResult ⟨rfl, rfl⟩)
  · rintro c t disk' ⟨rfl, checked⟩
    have found := column?_of_indexable checked.symm
    obtain ⟨int, new⟩ := indexable_eq_ok checked.symm
    apply Update.Ensures.bind
      (Q := fun x t' _ => t' = t ∧ ∀ i, x = .ok i → i.seat = (name, c.position))
    · apply Update.Ensures.ofAction
      apply Action.Ensures.bind ((Program.ensures_true _ disk').mono fun _ _ _ => trivial)
      · intro entries _ _
        refine .ofResult ⟨rfl, fun i built => ?_⟩
        rw [← Schema.name_of_column? found]
        exact Index.seat_of_build built
      · exact fun _ _ _ => ⟨rfl, nofun⟩
    · rintro i t disk' ⟨rfl, seat⟩
      have added : Extends d.schema t { t with indexes := t.indexes ++ [i] } := by
        refine .inr ⟨i.seat, by simp [seats], ?_, ?_⟩
        · rw [seat i rfl]
          exact new
        · rw [seat i rfl]
          exact ⟨c, found, int, rfl⟩
      apply Update.Ensures.bind (ensures_same t _ disk')
      · rintro _ t disk' rfl
        apply Update.Ensures.bind (ensures_same t _ disk')
        · rintro _ t disk' rfl
          exact added
        · rintro _ _ _ rfl
          exact .inl rfl
      · rintro _ _ _ rfl
        exact .inl rfl
    · rintro _ _ _ ⟨rfl, -⟩
      exact .inl rfl
  · rintro _ _ _ ⟨rfl, -⟩
    exact .inl rfl

/-- What a table does with its indexes once they are open. -/
inductive Hook where
  | made (name : String) (records : RecordFile)
  | keptUp (change : Upkeep)
  | cleared

/-- What is done to the indexes of a table with a definition. -/
def Hook.update (d : Definition) : Hook → Update TableIndexes Unit
  | .made name records => create d name records
  | .keptUp change => change.update
  | .cleared => clear

theorem ensures_extends (t : TableIndexes) (disk : Disk) (d : Definition) (hook : Hook) :
    (hook.update d).Ensures F (fun _ t' _ => Extends d.schema t t') t disk := by
  cases hook with
  | made name records => exact ensures_extends_create t disk name records
  | keptUp change =>
      cases change with
      | inserted r => exact (ensures_seats_onInsert t disk r).mono fun _ _ _ => .inl
      | updated column changes =>
          exact (ensures_seats_onUpdate t disk column changes).mono fun _ _ _ => .inl
      | deleted removed => exact (ensures_seats_onDelete t disk removed).mono fun _ _ _ => .inl
  | cleared => exact (ensures_seats_clear t disk).mono fun _ _ _ => .inl

/-- Something that is done to a set, with the disk it is done on and what befalls its calls. -/
structure Occasion where
  disk : Disk
  outlooks : List Outlook
  hook : Hook

/-- What becomes of a set, whether what is done to it fails or not. -/
def after (d : Definition) (t : TableIndexes) (history : List Occasion) : TableIndexes :=
  history.foldl (fun t o => (o.disk.updateUnder o.outlooks t (o.hook.update d)).2.1) t

theorem extends_updateUnder (t : TableIndexes) (d : Definition) (o : Occasion) :
    Extends d.schema t (o.disk.updateUnder o.outlooks t (o.hook.update d)).2.1 :=
  (ensures_extends t o.disk d o.hook).updateUnder (F := fun _ _ => True) fun _ _ _ _ _ => trivial

/-- Through any history, a set neither loses nor gains its form. -/
theorem form_after (t : TableIndexes) (d : Definition) (history : List Occasion) :
    ((t.after d history).WellFormed d.schema ↔ t.WellFormed d.schema) ∧
      ((t.after d history).Unambiguous ↔ t.Unambiguous) := by
  induction history generalizing t with
  | nil => exact ⟨Iff.rfl, Iff.rfl⟩
  | cons o history ih =>
      have first := extends_updateUnder t d o
      obtain ⟨form, names⟩ := ih (o.disk.updateUnder o.outlooks t (o.hook.update d)).2.1
      exact ⟨form.trans first.wellFormed_iff, names.trans first.unambiguous_iff⟩

/-- The indexes that are opened are those of the listed columns, in their order, each with the place
of its column.  They are well formed, then and after all that is done to them, if the list names no
column twice and only columns that hold integers, and not otherwise; and if it names a column twice,
the index that is found by the name of a column is not always the only one. -/
theorem load_wellFormed_iff {layout : Layout} {sync : Bool} {disk : Disk}
    (loaded : (disk.perform (load d layout records sync)).1 = .ok t) :
    ∃ names, (disk.perform (readList (empty d.name layout sync))).1 = .ok names ∧
      List.Forall₂ (fun name i => i.column = name ∧
        ∃ c, d.schema.column? name = some c ∧ i.position = c.position) names t.indexes ∧
      ∀ history, let t' := t.after d history
        (t'.WellFormed d.schema ↔
          names.Nodup ∧ ∀ name ∈ names, ∃ c, d.schema.column? name = some c ∧ c.type = .int) ∧
        ((∀ column, t'.indexes.filter (fun i => i.column == column) = (t'.get? column).toList) ↔
          names.Nodup) := by
  obtain ⟨names, read, opened⟩ := Disk.perform_bind_eq_ok loaded
  obtain ⟨seats, same, listed⟩ := foldlM_loadIndex_eq_ok opened
  obtain rfl : t.seats = seats := same
  have distinct : t.Unambiguous ↔ names.Nodup := by
    rw [unambiguous_iff, listed.map_fst]
  have form : t.WellFormed d.schema ↔
      names.Nodup ∧ ∀ name ∈ names, ∃ c, d.schema.column? name = some c ∧ c.type = .int := by
    rw [wellFormed_iff, listed.map_fst, listed.admits_iff]
  refine ⟨names, read, List.forall₂_map_right_iff.1 listed, fun history => ?_⟩
  obtain ⟨kept, still⟩ := t.form_after d history
  exact ⟨kept.trans form, still.trans distinct⟩

/-- A table with a column of integers and one of texts. -/
def mixed : Definition :=
  .ofSchema "t" (.ofDeclarations [⟨"x", .int, true⟩, ⟨"c", .char 8, true⟩])

/-- The store of its records. -/
def mixedRecords : RecordFile :=
  ⟨"t", (Layout.mk ⟨"t"⟩).data, (Layout.mk ⟨"t"⟩).counter, 2, 1, true⟩

/-- The disk that holds one record and a list of indexed columns, but no index. -/
def mixedDisk (list : String) : Disk :=
  ⟨(((FileTree.empty.put ["t"] .directory).put ["indexes", "t"] .directory).put
    ["registers.sqlito", "t"] (.file (Utf8.encode "1\t3\t7\n"))).put
    ["columns.dat", "indexes", "t"] (.file (Utf8.encode list)), []⟩

/-- The column of integers may be listed once, and the column of texts not at all. -/
theorem load_wellFormed_iff_mixed :
    let load (list : String) := ((mixedDisk list).perform (load mixed ⟨⟨"t"⟩⟩ mixedRecords true)).1
    (∃ t, load "\n x \r\n" = .ok t ∧ t.WellFormed mixed.schema) ∧
      ∃ t, load "x\nc\n" = .ok t ∧ ¬ t.WellFormed mixed.schema := by
  intro load
  constructor
  · obtain ⟨t, loaded⟩ : ∃ t, load "\n x \r\n" = .ok t := Result.isOk_iff.1 (by decide +kernel)
    obtain ⟨names, read, -, form⟩ := load_wellFormed_iff loaded
    obtain rfl : ["x"] = names := Except.ok.inj (.trans (by decide +kernel) read)
    exact ⟨t, loaded, (form []).1.2 ⟨by decide, by decide⟩⟩
  · obtain ⟨t, loaded⟩ : ∃ t, load "x\nc\n" = .ok t := Result.isOk_iff.1 (by decide +kernel)
    obtain ⟨names, read, -, form⟩ := load_wellFormed_iff loaded
    obtain rfl : ["x", "c"] = names := Except.ok.inj (.trans (by decide +kernel) read)
    refine ⟨t, loaded, fun well => ?_⟩
    have ints := ((form []).1.1 well).2
    exact absurd ints (by decide)

/-- A column that is listed twice has two indexes, and an update of its records follows only one of
them. -/
theorem listed_twice_loaded_twice :
    let opened := (mixedDisk "x\nx\n").perform (load mixed ⟨⟨"t"⟩⟩ mixedRecords true)
    ∃ t, opened.1 = .ok t ∧ ¬ t.WellFormed mixed.schema ∧
      let t' := (opened.2.update t (onUpdate "x" [⟨1, "3", "4"⟩])).2.1
      t'.indexes.map (fun i => (i.column, i.holds 4 1, i.holds 3 1)) =
        [("x", true, false), ("x", false, true)] := by
  intro opened
  obtain ⟨t, loaded, shown⟩ := Result.exists_of_any (x := opened.1)
    (p := fun t => t.indexes.map Index.column = ["x", "x"] ∧
      ((opened.2.update t (onUpdate "x" [⟨1, "3", "4"⟩])).2.1.indexes.map
        fun i => (i.column, i.holds 4 1, i.holds 3 1)) =
          [("x", true, false), ("x", false, true)]) (by decide +kernel)
  obtain ⟨columns, updated⟩ := of_decide_eq_true shown
  refine ⟨t, loaded, fun well => ?_, updated⟩
  have single := well.single
  rw [columns] at single
  exact absurd single (by decide)

end TableIndexes

end FlatDB
