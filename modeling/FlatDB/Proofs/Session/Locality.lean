/-
# A statement looks at its own table

What a statement about a table answers and makes of the catalog depends on what the
catalog has under the name of the table, and that is all it changes.  So statements
about different tables answer the same and come to the same catalog in either order.
-/

import FlatDB.Proofs.Session.Execution

namespace FlatDB

namespace Catalog

variable {root : Path} {cat cat' : Catalog} {name other : String} {s s' : Statement}

/-! ## What a statement leaves alone -/

theorem getElem?_onTable_of_ne (ne : name ≠ other)
    (f : Contents → Except Error Answer × Contents) :
    (cat.onTable name f).2[other]? = cat[other]? := by
  unfold onTable
  split
  · rfl
  · exact getElem?_insert_of_ne ne _

theorem getElem?_makeTable_of_ne (ne : name ≠ other) (columns : List Declaration) :
    (cat.makeTable root name columns).2[other]? = cat[other]? := by
  unfold makeTable
  dsimp only
  split
  · rfl
  · split
    · rfl
    · split
      · exact getElem?_insert_of_ne ne _
      · rfl

theorem getElem?_dropTable_of_ne (ne : name ≠ other) :
    (cat.dropTable name).2[other]? = cat[other]? := by
  unfold dropTable
  split
  · rfl
  · exact getElem?_erase_of_ne ne

/-- A statement changes no other table than its own. -/
theorem getElem?_execute_of_ne (elsewhere : s.table? ≠ some other) :
    (cat.execute root s).2[other]? = cat[other]? := by
  have ne {table : String} (about : s.table? = some table) : table ≠ other := by
    rintro rfl
    exact elsewhere about
  cases s with
  | createTable table columns => exact getElem?_makeTable_of_ne (ne rfl) columns
  | insert table columns values => exact getElem?_onTable_of_ne (ne rfl) _
  | select table items filter => rfl
  | update table assignments filter => exact getElem?_onTable_of_ne (ne rfl) _
  | delete table filter => exact getElem?_onTable_of_ne (ne rfl) _
  | createIndex table index columns => exact getElem?_onTable_of_ne (ne rfl) _
  | dropTable table => exact getElem?_dropTable_of_ne (ne rfl)
  | describe table => rfl
  | showTables => rfl

/-! ## What a statement depends on -/

/-- Whether two results of statements are the same answer and leave the same under a name. -/
def SameAt (name : String) (x y : Except Error Answer × Catalog) : Prop :=
  y.1 = x.1 ∧ y.2[name]? = x.2[name]?

theorem sameAt_onTable (same : cat'[name]? = cat[name]?)
    (f : Contents → Except Error Answer × Contents) :
    SameAt name (cat.onTable name f) (cat'.onTable name f) := by
  unfold onTable
  rw [find_congr same]
  cases cat.find name with
  | error e => exact ⟨rfl, same⟩
  | ok c => exact ⟨rfl, by simp⟩

theorem sameAt_makeTable (same : cat'[name]? = cat[name]?) (columns : List Declaration) :
    SameAt name (cat.makeTable root name columns) (cat'.makeTable root name columns) := by
  unfold makeTable
  cases Identifier.check name >>= fun _ => Schema.ofDeclarations? name columns with
  | error e => exact ⟨rfl, same⟩
  | ok schema =>
      dsimp only
      rw [same]
      split
      · exact ⟨rfl, same⟩
      · split
        · exact ⟨rfl, by simp⟩
        · exact ⟨rfl, same⟩

theorem sameAt_dropTable (same : cat'[name]? = cat[name]?) :
    SameAt name (cat.dropTable name) (cat'.dropTable name) := by
  unfold dropTable
  rw [find_congr same]
  cases cat.find name with
  | error e => exact ⟨rfl, same⟩
  | ok c => exact ⟨rfl, by simp⟩

/-- What a statement answers and makes of its table depends on the table only. -/
theorem sameAt_execute (about : s.table? = some name) (same : cat'[name]? = cat[name]?) :
    SameAt name (cat.execute root s) (cat'.execute root s) := by
  have answer (f : Contents → Except Error Answer) :
      SameAt name (cat.find name >>= f, cat) (cat'.find name >>= f, cat') :=
    ⟨by rw [find_congr same], same⟩
  cases s with
  | createTable table columns =>
      cases about
      exact sameAt_makeTable same columns
  | insert table columns values =>
      cases about
      exact sameAt_onTable same _
  | select table items filter =>
      cases about
      exact answer fun c => c.selectFrom items filter
  | update table assignments filter =>
      cases about
      exact sameAt_onTable same _
  | delete table filter =>
      cases about
      exact sameAt_onTable same _
  | createIndex table index columns =>
      cases about
      exact sameAt_onTable same _
  | dropTable table =>
      cases about
      exact sameAt_dropTable same
  | describe table =>
      cases about
      exact answer fun c => .ok c.describe
  | showTables => cases about

/-- Statements about different tables do not notice each other. -/
theorem execute_comm (root : Path) (cat : Catalog) (about : s.table? = some name)
    (about' : s'.table? = some other) (ne : name ≠ other) :
    ((cat.execute root s').2.execute root s).1 = (cat.execute root s).1 ∧
      ((cat.execute root s).2.execute root s').1 = (cat.execute root s').1 ∧
      ((cat.execute root s').2.execute root s).2 = ((cat.execute root s).2.execute root s').2 := by
  have away : s.table? ≠ some other := fun e => ne (Option.some.inj (about.symm.trans e))
  have away' : s'.table? ≠ some name := fun e => ne (Option.some.inj (about'.symm.trans e)).symm
  have first : SameAt name (cat.execute root s) ((cat.execute root s').2.execute root s) :=
    sameAt_execute about (getElem?_execute_of_ne away')
  have second : SameAt other (cat.execute root s') ((cat.execute root s).2.execute root s') :=
    sameAt_execute about' (getElem?_execute_of_ne away)
  refine ⟨first.1, second.1, Std.ExtTreeMap.ext_getElem? fun this => ?_⟩
  by_cases own : s.table? = some this
  · obtain rfl : name = this := Option.some.inj (about.symm.trans own)
    rw [first.2, getElem?_execute_of_ne away']
  · rw [getElem?_execute_of_ne own]
    by_cases others : s'.table? = some this
    · obtain rfl : other = this := Option.some.inj (about'.symm.trans others)
      exact second.2.symm
    · rw [getElem?_execute_of_ne others, getElem?_execute_of_ne others,
        getElem?_execute_of_ne own]

end Catalog

end FlatDB
