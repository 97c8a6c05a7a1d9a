/-
# Select lists

A select list names columns of its table, each of them once, and each under a label of its own or
under the name of the column.  A list that does not is refused for its first item at fault, and
what is at fault with an item depends on the columns named before it and on nothing that follows.
Only the lone wildcard is a list of another kind.
-/

import FlatDB.Proofs.Query.Contents

namespace FlatDB

/-! ## Items -/

namespace SelectItem

/-- The column that an item asks for, if there is one, and the header to show it under. -/
def asked? (s : Schema) : SelectItem → Option (Column × String)
  | .expr (.column ref) label => (s.column? ref.column).map fun c => (c, label.getD c.name)
  | _ => none

/-- What is at fault with an item when columns have been named before it. -/
inductive Offends (d : Definition) (named : List String) : SelectItem → Error → Prop where
  /-- The wildcard is no item among others. -/
  | wildcard : Offends d named .wildcard .wildcardNotAlone
  /-- An expression has to be a column. -/
  | expression (value : Expr) (label : Option String) (other : ∀ ref, value ≠ .column ref) :
      Offends d named (.expr value label) (.unsupported (.selectExpression value.written))
  /-- A column is not named twice. -/
  | repeated (ref : ColumnRef) (label : Option String) (again : ref.column ∈ named) :
      Offends d named (.expr (.column ref) label) (.repeatedField ref.column)
  /-- A column has to be one of the table. -/
  | unknown (ref : ColumnRef) (label : Option String) (new : ref.column ∉ named)
      (missing : d.schema.column? ref.column = none) :
      Offends d named (.expr (.column ref) label) (.columnNotFound d.name ref.column)

end SelectItem

/-! ## Lists -/

namespace Schema

/-- Items that ask for columns with different names, none of which has been named before. -/
structure Names (s : Schema) (named : List String) (items : List SelectItem)
    (shown : List (Column × String)) : Prop where
  /-- Each item asks for the column that is shown in its place. -/
  asked : items.map (SelectItem.asked? s) = shown.map some
  /-- The columns are different. -/
  distinct : (shown.map fun p => p.1.name).Nodup
  /-- None has been named before. -/
  new : ∀ p ∈ shown, p.1.name ∉ named

/-- What a select list shows: all columns if it is the lone wildcard, or else the columns that it
names. -/
def Lists (s : Schema) (items : List SelectItem) (shown : List (Column × String)) : Prop :=
  (items = [.wildcard] ∧ shown = s.columns.map fun c => (c, c.name)) ∨ s.Names [] items shown

variable {s : Schema} {named : List String} {items : List SelectItem} {item : SelectItem}
  {shown : List (Column × String)} {p : Column × String}

theorem Names.nil : s.Names named [] [] :=
  ⟨rfl, List.nodup_nil, nofun⟩

/-- A list names columns if its first item names one and the others name columns beside it. -/
theorem names_cons : s.Names named (item :: items) shown ↔
    ∃ p rest, shown = p :: rest ∧ item.asked? s = some p ∧ p.1.name ∉ named ∧
      s.Names (p.1.name :: named) items rest := by
  constructor
  · rintro ⟨asked, distinct, new⟩
    cases shown with
    | nil => cases asked
    | cons p rest =>
      obtain ⟨first, others⟩ := List.cons.inj asked
      obtain ⟨once, distinct⟩ := List.nodup_cons.1 distinct
      obtain ⟨new, later⟩ := List.forall_mem_cons.1 new
      refine ⟨p, rest, rfl, first, new, others, distinct, fun q mem again => ?_⟩
      rcases List.mem_cons.1 again with same | before
      · exact once (List.mem_map.2 ⟨q, mem, same⟩)
      · exact later q mem before
  · rintro ⟨p, rest, rfl, first, new, asked, distinct, later⟩
    refine ⟨congrArg₂ List.cons first asked, List.nodup_cons.2 ⟨fun again => ?_, distinct⟩,
      List.forall_mem_cons.2 ⟨new, fun q mem => ?_⟩⟩
    · obtain ⟨q, mem, same⟩ := List.mem_map.1 again
      exact later q mem (same ▸ List.mem_cons_self)
    · exact fun before => later q mem (List.mem_cons_of_mem _ before)

theorem Names.mem (h : s.Names named items shown) (mem : p ∈ shown) : p.1 ∈ s.columns := by
  have asked : some p ∈ items.map (SelectItem.asked? s) := h.asked ▸ List.mem_map_of_mem mem
  obtain ⟨item, -, asks⟩ := List.mem_map.1 asked
  unfold SelectItem.asked? at asks
  split at asks
  · obtain ⟨column, known, rfl⟩ := Option.map_eq_some_iff.1 asks
    exact mem_of_column? known
  · cases asks

theorem mem_of_lists (h : s.Lists items shown) (mem : p ∈ shown) : p.1 ∈ s.columns := by
  rcases h with ⟨-, rfl⟩ | names
  · obtain ⟨column, there, rfl⟩ := List.mem_map.1 mem
    exact there
  · exact names.mem mem

end Schema

/-- A list is at fault for the first of its items that is.  The names are those of the columns
before the item, the last one first. -/
def Definition.FirstOffends (d : Definition) (named : List String) (items : List SelectItem)
    (e : Error) : Prop :=
  ∃ front item back shown, items = front ++ item :: back ∧ d.schema.Names named front shown ∧
    item.Offends d ((shown.map fun p => p.1.name).reverse ++ named) e

variable {d : Definition} {named : List String} {items : List SelectItem} {item : SelectItem}
  {shown : List (Column × String)} {p : Column × String} {e : Error}

/-- With every item there is something at fault, or it asks for a new column. -/
theorem SelectItem.offends_or_asked (d : Definition) (named : List String) (item : SelectItem) :
    (∃ e, item.Offends d named e) ∨ ∃ p, item.asked? d.schema = some p ∧ p.1.name ∉ named := by
  cases item with
  | wildcard => exact .inl ⟨_, .wildcard⟩
  | expr value label =>
    cases value with
    | literal value => exact .inl ⟨_, .expression _ label nofun⟩
    | binary op left right => exact .inl ⟨_, .expression _ label nofun⟩
    | column ref =>
      by_cases again : ref.column ∈ named
      · exact .inl ⟨_, .repeated ref label again⟩
      · cases found : d.schema.column? ref.column with
        | none => exact .inl ⟨_, .unknown ref label again found⟩
        | some column =>
          refine .inr ⟨(column, label.getD column.name), ?_, ?_⟩
          · rw [SelectItem.asked?, found]
            rfl
          · rwa [Schema.name_of_column? found]

/-- The column that an item at fault asks for has been named before. -/
theorem SelectItem.Offends.mem_named (h : item.Offends d named e)
    (asks : item.asked? d.schema = some p) : p.1.name ∈ named := by
  cases h with
  | wildcard => cases asks
  | expression value label other =>
    cases value with
    | column ref => exact absurd rfl (other ref)
    | literal value => cases asks
    | binary op left right => cases asks
  | repeated ref label again =>
    obtain ⟨column, known, rfl⟩ := Option.map_eq_some_iff.1 asks
    rwa [Schema.name_of_column? known]
  | unknown ref label new missing =>
    rw [SelectItem.asked?, missing] at asks
    cases asks

/-- The first item at fault is the first item, or the first one behind a column. -/
theorem firstOffends_cons : d.FirstOffends named (item :: items) e ↔
    item.Offends d named e ∨ ∃ p, item.asked? d.schema = some p ∧ p.1.name ∉ named ∧
      d.FirstOffends (p.1.name :: named) items e := by
  constructor
  · rintro ⟨front, item', back, shown, whole, names, offends⟩
    cases front with
    | nil =>
      obtain ⟨rfl, rfl⟩ := List.cons.inj whole
      obtain rfl : shown = [] := List.map_eq_nil_iff.1 names.asked.symm
      exact .inl offends
    | cons first front =>
      obtain ⟨rfl, rfl⟩ := List.cons.inj whole
      obtain ⟨p, rest, rfl, asks, new, names⟩ := Schema.names_cons.1 names
      refine .inr ⟨p, asks, new, front, item', back, rest, rfl, names, ?_⟩
      rwa [List.map_cons, List.reverse_cons, List.append_assoc, List.singleton_append] at offends
  · rintro (offends | ⟨p, asks, new, front, item', back, rest, rfl, names, offends⟩)
    · exact ⟨[], item, items, [], rfl, .nil, offends⟩
    · refine ⟨item :: front, item', back, p :: rest, rfl,
        Schema.names_cons.2 ⟨p, rest, rfl, asks, new, names⟩, ?_⟩
      rwa [List.map_cons, List.reverse_cons, List.append_assoc, List.singleton_append]

theorem not_firstOffends_nil : ¬ d.FirstOffends named [] e := by
  rintro ⟨front, item, back, _, whole, _, _⟩
  cases front <;> cases whole

/-! ## Projections -/

namespace Projection

/-- The column of an answer that shows a column of the table under a header. -/
def ofShown (p : Column × String) : Projected :=
  ⟨p.2, p.1.position⟩

/-- An item at fault ends the list. -/
theorem ofItems_of_offends (offends : item.Offends d named e) (items : List SelectItem) :
    ofItems d named (item :: items) = .error e := by
  cases offends with
  | wildcard => rfl
  | expression value label other =>
    cases value with
    | column ref => exact absurd rfl (other ref)
    | literal value => rfl
    | binary op left right => rfl
  | repeated ref label again =>
    rw [ofItems, if_pos (List.contains_iff_mem.2 again)]
    rfl
  | unknown ref label new missing =>
    rw [ofItems, if_neg (new ∘ List.contains_iff_mem.1), Definition.column, missing]
    rfl

/-- A new column is shown before what the others show. -/
theorem ofItems_of_asked (asks : item.asked? d.schema = some p) (new : p.1.name ∉ named)
    (items : List SelectItem) :
    ofItems d named (item :: items) =
      ofItems d (p.1.name :: named) items >>= fun rest => .ok (ofShown p :: rest) := by
  unfold SelectItem.asked? at asks
  split at asks
  · next ref label =>
    obtain ⟨column, known, rfl⟩ := Option.map_eq_some_iff.1 asks
    obtain ⟨table, name⟩ := ref
    obtain rfl : column.name = name := Schema.name_of_column? known
    rw [ofItems, if_neg (new ∘ List.contains_iff_mem.1), Definition.column, known]
    rfl
  · cases asks

/-- A list is accepted just if it names columns, and then shows them. -/
theorem ofItems_eq_ok {columns : List Projected} : ofItems d named items = .ok columns ↔
    ∃ shown, d.schema.Names named items shown ∧ columns = shown.map ofShown := by
  induction items generalizing named columns with
  | nil =>
    constructor
    · intro made
      cases made
      exact ⟨[], .nil, rfl⟩
    · rintro ⟨shown, names, rfl⟩
      obtain rfl : shown = [] := List.map_eq_nil_iff.1 names.asked.symm
      rfl
  | cons item items ih =>
    rcases item.offends_or_asked d named with ⟨e, offends⟩ | ⟨p, asks, new⟩
    · rw [ofItems_of_offends offends]
      refine iff_of_false nofun ?_
      rintro ⟨shown, names, -⟩
      obtain ⟨p, rest, -, asks, new, -⟩ := Schema.names_cons.1 names
      exact new (offends.mem_named asks)
    · rw [ofItems_of_asked asks new, Result.bind_eq_ok]
      constructor
      · rintro ⟨columns', others, made⟩
        cases made
        obtain ⟨rest, names, rfl⟩ := ih.1 others
        exact ⟨p :: rest, Schema.names_cons.2 ⟨p, rest, rfl, asks, new, names⟩, rfl⟩
      · rintro ⟨shown, names, rfl⟩
        obtain ⟨q, rest, rfl, asks', -, names⟩ := Schema.names_cons.1 names
        obtain rfl : p = q := Option.some.inj (asks.symm.trans asks')
        exact ⟨_, ih.2 ⟨rest, names, rfl⟩, rfl⟩

/-- A list is refused for its first item at fault. -/
theorem ofItems_eq_error : ofItems d named items = .error e ↔ d.FirstOffends named items e := by
  induction items generalizing named with
  | nil => exact iff_of_false nofun not_firstOffends_nil
  | cons item items ih =>
    rw [firstOffends_cons]
    rcases item.offends_or_asked d named with ⟨e', offends⟩ | ⟨p, asks, new⟩
    · constructor
      · intro refused
        obtain rfl : e' = e :=
          Except.error.inj ((ofItems_of_offends offends items).symm.trans refused)
        exact .inl offends
      · rintro (offends' | ⟨p, asks, new, -⟩)
        · exact ofItems_of_offends offends' items
        · exact absurd (offends.mem_named asks) new
    · rw [ofItems_of_asked asks new, Result.bind_eq_error, ih]
      constructor
      · rintro (later | ⟨rest, -, never⟩)
        · exact .inr ⟨p, asks, new, later⟩
        · cases never
      · rintro (offends | ⟨q, asks', -, later⟩)
        · exact absurd (offends.mem_named asks) new
        · obtain rfl : p = q := Option.some.inj (asks.symm.trans asks')
          exact .inl later

/-- The lone wildcard shows all columns. -/
theorem wildcard_eq {s : Schema} (proper : s.Proper) :
    wildcard s = (s.columns.map fun c => (c, c.name)).map ofShown := by
  rw [wildcard, List.map_map]
  apply List.ext_getElem?
  intro i
  rw [List.getElem?_mapIdx, List.getElem?_map]
  cases place : s.columns[i]? with
  | none => rfl
  | some c => rw [Option.map_some, Option.map_some, Function.comp, ofShown, proper.positioned place]

/-- The columns of a select list are those that it shows. -/
theorem ofList_eq_ok (proper : d.schema.Proper) {columns : List Projected} :
    ofList d items = .ok columns ↔
      ∃ shown, d.schema.Lists items shown ∧ columns = shown.map ofShown := by
  unfold ofList Schema.Lists
  split
  · rw [wildcard_eq proper]
    constructor
    · intro made
      cases made
      exact ⟨_, .inl ⟨rfl, rfl⟩, rfl⟩
    · rintro ⟨shown, ⟨-, rfl⟩ | names, rfl⟩
      · rfl
      · obtain ⟨_, _, -, asks, -⟩ := Schema.names_cons.1 names
        cases asks
  · next other =>
    rw [ofItems_eq_ok]
    refine exists_congr fun shown => and_congr_left fun _ => ?_
    exact (or_iff_right fun alone => other alone.1).symm

/-- The lone wildcard is accepted, and any other list is refused for its first item at fault. -/
theorem ofList_eq_error : ofList d items = .error e ↔
    items ≠ [.wildcard] ∧ d.FirstOffends [] items e := by
  unfold ofList
  split
  · exact iff_of_false nofun fun h => h.1 rfl
  · next other => rw [ofItems_eq_error, and_iff_right other]

end Projection

end FlatDB
