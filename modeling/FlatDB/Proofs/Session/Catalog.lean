/-
# Catalogs

A catalog is what a storage root holds, as a map from names to the contents of
tables.  A tree depicts a catalog if it has below the root the files of the
catalog's tables and nothing else, and everywhere else what it had before there
were any tables.  So a catalog and the tree before it determine every file.
-/

import FlatDB.Proofs.Table.Making

namespace FlatDB

/-- The contents of all tables by name. -/
abbrev Catalog := Std.ExtTreeMap String Contents

/-- What holds of every table under a storage root. -/
structure Contents.Belongs (root : Path) (name : String) (c : Contents) : Prop where
  /-- It is known by its own name. -/
  named : c.name = name
  proper : c.Proper
  /-- Its paths are short enough. -/
  room : root.RoomFor name
  rooms : ∀ column ∈ c.indexed, root.RoomForIndex name column.name

/-- A catalog of tables that can be under a storage root. -/
def Catalog.Sound (root : Path) (cat : Catalog) : Prop :=
  ∀ (name : String) (c : Contents), cat[name]? = some c → c.Belongs root name

theorem Catalog.sound_empty (root : Path) : Catalog.Sound root ∅ := by
  intro name c known
  simp at known

theorem Catalog.Sound.insert {root : Path} {cat : Catalog} (h : cat.Sound root) {name : String}
    {c : Contents} (belongs : c.Belongs root name) : Catalog.Sound root (cat.insert name c) := by
  intro other c' known
  rw [Std.ExtTreeMap.getElem?_insert] at known
  split at known
  · next same =>
    cases known
    rwa [← Std.LawfulEqCmp.eq_of_compare same]
  · exact h other c' known

theorem Catalog.Sound.erase {root : Path} {cat : Catalog} (h : cat.Sound root) (name : String) :
    Catalog.Sound root (cat.erase name) := by
  intro other c known
  rw [Std.ExtTreeMap.getElem?_erase] at known
  split at known
  · cases known
  · exact h other c known

namespace FileTree

/-- A storage root with nothing in it. -/
structure EmptyRoot (t : FileTree) (root : Path) (r : Place) : Prop where
  leads : t.Leads root r
  empty : ∀ name, t.Vacant (name :: r)

/-- A tree whose storage root holds the tables of a catalog, and which is otherwise what it
was when the root was empty. -/
structure Depicts (t₀ : FileTree) (root : Path) (r : Place) (cat : Catalog) (t : FileTree) :
    Prop where
  sound : cat.Sound root
  here : t.here = t₀.here
  outside : ∀ p, (∀ name, below? (name :: r) p = none) → t.at? p = t₀.at? p
  tables : ∀ name inner, t.at? (inner ++ name :: r) = cat[name]?.bind fun c => c.files.at? inner

variable {t₀ t t' : FileTree} {root : Path} {r : Place} {cat : Catalog} {name : String}
  {c : Contents}

theorem EmptyRoot.depicts (h : t₀.EmptyRoot root r) : t₀.Depicts root r ∅ t₀ := by
  refine ⟨Catalog.sound_empty root, rfl, fun _ _ => rfl, fun name inner => ?_⟩
  rw [h.empty name inner]
  simp

/-- The way to the root does not lead through what is in it. -/
theorem EmptyRoot.leads_of_outside (h : t₀.EmptyRoot root r) (here : t.here = t₀.here)
    (outside : ∀ p, (∀ name, below? (name :: r) p = none) → t.at? p = t₀.at? p) :
    t.Leads root r := by
  refine h.leads.mono ⟨here, fun p directory => ?_⟩
  rw [outside p, directory]
  intro name
  cases below : below? (name :: r) p with
  | none => rfl
  | some rest =>
      rw [below?_eq_some_iff.1 below, h.empty name rest] at directory
      cases directory

namespace Depicts

/-- A catalog determines the tree. -/
theorem at?_eq (h : t₀.Depicts root r cat t) (h' : t₀.Depicts root r cat t') (p : Place) :
    t'.at? p = t.at? p := by
  by_cases away : ∀ name, below? (name :: r) p = none
  · rw [h.outside p away, h'.outside p away]
  · obtain ⟨name, within⟩ := not_forall.1 away
    obtain ⟨rest, below⟩ := Option.ne_none_iff_exists'.1 within
    rw [below?_eq_some_iff.1 below, h.tables, h'.tables]

theorem leads (h : t₀.Depicts root r cat t) (empty : t₀.EmptyRoot root r) : t.Leads root r :=
  empty.leads_of_outside h.here h.outside

/-- Every table of the catalog is stored. -/
theorem stores (h : t₀.Depicts root r cat t) (empty : t₀.EmptyRoot root r)
    (known : cat[name]? = some c) : t.Stores root r c := by
  obtain ⟨rfl, proper, room, rooms⟩ := h.sound name c known
  refine ⟨proper, ⟨h.leads empty, isStep_of_isValid proper.definition.name, room, fun inner => ?_⟩,
    rooms⟩
  rw [h.tables c.name inner, known]
  rfl

/-- There is nothing in the place of another table. -/
theorem vacant (h : t₀.Depicts root r cat t) (absent : cat[name]? = none) :
    t.Vacant (name :: r) := by
  intro inner
  rw [h.tables name inner, absent]
  rfl

/-- A hidden directory is no table. -/
theorem vacant_staging (h : t₀.Depicts root r cat t) (other : String) :
    t.Vacant (stagingName other :: r) := by
  apply h.vacant
  cases known : cat[stagingName other]? with
  | none => rfl
  | some c =>
      obtain ⟨named, proper, -, -⟩ := h.sound _ c known
      exact absurd named.symm (stagingName_ne proper.definition.name other)

/-- A tree with the same everywhere depicts the same. -/
theorem same (h : t₀.Depicts root r cat t) (same : t.Same t') : t₀.Depicts root r cat t' :=
  ⟨h.sound, same.here.trans h.here, fun p away => (same.places p).trans (h.outside p away),
    fun name inner => (same.places _).trans (h.tables name inner)⟩

/-- What is done to one table is done to its contents in the catalog. -/
theorem insert (h : t₀.Depicts root r cat t) (turns : t.Turns root r c t') :
    t₀.Depicts root r (cat.insert c.name c) t' := by
  refine ⟨h.sound.insert ⟨rfl, turns.stores.proper, turns.stores.houses.room, turns.stores.rooms⟩,
    turns.same.here.trans h.here, fun p away => ?_, fun name inner => ?_⟩
  · rw [turns.same.outside p (away c.name), h.outside p away]
  · rw [Std.ExtTreeMap.getElem?_insert]
    by_cases same : c.name = name
    · subst same
      rw [turns.stores.houses.holds inner, if_pos Std.ReflCmp.compare_self]
      rfl
    · rw [turns.same.outside _ (below?_append_cons_of_ne (Ne.symm same) inner r),
        h.tables name inner,
        if_neg fun e => same (Std.LawfulEqCmp.eq_of_compare e)]

/-- A table of which nothing is left is no longer in the catalog. -/
theorem erase (h : t₀.Depicts root r cat t) (name : String) (same : SameOutside (name :: r) t t')
    (gone : t'.Vacant (name :: r)) : t₀.Depicts root r (cat.erase name) t' := by
  refine ⟨h.sound.erase name, same.here.trans h.here, fun p away => ?_, fun other inner => ?_⟩
  · rw [same.outside p (away name), h.outside p away]
  · rw [Std.ExtTreeMap.getElem?_erase]
    by_cases this : name = other
    · subst this
      rw [gone inner, if_pos Std.ReflCmp.compare_self]
      rfl
    · rw [same.outside _ (below?_append_cons_of_ne (Ne.symm this) inner r), h.tables other inner,
        if_neg fun e => this (Std.LawfulEqCmp.eq_of_compare e)]

end Depicts

end FileTree

end FlatDB
