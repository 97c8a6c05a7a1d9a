/-
# Listing the tables of a catalog

The names that are found in the storage root are those of the catalog: every
table has a directory with a header in it, and there is nothing else.  Sorting
the names as texts puts them in the catalog's own order, which is the order of their
bytes.
-/

import FlatDB.Proofs.Session.Catalog
import FlatDB.Proofs.Text.Order
import FlatDB.Session

namespace FlatDB

/-! ## Names in a directory -/

namespace FileTree

/-- An entry as seen from a directory that it is directly in. -/
def childOf? (directory : Place) (entry : Place × Entry) : Option (String × Entry) :=
  match entry.1 with
  | name :: parent => if parent = directory then some (name, entry.2) else none
  | [] => none

theorem childOf?_eq_some {directory : Place} {entry : Place × Entry} {child : String × Entry} :
    childOf? directory entry = some child ↔ entry = (child.1 :: directory, child.2) := by
  obtain ⟨place, e⟩ := entry
  obtain ⟨name, e'⟩ := child
  cases place with
  | nil => simp [childOf?]
  | cons other parent =>
      by_cases inside : parent = directory
      · simp [childOf?, inside]
      · simp [childOf?, inside]

theorem children_eq (t : FileTree) (directory : Place) :
    t.children directory = t.entries.toList.filterMap (childOf? directory) := rfl

/-- What is directly in a directory. -/
theorem mem_children {t : FileTree} {directory : Place} {name : String} {entry : Entry} :
    (name, entry) ∈ t.children directory ↔ t.at? (name :: directory) = some entry := by
  rw [children_eq, List.mem_filterMap, at?_of_ne_nil (by simp),
    ← Std.ExtTreeMap.mem_toList_iff_getElem?_eq_some]
  constructor
  · rintro ⟨found, mem, seen⟩
    rwa [childOf?_eq_some.1 seen] at mem
  · intro mem
    exact ⟨_, mem, childOf?_eq_some.2 rfl⟩

/-- No name occurs twice in a directory. -/
theorem nodup_children (t : FileTree) (directory : Place) :
    ((t.children directory).map Prod.fst).Nodup := by
  rw [children_eq, List.nodup_iff_pairwise_ne, List.pairwise_map, List.pairwise_filterMap]
  apply Std.ExtTreeMap.distinct_keys_toList.imp
  intro a b distinct child seen child' seen' same
  apply distinct
  rw [childOf?_eq_some.1 seen, childOf?_eq_some.1 seen', same]
  exact Std.ReflCmp.compare_self

/-- The order of names in a catalog is the order of texts. -/
theorem le_of_compare_eq_lt {a b : String} (h : compare a b = .lt) : a ≤ b := by
  have less : a < b := lt_of_compare_eq_lt h
  rcases String.le_total a b with le | ge
  · exact le
  · exact absurd less (String.not_lt.2 ge)

variable {t₀ t : FileTree} {root : Path} {r : Place} {cat : Catalog}

namespace Depicts

/-- The names in the storage root are those of the tables. -/
theorem children_perm (h : t₀.Depicts root r cat t) :
    ((t.children r).map Prod.fst).Perm cat.keys := by
  apply (List.perm_ext_iff_of_nodup (nodup_children t r) Std.ExtTreeMap.nodup_keys).2
  intro name
  rw [Std.ExtTreeMap.mem_keys, Std.ExtTreeMap.mem_iff_isSome_getElem?]
  constructor
  · intro mem
    obtain ⟨⟨name, entry⟩, found, rfl⟩ := List.mem_map.1 mem
    have there := (h.tables name []).symm.trans (mem_children.1 found)
    cases known : cat[name]? with
    | none => simp [known] at there
    | some c => rfl
  · intro known
    obtain ⟨c, known⟩ := Option.isSome_iff_exists.1 known
    have there := h.tables name []
    rw [known] at there
    exact List.mem_map.2 ⟨(name, .directory), mem_children.2 there, rfl⟩

/-- Whatever is in the storage root is a table. -/
theorem runs_isTable (h : t₀.Depicts root r cat t) (empty : t₀.EmptyRoot root r)
    {name : String} {entry : Entry} (mem : (name, entry) ∈ t.children r) :
    (Session.isTable root (name, entry.kind)).Runs t (.ok true) t := by
  have there := (h.tables name []).symm.trans (mem_children.1 mem)
  cases known : cat[name]? with
  | none => simp [known] at there
  | some c =>
      have stores := h.stores empty known
      obtain ⟨named, proper, -, -⟩ := h.sound name c known
      have directory : entry = .directory := by
        rw [known] at there
        exact (Option.some.inj there).symm
      have plain : name.toList.head? ≠ some '.' := by
        intro dot
        have valid : Identifier.isValid c.name = true := proper.definition.name
        rw [named] at valid
        exact Identifier.not_mem_of_isValid valid (by decide) (List.mem_of_mem_head? dot)
      have written : c.files.at? ["metadata.dat"] = some (.file c.files.header) := rfl
      have header := stores.houses.runs_kind_file fileName_header written
      rw [named] at header
      rw [Session.isTable]
      rw [directory, if_neg (by simpa [Entry.kind] using plain)]
      exact .bind header (.pure _ t)

/-- The names of all tables, in order. -/
theorem runs_tableNames (h : t₀.Depicts root r cat t) (empty : t₀.EmptyRoot root r) {s : Session}
    (atRoot : s.root = root) : s.tableNames.Runs t (.ok cat.keys) t := by
  have sorted : ((t.children r).map Prod.fst).mergeSort (fun a b => decide (a ≤ b)) = cat.keys := by
    refine List.Perm.eq_of_pairwise (fun a b _ _ => String.le_antisymm) ?_ ?_
      ((List.mergeSort_perm _ _).trans h.children_perm)
    · refine (List.pairwise_mergeSort ?_ ?_ _).imp of_decide_eq_true
      · intro a b c hab hbc
        exact decide_eq_true (String.le_trans (of_decide_eq_true hab) (of_decide_eq_true hbc))
      · intro a b
        simpa using String.le_total a b
    · exact Std.ExtTreeMap.ordered_keys.imp le_of_compare_eq_lt
  have names : (((t.children r).map fun child => (child.1, child.2.kind)).filter fun _ => true).map
      Prod.fst = (t.children r).map Prod.fst := by
    rw [List.filter_true, List.map_map]
    rfl
  have tested : ∀ child ∈ (t.children r).map fun child => (child.1, child.2.kind),
      (Session.isTable root child).Runs t (.ok ((fun _ => true) child)) t := by
    intro child mem
    obtain ⟨found, inside, rfl⟩ := List.mem_map.1 mem
    exact h.runs_isTable empty inside
  rw [Session.tableNames]
  rw [atRoot]
  apply Action.Runs.bind (h.leads empty).runs_list
  apply Action.Runs.bind (Action.Runs.filterM tested)
  rw [names, sorted]
  exact .pure _ t

end Depicts

end FileTree

/-- The names in a catalog come in the order of their bytes. -/
theorem Catalog.keys_ascend (cat : Catalog) :
    cat.keys.Pairwise fun a b => Utf8.encode a < Utf8.encode b :=
  Std.ExtTreeMap.ordered_keys.imp fun before => Utf8.encode_lt_of_lt (lt_of_compare_eq_lt before)

end FlatDB
