/-
# Trees after changes

What is where after something was put, removed or moved.  A tree is determined
by what is at each place, apart from what it may hold in vain for the outermost
directory; the equations here are therefore about entries, and those about
places follow.
-/

import FlatDB.Disk.Run

namespace FlatDB

namespace FileTree

variable {t : FileTree}

/-- Two trees with the same entries are the same. -/
theorem ext_of_entries {t t' : FileTree} (here : t.here = t'.here)
    (entries : ∀ place : Place, t.entries[place]? = t'.entries[place]?) : t = t' := by
  obtain ⟨e, h⟩ := t
  obtain ⟨e', h'⟩ := t'
  have same : e = e' := Std.ExtTreeMap.ext_getElem? fun {place} => entries place
  cases here
  rw [same]

theorem at?_of_ne_nil {place : Place} (ne : place ≠ []) : t.at? place = t.entries[place]? :=
  if_neg ne

theorem getElem?_put (place : Place) (entry : Entry) (p : Place) :
    (t.put place entry).entries[p]? = if p = place then some entry else t.entries[p]? := by
  by_cases here : p = place
  · simp [put, here]
  · simp [put, here, Std.ExtTreeMap.getElem?_insert, Ne.symm here]

/-- Only the last thing put at a place counts. -/
@[simp]
theorem put_put (place : Place) (first second : Entry) :
    (t.put place first).put place second = t.put place second := by
  refine ext_of_entries rfl fun p => ?_
  rw [getElem?_put, getElem?_put, getElem?_put]
  split <;> rfl

/-! ## Below a place -/

theorem below?_append (rest directory : Place) : below? directory (rest ++ directory) = some rest :=
  below?_eq_some_iff.2 rfl

theorem below?_self (place : Place) : below? place place = some [] :=
  below?_append [] place

theorem ne_of_below?_eq_none {p q : Place} (h : below? q p = none) : p ≠ q := by
  rintro rfl
  rw [below?_self] at h
  cases h

/-- A place in one of two directories is not in the other. -/
theorem below?_append_cons_of_ne {name other : String} (ne : other ≠ name) (inner r : Place) :
    below? (name :: r) (inner ++ other :: r) = none := by
  cases below : below? (name :: r) (inner ++ other :: r) with
  | none => rfl
  | some rest =>
      have same : (inner ++ [other]) ++ r = (rest ++ [name]) ++ r := by
        simpa using below?_eq_some_iff.1 below
      have last := congrArg List.getLast? (List.append_cancel_right same)
      rw [List.getLast?_concat, List.getLast?_concat] at last
      exact absurd (Option.some.inj last) ne

/-- What is below a place is at least as deep. -/
theorem below?_of_length_lt {p q : Place} (shorter : q.length < p.length) : below? p q = none := by
  cases below : below? p q with
  | none => rfl
  | some rest =>
      have length := congrArg List.length (below?_eq_some_iff.1 below)
      rw [List.length_append] at length
      omega

/-- Of two different places at one depth neither is below the other. -/
theorem below?_of_length_eq {p q : Place} (length : p.length = q.length) (ne : p ≠ q) :
    below? p q = none := by
  cases below : below? p q with
  | none => rfl
  | some rest =>
      have split := below?_eq_some_iff.1 below
      have empty : rest = [] := by
        apply List.eq_nil_of_length_eq_zero
        rw [split, List.length_append] at length
        omega
      exact absurd (by rw [split, empty]; rfl) ne

theorem below?_nil {place : Place} (ne : place ≠ []) : below? place [] = none := by
  cases below : below? place [] with
  | none => rfl
  | some rest =>
      exact absurd (List.append_eq_nil_iff.1 (below?_eq_some_iff.1 below).symm).2 ne

/-- Whether there is nothing in what is at a place. -/
def Childless (t : FileTree) (place : Place) : Prop :=
  ∀ inner, inner ≠ [] → t.at? (inner ++ place) = none

theorem Childless.getElem?_eq_none {place inner : Place} (h : t.Childless place)
    (hp : place ≠ []) (hi : inner ≠ []) : t.entries[inner ++ place]? = none := by
  rw [← at?_of_ne_nil (by simp [hp])]
  exact h inner hi

/-! ## Removing and moving -/

theorem getElem?_prune (place p : Place) :
    (t.prune place).entries[p]? = if (below? place p).isSome then none else t.entries[p]? := by
  cases below : below? place p with
  | none => cases found : t.entries[p]? <;> simp [prune, below, found]
  | some rest => cases found : t.entries[p]? <;> simp [prune, below, found]

/-- What a move puts below the target. -/
def movedEntries (t : FileTree) (source target : Place) : List (Place × Entry) :=
  t.entries.toList.filterMap fun x => (below? source x.1).map fun s => (s ++ target, x.2)

theorem entries_move (t : FileTree) (source target : Place) :
    (t.move source target).entries =
      ((t.prune source).prune target).entries.insertMany (t.movedEntries source target) := rfl

theorem mem_movedEntries {source target q : Place} {e : Entry} :
    (q, e) ∈ t.movedEntries source target ↔
      ∃ rest, q = rest ++ target ∧ t.entries[rest ++ source]? = some e := by
  rw [movedEntries, List.mem_filterMap]
  constructor
  · rintro ⟨⟨p, e'⟩, mem, found⟩
    obtain ⟨rest, below, same⟩ := Option.map_eq_some_iff.1 found
    cases same
    have place : p = rest ++ source := below?_eq_some_iff.1 below
    rw [place, Std.ExtTreeMap.mem_toList_iff_getElem?_eq_some] at mem
    exact ⟨rest, rfl, mem⟩
  · rintro ⟨rest, rfl, found⟩
    refine ⟨(rest ++ source, e), Std.ExtTreeMap.mem_toList_iff_getElem?_eq_some.2 found, ?_⟩
    simp only [below?_append, Option.map_some]

/-- No two entries come to be in one place. -/
theorem distinct_movedEntries (t : FileTree) (source target : Place) :
    (t.movedEntries source target).Pairwise fun a b => ¬ compare a.1 b.1 = .eq := by
  rw [movedEntries, List.pairwise_filterMap]
  apply t.entries.distinct_keys_toList.imp
  intro a a' differ b hb b' hb' same
  obtain ⟨rest, below, rfl⟩ := Option.map_eq_some_iff.1 hb
  obtain ⟨rest', below', rfl⟩ := Option.map_eq_some_iff.1 hb'
  have rests : rest = rest' :=
    List.append_cancel_right (Std.LawfulEqCmp.compare_eq_iff_eq.1 same)
  rw [below?_eq_some_iff.1 below, below?_eq_some_iff.1 below', rests] at differ
  exact differ Std.ReflCmp.compare_self

/-- Where nothing is moved to there is what the removals have left. -/
theorem getElem?_move_of_not_mem {source target p : Place}
    (none : ∀ e, (p, e) ∉ t.movedEntries source target) :
    (t.move source target).entries[p]? = ((t.prune source).prune target).entries[p]? := by
  rw [entries_move]
  apply Std.ExtTreeMap.getElem?_insertMany_list_of_contains_eq_false
  rw [Bool.eq_false_iff]
  intro contains
  obtain ⟨⟨q, e⟩, mem, here⟩ := List.mem_map.1 (List.contains_iff_mem.1 contains)
  exact none e (here ▸ mem)

/-- What is at or below the target was at or below the source, and is no longer there. -/
theorem getElem?_move (source target p : Place) :
    (t.move source target).entries[p]? =
      match below? target p with
      | some rest => t.entries[rest ++ source]?
      | none => if (below? source p).isSome then none else t.entries[p]? := by
  cases below : below? target p with
  | some rest =>
      have split := below?_eq_some_iff.1 below
      cases found : t.entries[rest ++ source]? with
      | some e =>
          rw [entries_move]
          simp only [found]
          exact Std.ExtTreeMap.getElem?_insertMany_list_of_mem Std.ReflCmp.compare_self
            (t.distinct_movedEntries source target) (mem_movedEntries.2 ⟨rest, split, found⟩)
      | none =>
          rw [getElem?_move_of_not_mem, getElem?_prune, below]
          · simp only [found]
            rfl
          · intro e mem
            obtain ⟨rest', split', found'⟩ := mem_movedEntries.1 mem
            have rests : rest' = rest := List.append_cancel_right (split'.symm.trans split)
            rw [rests, found] at found'
            cases found'
  | none =>
      rw [getElem?_move_of_not_mem, getElem?_prune, below, getElem?_prune]
      · rfl
      · intro e mem
        obtain ⟨rest, split, _⟩ := mem_movedEntries.1 mem
        rw [split, below?_append] at below
        cases below

/-- Moving a directory takes along all that is in it. -/
theorem at?_move (t : FileTree) {source target : Place} (hs : source ≠ []) (ht : target ≠ [])
    (p : Place) :
    (t.move source target).at? p =
      match below? target p with
      | some rest => t.at? (rest ++ source)
      | none => if (below? source p).isSome then none else t.at? p := by
  by_cases root : p = []
  · rw [root, below?_nil ht, below?_nil hs]
    rfl
  · rw [at?_of_ne_nil root, at?_of_ne_nil root, getElem?_move]
    have inside (rest : Place) : rest ++ source ≠ [] := by simp [hs]
    simp only [at?_of_ne_nil (inside _)]

/-- Writing a file beside another and moving it there is putting it there. -/
theorem move_put {source target : Place} (depth : source.length = target.length)
    (nonempty : target ≠ []) (absent : t.at? source = none)
    (sourceless : t.Childless source) (targetless : t.Childless target) (entry : Entry) :
    (t.put source entry).move source target = t.put target entry := by
  have hs : source ≠ [] := by
    intro e
    rw [e, List.length_nil] at depth
    exact nonempty (List.eq_nil_of_length_eq_zero depth.symm)
  have gone : t.entries[source]? = none := by
    rwa [at?_of_ne_nil hs] at absent
  have proper (inner place : Place) (hi : inner ≠ []) : inner ++ place ≠ place := by
    simp [hi]
  refine ext_of_entries rfl fun p => ?_
  rw [getElem?_move]
  cases below : below? target p with
  | some rest =>
      have split := below?_eq_some_iff.1 below
      by_cases here : rest = []
      · simp [getElem?_put, split, here]
      · simp only
        rw [split, getElem?_put, getElem?_put, if_neg (proper rest source here),
          if_neg (proper rest target here), sourceless.getElem?_eq_none hs here,
          targetless.getElem?_eq_none nonempty here]
  | none =>
      simp only
      rw [getElem?_put, getElem?_put, if_neg (ne_of_below?_eq_none below)]
      cases beside : below? source p with
      | some rest =>
          have split := below?_eq_some_iff.1 beside
          by_cases here : rest = []
          · rw [split, here, List.nil_append, gone]
            rfl
          · rw [split, sourceless.getElem?_eq_none hs here]
            rfl
      | none =>
          rw [if_neg (ne_of_below?_eq_none beside)]
          rfl

end FileTree

end FlatDB
