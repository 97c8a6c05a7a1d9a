/-
# Looking records up by their ids

A lookup reads less of a data file than a scan does: of a line that is not asked for
only the id, and nothing after the last record that there can be.  It answers the same
nevertheless.  If every line is a record's and no id occurs twice, it finds the records
of a scan that have the given ids, in storage order.  And whatever is in the file, an
error of a lookup is among the entries of a scan, with the same line and the same reason:
a lookup may miss damage, but it reports none that is not there.
-/

import FlatDB.Proofs.Record.Mishaps
import Mathlib.Data.List.Basic

namespace FlatDB

namespace Record

variable {arity : Nat} {line : String} {id : RecordId} {r : Record}

/-! ## The id of a line -/

theorem idOfLine_of_ofLine (h : ofLine line = .ok (id, r)) : idOfLine line = .ok id := by
  obtain ⟨found, parsed, h⟩ := Result.bind_eq_ok.1 h
  obtain ⟨fields, -, h⟩ := Result.bind_eq_ok.1 h
  cases h
  exact parsed

/-- The id of a line is that of the record on it. -/
theorem idOfLine_of_ofLineWithArity (h : ofLineWithArity arity line = .ok (id, r)) :
    idOfLine line = .ok id :=
  idOfLine_of_ofLine (ofLineWithArity_eq_ok.1 h).1

/-- A line without an id is damaged for this very reason. -/
theorem ofLineWithArity_of_idOfLine {damage : RecordDamage} (h : idOfLine line = .error damage) :
    ofLineWithArity arity line = .error damage := by
  have parsed : parseId ((Split.pieces '\t' line.toList).headD []) = .error damage := h
  rw [ofLineWithArity, ofLine, parsed]
  rfl

end Record

namespace Entries

/-- Whether a line is empty or that of a record. -/
def isLegible (arity : Nat) : Except Fault String → Bool
  | .ok line => line.isEmpty || (Record.ofLineWithArity arity line).isOk
  | .error _ => false

variable {table : String} {arity number missing : Nat} {ids : IdSet}
  {lines : List (Except Fault String)} {stored : List Stored}

theorem atLine_ofLineWithArity_of_idOfLine {line : String} {e : Error}
    (h : atLine table number (Record.idOfLine line) = .error e) :
    atLine table number (Record.ofLineWithArity arity line) = .error e := by
  cases parsed : Record.idOfLine line with
  | ok id =>
      rw [parsed] at h
      cases h
  | error damage =>
      rw [parsed] at h
      cases h
      rw [Record.ofLineWithArity_of_idOfLine parsed, atLine]

/-- A scan of legible lines finds records only. -/
theorem exists_stored_of_isLegible (legible : ∀ line ∈ lines, isLegible arity line)
    (table : String) (number : Nat) :
    ∃ stored : List Stored, ofLines table arity number lines = stored.map .ok := by
  induction lines generalizing number with
  | nil => exact ⟨[], rfl⟩
  | cons line lines ih =>
      obtain ⟨first, later⟩ := List.forall_mem_cons.1 legible
      obtain ⟨stored, read⟩ := ih later (number + 1)
      cases line with
      | error fault => cases first
      | ok line =>
          rw [ofLines, read]
          split
          · exact ⟨stored, rfl⟩
          · next filled =>
            rw [isLegible, Bool.or_eq_true, or_iff_right filled] at first
            cases parsed : Record.ofLineWithArity arity line with
            | ok r => exact ⟨r :: stored, rfl⟩
            | error damage =>
                rw [parsed] at first
                cases first

/-! ## What a lookup finds -/

/-- Where a scan finds records only, and at most as many with the given ids as are looked
for, all of them are found. -/
theorem find_of_ofLines (read : ofLines table arity number lines = stored.map .ok)
    (enough : (stored.filter fun s => s.1 ∈ ids).length ≤ missing) :
    find table arity ids missing number lines = .ok (stored.filter fun s => s.1 ∈ ids) := by
  induction lines generalizing stored number missing with
  | nil =>
      obtain rfl : stored = [] := List.map_eq_nil_iff.1 read.symm
      rfl
  | cons line lines ih =>
      cases line with
      | error fault =>
          cases stored <;> cases read
      | ok line =>
          rw [ofLines] at read
          rw [find]
          split at read
          · next blank =>
            rw [if_pos blank]
            exact ih read enough
          · next filled =>
            obtain ⟨⟨id, r⟩, later, rfl, first, rest⟩ := List.map_eq_cons_iff.1 read.symm
            have parsed := atLine_eq_ok first.symm
            rw [if_neg filled, Record.idOfLine_of_ofLineWithArity parsed, parsed]
            simp only [atLine, Result.ok_bind]
            by_cases wanted : id ∈ ids
            · rw [List.filter_cons_of_pos (by simpa using wanted)] at enough ⊢
              rw [List.length_cons] at enough
              rw [if_pos wanted]
              by_cases last : missing ≤ 1
              · have none : later.filter (fun s => s.1 ∈ ids) = [] :=
                  List.eq_nil_of_length_eq_zero (by omega)
                rw [if_pos last, none, Result.pure_eq_ok]
              · rw [if_neg last, ih rest.symm (by omega)]
                rfl
            · rw [List.filter_cons_of_neg (by simpa using wanted)] at enough ⊢
              rw [if_neg wanted]
              exact ih rest.symm enough

/-- Records with different ids are no more than the ids they are looked up by. -/
theorem length_filter_mem_le {stored : List Stored} (distinct : (stored.map Prod.fst).Nodup)
    (ids : IdSet) : (stored.filter fun s => s.1 ∈ ids).length ≤ ids.size := by
  have found : ((stored.filter fun s => s.1 ∈ ids).map Prod.fst).Nodup :=
    distinct.sublist ((List.filter_sublist).map Prod.fst)
  rw [← Std.ExtTreeSet.length_toList, ← List.length_map (f := Prod.fst)]
  apply found.length_le_of_subset
  intro id mem
  obtain ⟨s, hs, rfl⟩ := List.mem_map.1 mem
  simpa using (List.mem_filter.1 hs).2

theorem find_of_ofSource {source : Source} (read : ofSource table arity source = stored.map .ok)
    (distinct : (stored.map Prod.fst).Nodup) (ids : IdSet) :
    find table arity ids ids.size 1 source.lines = .ok (stored.filter fun s => s.1 ∈ ids) :=
  find_of_ofLines read (length_filter_mem_le distinct ids)

/-- What a lookup stumbles over is what a scan reports there. -/
theorem mem_ofLines_of_find {e : Error} (h : find table arity ids missing number lines = .error e) :
    .error e ∈ ofLines table arity number lines := by
  induction lines generalizing number missing with
  | nil => cases h
  | cons line lines ih =>
      cases line with
      | error fault =>
          cases h
          exact List.mem_cons_self
      | ok line =>
          rw [find] at h
          rw [ofLines]
          split at h
          · next blank =>
            rw [if_pos blank]
            exact ih h
          · next filled =>
            rw [if_neg filled]
            rcases Result.bind_eq_error.1 h with torn | ⟨id, -, h⟩
            · rw [atLine_ofLineWithArity_of_idOfLine torn]
              exact List.mem_cons_self
            split at h
            · rcases Result.bind_eq_error.1 h with torn | ⟨r, -, h⟩
              · rw [torn]
                exact List.mem_cons_self
              split at h
              · cases h
              · rcases Result.bind_eq_error.1 h with later | ⟨rest, -, impossible⟩
                · exact List.mem_cons_of_mem _ (ih later)
                · cases impossible
            · exact List.mem_cons_of_mem _ (ih h)

end Entries

namespace RecordFile

variable {d : Disk} {s : RecordFile} {source : Source} {stored : List Stored} {ids : IdSet}

/-! ## Lookups and scans of a file -/

theorem perform_fetch_of_read (read : d.perform (Action.read s.data) = (.ok source, d))
    (filled : ids.isEmpty = false) : d.perform (s.fetch ids) =
      (Entries.find s.table s.arity ids ids.size 1 source.lines, d) := by
  rw [fetch, if_neg (by simp [filled]), Disk.perform_bind, read]
  rfl

/-- A lookup finds the records with the given ids. -/
theorem perform_fetch (read : d.perform (Action.read s.data) = (.ok source, d))
    (scanned : Entries.ofSource s.table s.arity source = stored.map .ok)
    (distinct : (stored.map Prod.fst).Nodup) (ids : IdSet) :
    d.perform (s.fetch ids) = (.ok (stored.filter fun r => r.1 ∈ ids), d) := by
  cases empty : ids.isEmpty with
  | true =>
      have none : stored.filter (fun r => r.1 ∈ ids) = [] := by
        simp [Std.ExtTreeSet.isEmpty_iff.1 empty]
      rw [fetch, if_pos empty, none, Disk.perform_pure]
  | false =>
      rw [perform_fetch_of_read read empty, Entries.find_of_ofSource scanned distinct]

/-- Whatever a data file holds, a lookup agrees with a scan of it.  If all its lines are
those of records with different ids, it finds the records of the scan that have one of the
given ids; and whatever it fails with is among the entries of the scan. -/
theorem fetch_agrees_with_scan (read : (d.step (.read s.data)).1 = .ok source) (ids : IdSet) :
    ∃ entries, d.perform s.scan = (.ok entries, d) ∧
      ((∀ line ∈ source.lines, Entries.isLegible s.arity line) →
        ∃ stored : List Stored, entries = stored.map .ok ∧
          ((stored.map Prod.fst).Nodup →
            d.perform (s.fetch ids) = (.ok (stored.filter fun r => r.1 ∈ ids), d))) ∧
      ∀ e, (d.perform (s.fetch ids)).1 = .error e → .error e ∈ entries := by
  have opened := Disk.perform_read read
  refine ⟨Entries.ofSource s.table s.arity source, perform_scan_eq read, fun legible => ?_,
    fun e failed => ?_⟩
  · obtain ⟨stored, scanned⟩ := Entries.exists_stored_of_isLegible legible s.table 1
    exact ⟨stored, scanned, fun distinct => perform_fetch opened scanned distinct ids⟩
  · cases empty : ids.isEmpty with
    | true =>
        rw [fetch, if_pos empty] at failed
        cases failed
    | false =>
        rw [perform_fetch_of_read opened empty] at failed
        exact Entries.mem_ofLines_of_find failed

/-- Letters with a blank line between them, one that ends in a carriage return, and ids that
are not written as they would be. -/
def spaced : Disk :=
  ⟨FileTree.empty.put ["data"] (.file (Utf8.encode "+7\ta\n\n03\tb\r\n\r\n1\tc")), []⟩

theorem fetch_agrees_with_scan_spaced :
    let s : RecordFile := ⟨"letters", ⟨"data"⟩, ⟨"counter"⟩, 1, 7, true⟩
    let ids : IdSet := .ofList [9, 1, 7] _
    let source := Source.content (Utf8.encode "+7\ta\n\n03\tb\r\n\r\n1\tc")
    (spaced.step (.read s.data)).1 = .ok source ∧
      spaced.perform s.scan = (.ok [.ok (7, ⟨["a"]⟩), .ok (3, ⟨["b"]⟩), .ok (1, ⟨["c"]⟩)], spaced) ∧
      spaced.perform (s.fetch ids) = (.ok [(7, ⟨["a"]⟩), (1, ⟨["c"]⟩)], spaced) := by
  intro s ids source
  have read : (spaced.step (.read s.data)).1 = .ok source := by decide +kernel
  have found : (spaced.perform s.scan).1 =
      .ok [.ok (7, ⟨["a"]⟩), .ok (3, ⟨["b"]⟩), .ok (1, ⟨["c"]⟩)] := by decide +kernel
  have legible : ∀ line ∈ source.lines, Entries.isLegible s.arity line := by decide +kernel
  obtain ⟨_, scanned, agrees, -⟩ := fetch_agrees_with_scan read ids
  obtain ⟨stored, rfl, fetched⟩ := agrees legible
  rw [scanned] at found
  obtain rfl : stored = [(7, ⟨["a"]⟩), (3, ⟨["b"]⟩), (1, ⟨["c"]⟩)] :=
    List.map_injective_iff.2 (fun _ _ => Except.ok.inj) (Except.ok.inj found)
  refine ⟨read, scanned, ?_⟩
  rw [fetched (by decide)]
  simp [ids]

end RecordFile

end FlatDB
