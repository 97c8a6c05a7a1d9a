/-
# Rewriting the records of a data file

An update and a deletion read all records, put others in place of all there are if that
makes a difference, and report what they have done.  So nothing is written before the
last line was read: a line that is not a record's is reported, and the file stays.  What
is written goes into a file beside it that takes its place at once, so the file stays too
if that file cannot be made, filled or moved.  If it can, the file then holds the old
records with what was to be changed, in the same order.

All that is asked of the file system is that what is reported not to have been moved has
not been moved.
-/

import FlatDB.Proofs.Disk.Staging
import FlatDB.Proofs.Record.Mishaps
import Mathlib.Data.List.Basic

namespace FlatDB

open FileTree

/-- A field that holds a text already can be set to it. -/
theorem Record.set_of_get? {r : Record} {position : Nat} {text : String}
    (h : r.get? position = some text) : r.set position text = r := by
  obtain ⟨inside, holds⟩ := List.getElem?_eq_some_iff.1 h
  rw [set, ← holds, List.set_getElem_self]

namespace Entries

variable {table : String} {arity number : Nat} {lines : List (Except Fault String)}
  {stored : List Stored} {accepts : Record → Bool} {position : Nat} {value : String}

/-! ## Changes of records -/

/-- The first error among entries is what reading all records fails with. -/
theorem all_append_error (front : List Stored) (e : Error) (rest : List (Except Error Stored)) :
    all (front.map .ok ++ .error e :: rest) = .error e := by
  induction front with
  | nil => rfl
  | cons s front ih => rw [List.map_cons, List.cons_append, all, ih]; rfl

/-- An update reports the accepted records, in storage order. -/
theorem filterMap_change? : stored.filterMap (change? accepts position value) =
    (stored.filter fun s => accepts s.2).map fun s =>
      ⟨s.1, (s.2.get? position).getD "", value⟩ := by
  induction stored with
  | nil => rfl
  | cons s stored ih =>
      by_cases accepted : accepts s.2 = true
      · have reported : change? accepts position value s =
            some ⟨s.1, (s.2.get? position).getD "", value⟩ := if_pos accepted
        rw [List.filterMap_cons_some reported, List.filter_cons, if_pos accepted, List.map_cons, ih]
      · have passed : change? accepts position value s = none := if_neg accepted
        rw [List.filterMap_cons_none passed, List.filter_cons, if_neg accepted, ih]

/-- An update makes a difference if an accepted record has another text. -/
theorem any_change?_iff (inside : ∀ s ∈ stored, position < s.2.arity) :
    ((stored.filterMap (change? accepts position value)).any fun c => c.old ≠ c.new) = true ↔
      ∃ s ∈ stored, accepts s.2 = true ∧ s.2.get? position ≠ some value := by
  rw [filterMap_change?, List.any_map, List.any_filter, List.any_eq_true]
  refine exists_congr fun s => and_congr_right fun mem => ?_
  obtain ⟨text, field⟩ : ∃ text, s.2.get? position = some text :=
    ⟨_, List.getElem?_eq_getElem (inside s mem)⟩
  simp [field]

/-- Otherwise it leaves all records as they are. -/
theorem map_assign_eq_self
    (same : ¬ ∃ s ∈ stored, accepts s.2 = true ∧ s.2.get? position ≠ some value) :
    stored.map (assign accepts position value) = stored := by
  refine List.map_congr_left (fun s mem => ?_) |>.trans stored.map_id
  rw [assign]
  split
  · next accepted =>
    have holds : s.2.get? position = some value :=
      Decidable.not_not.1 fun other => same ⟨s, mem, accepted, other⟩
    rw [Record.set_of_get? holds]
    rfl
  · rfl

end Entries

namespace RecordFile

variable {α : Type} {F : Tolerance} {d : Disk} {s : RecordFile} {content : Bytes}
  {outlooks : List Outlook} {stored : List Stored} {needed : List Stored → Bool}
  {change : List Stored → List Stored} {report : List Stored → α}

/-! ## Rewriting -/

/-- Read all records, put others in their place if need be, and report. -/
def rewrite (s : RecordFile) (needed : List Stored → Bool) (change : List Stored → List Stored)
    (report : List Stored → α) : Action α := do
  let stored ← s.records
  if needed stored then
    s.replaceAll (change stored)
  return report stored

theorem updateWhere_eq_rewrite (s : RecordFile) (accepts : Record → Bool) (position : Nat)
    (value : String) :
    s.updateWhere accepts position value =
      s.rewrite
        (fun stored => (stored.filterMap (Entries.change? accepts position value)).any
          fun c => c.old ≠ c.new)
        (List.map (Entries.assign accepts position value))
        (List.filterMap (Entries.change? accepts position value)) := rfl

theorem deleteWhere_eq_rewrite (s : RecordFile) (accepts : Record → Bool) :
    s.deleteWhere accepts =
      s.rewrite (fun stored => !(stored.filter fun r => accepts r.2).isEmpty)
        (List.filter fun r => !accepts r.2) (List.filter fun r => accepts r.2) := rfl

/-- What remains to be done once the file was read. -/
theorem performUnder_rewrite (read : (d.step (.read s.data)).1 = .ok (.content content))
    (readable : ∀ o ∈ outlooks.head?, o (.read s.data) = none) :
    d.performUnder outlooks (s.rewrite needed change report) =
      d.performUnder outlooks.tail (do
        let stored ← Action.ofResult
          (Entries.all (Entries.ofSource s.table s.arity (.content content)))
        if needed stored then
          s.replaceAll (change stored)
        return report stored) := by
  rw [rewrite, records, scan]
  simp only [bind_assoc, pure_bind]
  exact Disk.performUnder_read_bind read readable

/-- If a line is not a record's, nothing is done. -/
theorem performUnder_rewrite_of_error (read : (d.step (.read s.data)).1 = .ok (.content content))
    (readable : ∀ o ∈ outlooks.head?, o (.read s.data) = none) {e : Error}
    (failed : Entries.all (Entries.ofSource s.table s.arity (.content content)) = .error e) :
    d.performUnder outlooks (s.rewrite needed change report) = (.error e, d) := by
  rw [performUnder_rewrite read readable, failed]
  rfl

/-- Otherwise all records are replaced, if need be. -/
theorem performUnder_rewrite_of_ok (read : (d.step (.read s.data)).1 = .ok (.content content))
    (readable : ∀ o ∈ outlooks.head?, o (.read s.data) = none)
    (found : Entries.all (Entries.ofSource s.table s.arity (.content content)) = .ok stored) :
    d.performUnder outlooks (s.rewrite needed change report) =
      if needed stored then
        ((d.performUnder outlooks.tail (s.replaceAll (change stored))).1.map fun _ => report stored,
          (d.performUnder outlooks.tail (s.replaceAll (change stored))).2)
      else (.ok (report stored), d) := by
  rw [performUnder_rewrite read readable, found]
  show d.performUnder outlooks.tail (if needed stored then _ else _) = _
  split
  · exact Disk.performUnder_bind_pure _ _ _ _
  · rfl

/-- How a rewrite comes out that reports something and makes certain records of those there
are, if there is any need. -/
structure Rewrites (s : RecordFile) (d : Disk) (content : Bytes) (outlooks : List Outlook)
    (a : Action α) (report : α) (need : Prop) (after : List Stored) : Prop where
  /-- Where there is none, nothing at all is done. -/
  spared : ¬ need → d.performUnder outlooks a = (.ok report, d)
  /-- Otherwise it fails if the new file cannot be prepared or moved, and only then. -/
  outcome : need → (d.performUnder outlooks a).1 =
    (d.performUnder outlooks.tail (s.replaceAll after)).1.map fun _ => report
  /-- If it fails the data file holds what it held. -/
  failed : ∀ e, (d.performUnder outlooks a).1 = .error e →
    ((d.performUnder outlooks a).2.step (.read s.data)).1 = .ok (.content content)
  /-- If it does not, a scan finds these records. -/
  done : ∀ x, (d.performUnder outlooks a).1 = .ok x →
    (d.performUnder outlooks a).2.perform s.scan =
      (.ok (after.map .ok), (d.performUnder outlooks a).2)

/-- The data file holds the new records, or what it held. -/
theorem ensures_replaceAll_of_read (whole : NoLateMoves F) (sound : d.tree.IsSound)
    (read : (d.step (.read s.data)).1 = .ok (.content content)) (after : List Stored) :
    (s.replaceAll after).Ensures F
      (fun x d' => (d'.step (.read s.data)).1 = .ok (.content
        (match x with
        | .ok _ => Utf8.encode (Entries.text after)
        | .error _ => content))) d := by
  obtain ⟨target, look⟩ := step_read_iff.1 read
  apply (sound.ensures_replace whole look _ s.sync).mono
  intro x d' look'
  rw [step_read_iff]
  refine ⟨target, look'.trans ?_⟩
  cases x <;> rfl

theorem rewrites_of_stored (whole : NoLateMoves F) (within : ∀ o ∈ outlooks, o.Within F)
    (readable : ∀ o ∈ outlooks.head?, o (.read s.data) = none) (sound : d.tree.IsSound)
    (read : (d.step (.read s.data)).1 = .ok (.content content))
    (found : Entries.ofSource s.table s.arity (.content content) = stored.map .ok)
    (arity : ∀ r ∈ change stored, r.2.arity = s.arity)
    (spares : needed stored = false → change stored = stored) :
    s.Rewrites d content outlooks (s.rewrite needed change report) (report stored)
      (needed stored = true) (change stored) := by
  have all : Entries.all (Entries.ofSource s.table s.arity (.content content)) = .ok stored := by
    rw [found, Entries.all_map_ok]
  have performed : d.performUnder outlooks (s.rewrite needed change report) = _ :=
    performUnder_rewrite_of_ok read readable all
  have replaced := (ensures_replaceAll_of_read whole sound read (change stored)).performUnder
    fun o mem => within o (List.mem_of_mem_tail mem)
  cases need : needed stored with
  | false =>
      have spared : d.performUnder outlooks (s.rewrite needed change report) =
          (.ok (report stored), d) := performed.trans (if_neg (by simp [need]))
      refine ⟨fun _ => spared, nofun, fun e failed => ?_, fun x done => ?_⟩
      · rw [spared] at failed
        cases failed
      · rw [spared, perform_scan_eq read, found, spares need]
  | true =>
      replace performed := performed.trans (if_pos need)
      refine ⟨fun spare => absurd rfl spare, fun _ => by rw [performed], ?_, ?_⟩
      · intro e failed
        rw [performed] at failed ⊢
        cases made : (d.performUnder outlooks.tail (s.replaceAll (change stored))).1 with
        | ok _ =>
            rw [made] at failed
            cases failed
        | error _ =>
            rw [made] at replaced
            exact replaced
      · intro x done
        rw [performed] at done ⊢
        cases made : (d.performUnder outlooks.tail (s.replaceAll (change stored))).1 with
        | ok _ =>
            rw [made] at replaced
            rw [perform_scan_eq replaced, Entries.ofSource_text arity]
        | error _ =>
            rw [made] at done
            cases done

/-- Whatever a data file holds and whatever befalls the calls after it was read: if an entry
is an error, an update and a deletion fail with the first one and do nothing.  Otherwise they
report the accepted records, in storage order, and leave all records with the field set in
those or without them; or else the new file cannot be prepared or moved, and they fail and the
data file holds what it held.  If there is nothing to be changed, nothing is done at all. -/
theorem rewrites_all_or_nothing (whole : NoLateMoves F) (within : ∀ o ∈ outlooks, o.Within F)
    (readable : ∀ o ∈ outlooks.head?, o (.read s.data) = none) (sound : d.tree.IsSound)
    (read : (d.step (.read s.data)).1 = .ok (.content content)) (accepts : Record → Bool)
    {position : Nat} (inside : position < s.arity) (value : String) :
    ∃ entries, d.perform s.scan = (.ok entries, d) ∧
      (∀ front e rest, entries = List.map .ok front ++ .error e :: rest →
        d.performUnder outlooks (s.updateWhere accepts position value) = (.error e, d) ∧
        d.performUnder outlooks (s.deleteWhere accepts) = (.error e, d)) ∧
      ∀ stored : List Stored, entries = stored.map .ok →
        s.Rewrites d content outlooks (s.updateWhere accepts position value)
          ((stored.filter fun r => accepts r.2).map fun r =>
            ⟨r.1, (r.2.get? position).getD "", value⟩)
          (∃ r ∈ stored, accepts r.2 = true ∧ r.2.get? position ≠ some value)
          (stored.map fun r => if accepts r.2 then (r.1, r.2.set position value) else r) ∧
        s.Rewrites d content outlooks (s.deleteWhere accepts)
          (stored.filter fun r => accepts r.2) (∃ r ∈ stored, accepts r.2 = true)
          (stored.filter fun r => !accepts r.2) := by
  refine ⟨_, perform_scan_eq read, fun front e rest first => ?_, fun stored found => ?_⟩
  · have failed := Entries.all_append_error front e rest
    rw [← first] at failed
    rw [updateWhere_eq_rewrite, deleteWhere_eq_rewrite]
    exact ⟨performUnder_rewrite_of_error read readable failed,
      performUnder_rewrite_of_error read readable failed⟩
  · have arity (r : Stored) (mem : r ∈ stored) : r.2.arity = s.arity :=
      Entries.arity_of_mem_ofLines (found ▸ List.mem_map_of_mem mem)
    constructor
    · have inside' (r : Stored) (mem : r ∈ stored) : position < r.2.arity :=
        (arity r mem).symm ▸ inside
      have need : _ ↔ ∃ r ∈ stored, accepts r.2 = true ∧ r.2.get? position ≠ some value :=
        Entries.any_change?_iff inside'
      rw [updateWhere_eq_rewrite, ← Entries.filterMap_change?, ← need]
      apply rewrites_of_stored whole within readable sound read found
      · intro r mem
        obtain ⟨r', mem', rfl⟩ := List.mem_map.1 mem
        rw [Entries.assign]
        split <;> simp [arity r' mem']
      · intro same
        apply Entries.map_assign_eq_self
        intro differs
        exact Bool.false_ne_true (same.symm.trans (need.2 differs))
    · have need : (∃ r ∈ stored, accepts r.2 = true) ↔
          (!(stored.filter fun r => accepts r.2).isEmpty) = true := by
        simp
      rw [deleteWhere_eq_rewrite, need]
      apply rewrites_of_stored whole within readable sound read found
      · exact fun r mem => arity r (List.mem_filter.1 mem).1
      · intro same
        rw [List.filter_eq_self]
        simpa using same

/-- Two letters. -/
def twoLetters : Disk :=
  ⟨FileTree.empty.put ["data"] (.file (Utf8.encode "1\ta\n2\tb\n")), []⟩

/-- The medium is too full for what is to be written. -/
def full : Outlook
  | .fill _ _ _ => some ⟨.other "No space left on device", .partly 3⟩
  | _ => none

/-- They cannot both be set to the second while the medium is full.  The second can be
removed when it no longer is. -/
theorem rewrites_all_or_nothing_letters :
    let s : RecordFile := ⟨"letters", ⟨"data"⟩, ⟨"counter"⟩, 1, 2, true⟩
    let outlooks : List Outlook := [fun _ => none, full, full]
    let set := twoLetters.performUnder outlooks (s.updateWhere (fun _ => true) 0 "b")
    let removed := twoLetters.performUnder [] (s.deleteWhere fun r => r == ⟨["b"]⟩)
    set.1 = .error (.storage (.other "No space left on device")) ∧
      (set.2.step (.read s.data)).1 = .ok (.content (Utf8.encode "1\ta\n2\tb\n")) ∧
      removed.1 = .ok [(2, ⟨["b"]⟩)] ∧
      removed.2.perform s.scan = (.ok [.ok (1, ⟨["a"]⟩)], removed.2) := by
  intro s outlooks set removed
  have whole : NoLateMoves fun c m => full c = some m := nofun
  have within : ∀ o ∈ outlooks, o.Within fun c m => full c = some m := by
    simp [outlooks, Outlook.Within]
  have sound : twoLetters.tree.IsSound := FileTree.isSound_empty.put rfl nofun _
  have read : (twoLetters.step (.read s.data)).1 =
      .ok (.content (Utf8.encode "1\ta\n2\tb\n")) := by decide +kernel
  have holds : (twoLetters.perform s.scan).1 = .ok [.ok (1, ⟨["a"]⟩), .ok (2, ⟨["b"]⟩)] := by
    decide +kernel
  have failed : set.1 = .error (.storage (.other "No space left on device")) := by
    decide +kernel
  have done : removed.1 = .ok [(2, ⟨["b"]⟩)] := by decide +kernel
  have inside : 0 < s.arity := Nat.zero_lt_one
  have allWell : ∀ o ∈ ([] : List Outlook), o.Within fun c m => full c = some m := nofun
  obtain ⟨_, scanned, -, rewrites⟩ := rewrites_all_or_nothing whole within (by simp [outlooks])
    sound read (fun _ => true) inside "b"
  obtain ⟨_, scanned', -, rewrites'⟩ := rewrites_all_or_nothing whole allWell nofun sound read
    (fun r => r == ⟨["b"]⟩) inside ""
  rw [scanned] at scanned' holds
  cases scanned'
  obtain rfl := Except.ok.inj holds
  exact ⟨failed, (rewrites [(1, ⟨["a"]⟩), (2, ⟨["b"]⟩)] rfl).1.failed _ failed, done,
    (rewrites' [(1, ⟨["a"]⟩), (2, ⟨["b"]⟩)] rfl).2.done _ done⟩

end RecordFile

end FlatDB
