/-
# Records without a key

An index can take up a record only if the record has a key in its column.  A change may
come to a record without one at any time: in any index, after any number of others.  Then
nothing is written.  Following an update and taking records out work on indexes that
replace those of the set only at the end, so the set is left as it was.

Entering a new record does not: it goes through the indexes of the set itself and stops at
the first that has no key for the record, and those before it have the record already.  The
set is left as it was only if each of these held the record before.
-/

import FlatDB.Proofs.Disk.Mishaps
import FlatDB.Proofs.Table.Upkeep

namespace FlatDB

/-! ## Writing files -/

theorem Replacement.onlyFaults_replace (path : Path) (bytes : Bytes) (sync : Bool) :
    (replace path bytes sync).OnlyFaults := by
  have call {c : Call} (f : c.Reply → Except Fault Unit) :
      (Action.ask c >>= fun reply => Action.ofReply (f reply)).OnlyFaults := .call
  have started : (start path sync).OnlyFaults :=
    .bind (.call (c := .create path.staged) (f := fun reply => reply)) fun _ => .pure _
  apply started.bind
  intro r
  apply Action.OnlyFaults.orElse
  exact .bind (call (c := .fill _ _ _) fun reply => reply) fun _ =>
    call (c := .rename _ _) fun reply => reply

/-- Indexes that cannot be written are a matter of storage. -/
theorem TableIndexes.onlyFaults_persist (t : TableIndexes) (i : Index) :
    (t.persist i).OnlyFaults :=
  .orElse (Replacement.onlyFaults_replace _ _ _) _

theorem TableIndexes.onlyFaults_persistAll (t : TableIndexes) : t.persistAll.OnlyFaults :=
  .forM t.onlyFaults_persist

/-! ## Keys that are missing -/

namespace Index

variable {table : String} {i : Index} {s : Stored}

/-- A text without a key is one that is not a number. -/
theorem keyOf_eq_error {r : Record} (h : r.key? i.position = none) :
    i.keyOf table r =
      .error (.damagedIndex table i.column (.notAnInt ((r.get? i.position).getD ""))) := by
  cases field : r.get? i.position with
  | none => rw [keyOf, field]; rfl
  | some text =>
      rw [Record.key?, field] at h
      rw [keyOf, field, Option.getD_some, parseKey, show Numeral.int32? text = none from h]

theorem insertRecord_eq_error (h : s.2.key? i.position = none) :
    i.insertRecord table s =
      .error (.damagedIndex table i.column (.notAnInt ((s.2.get? i.position).getD ""))) := by
  rw [insertRecord, keyOf_eq_error h, Result.error_bind]

/-- An id that is under a key already can be put there again. -/
theorem insert_of_holds {key : Int32} {id : RecordId} (h : i.holds key id = true) :
    i.insert key id = i := by
  obtain ⟨ids, found, mem⟩ := holds_eq_true_iff.1 h
  have same : ids.insert id = ids := by
    apply Std.ExtTreeSet.ext_mem
    intro n
    rw [Std.ExtTreeSet.mem_insert, Std.compare_eq_iff_eq]
    exact or_iff_right_of_imp fun e => e ▸ mem
  have buckets : i.buckets.insert key ids = i.buckets := by
    apply Std.ExtTreeMap.ext_getElem?
    intro k
    rw [Std.ExtTreeMap.getElem?_insert]
    split
    · next here => rw [← Std.compare_eq_iff_eq.1 here, ← found, lookup?]
    · rfl
  rw [insert, found, Option.getD_some, same, buckets]

/-- Entering a record changes every index but those that have it already. -/
theorem enter_eq_self_iff : i.enter s = i ↔
    ∀ key, s.2.key? i.position = some key → i.holds key s.1 = true := by
  rw [enter]
  cases s.2.key? i.position with
  | none => simp
  | some key =>
      simp only [Option.some.injEq, forall_eq']
      constructor
      · intro same
        rw [← same, holds_insert]
        simp
      · exact insert_of_holds

end Index

namespace TableIndexes

variable {table : String} {indexes before after : List Index} {bad : Index} {s : Stored}

/-- A record is entered into the indexes before the first that has no key for it. -/
theorem enter_of_unkeyed (keyed : ∀ i ∈ before, (s.2.key? i.position).isSome)
    (unkeyed : s.2.key? bad.position = none) :
    enter table s (before ++ bad :: after) =
      (.error (.damagedIndex table bad.column (.notAnInt ((s.2.get? bad.position).getD ""))),
        before.map (Index.enter · s) ++ bad :: after) := by
  induction before with
  | nil => rw [List.nil_append, enter, Index.insertRecord_eq_error unkeyed]; rfl
  | cons i before ih =>
      obtain ⟨first, later⟩ := List.forall_mem_cons.1 keyed
      obtain ⟨key, has⟩ := Option.isSome_iff_exists.1 first
      rw [List.cons_append, enter, Index.insertRecord_eq_ok has, ih later]
      rfl

/-- Either all indexes have a key for a record, or there is a first that has none. -/
theorem keyed_or_exists_unkeyed (s : Stored) (indexes : List Index) :
    (∀ i ∈ indexes, (s.2.key? i.position).isSome) ∨
      ∃ before bad after, indexes = before ++ bad :: after ∧
        (∀ i ∈ before, (s.2.key? i.position).isSome) ∧ s.2.key? bad.position = none := by
  cases found : indexes.find? fun i => (s.2.key? i.position).isNone with
  | none =>
      left
      simpa [Option.isSome_iff_ne_none] using found
  | some bad =>
      right
      obtain ⟨unkeyed, before, after, rfl, keyed⟩ := List.find?_eq_some_iff_append.1 found
      exact ⟨before, bad, after, rfl, by simpa using keyed, by simpa using unkeyed⟩

/-! ## Keeping up under mishaps -/

/-- What an update of indexes leaves if it comes to a record without a key. -/
def LeavesOnDamage (left : TableIndexes → Disk → Prop) (result : Except Error Unit)
    (t' : TableIndexes) (d' : Disk) : Prop :=
  ∀ table column damage, result = .error (.damagedIndex table column damage) → left t' d'

variable {F : Tolerance} {t : TableIndexes} {d : Disk}

/-- The files are written when no key is missing any more. -/
theorem ensures_of_onlyFaults {a : Action Unit} (h : a.OnlyFaults)
    (left : TableIndexes → Disk → Prop) :
    (liftM a : Update TableIndexes Unit).Ensures F (LeavesOnDamage left) t d := by
  apply Update.Ensures.ofAction
  apply (h F d).mono
  intro x d' faults table column damage same
  obtain ⟨fault, impossible⟩ := faults _ same
  cases impossible

/-- Following an update either comes to the end of all changes or leaves everything. -/
theorem ensures_onUpdate (t : TableIndexes) (d : Disk) (column : String)
    (changes : List FieldChange) :
    (onUpdate column changes).Ensures F (LeavesOnDamage fun t' d' => t' = t ∧ d' = d) t d := by
  rw [onUpdate]
  apply Update.Ensures.bind_get
  dsimp only
  split
  · next place index _ _ =>
    apply Update.Ensures.bind (Q := fun _ t' d' => t' = t ∧ d' = d)
    · exact .ofAction (.ofResult ⟨rfl, rfl⟩)
    · rintro ⟨next, changed⟩ _ _ ⟨rfl, rfl⟩
      dsimp only
      split
      · exact .bind_set (ensures_of_onlyFaults (onlyFaults_persist _ _) _)
      · exact .pure nofun
    · rintro e _ _ ⟨rfl, rfl⟩ _ _ _ _
      exact ⟨rfl, rfl⟩
  · exact .pure nofun

/-- Taking records out either comes to the end of them or leaves everything. -/
theorem ensures_onDelete (t : TableIndexes) (d : Disk) (removed : List Stored) :
    (onDelete removed).Ensures F (LeavesOnDamage fun t' d' => t' = t ∧ d' = d) t d := by
  rw [onDelete]
  apply Update.Ensures.bind_get
  dsimp only
  split
  · exact .pure nofun
  · apply Update.Ensures.bind (Q := fun _ t' d' => t' = t ∧ d' = d)
    · exact .ofAction (.ofResult ⟨rfl, rfl⟩)
    · rintro indexes _ _ ⟨rfl, rfl⟩
      exact .bind_set (ensures_of_onlyFaults (onlyFaults_persistAll _) _)
    · rintro e _ _ ⟨rfl, rfl⟩ _ _ _ _
      exact ⟨rfl, rfl⟩

/-- A record has been entered into the indexes before the first that has no key for it, and
into no other. -/
structure EnteredBefore (t : TableIndexes) (s : Stored) (before : List Index) (bad : Index)
    (after : List Index) (t' : TableIndexes) : Prop where
  split : t.indexes = before ++ bad :: after
  keyed : ∀ i ∈ before, (s.2.key? i.position).isSome
  unkeyed : s.2.key? bad.position = none
  entered : t' = { t with indexes := before.map (Index.enter · s) ++ bad :: after }

/-- Nothing has come of that only if these indexes had the record before. -/
theorem EnteredBefore.eq_self_iff {t' : TableIndexes} (h : t.EnteredBefore s before bad after t') :
    t' = t ↔ ∀ i ∈ before, ∀ key, s.2.key? i.position = some key → i.holds key s.1 = true := by
  have same : t' = t ↔ before.map (Index.enter · s) = before := by
    rw [h.entered]
    constructor
    · intro same
      have indexes := congrArg TableIndexes.indexes same
      rw [h.split] at indexes
      exact List.append_cancel_right indexes
    · intro same
      rw [same, ← h.split]
  calc t' = t ↔ before.map (Index.enter · s) = before.map id := by rw [same, List.map_id]
    _ ↔ ∀ i ∈ before, i.enter s = i := List.map_inj_left
    _ ↔ _ := forall₂_congr fun i _ => Index.enter_eq_self_iff

/-- Entering a record either comes to the end of all indexes or stops at one. -/
theorem ensures_onInsert (t : TableIndexes) (d : Disk) (s : Stored) :
    (onInsert s).Ensures F
      (LeavesOnDamage fun t' d' => (∃ before bad after, t.EnteredBefore s before bad after t') ∧
        d' = d) t d := by
  rw [onInsert]
  apply Update.Ensures.bind_get
  dsimp only
  split
  · exact .pure nofun
  rcases keyed_or_exists_unkeyed s t.indexes with keyed | ⟨before, bad, after, split, keyed, unkeyed⟩
  · rw [enter_of_keyed keyed]
    exact .bind_set (ensures_of_onlyFaults (onlyFaults_persistAll _) _)
  · rw [split, enter_of_unkeyed keyed unkeyed]
    have entered : t.EnteredBefore s before bad after
        { t with indexes := before.map (Index.enter · s) ++ bad :: after } :=
      ⟨split, keyed, unkeyed, rfl⟩
    apply Update.Ensures.bind_set
    apply Update.Ensures.bind (Q := fun _ t' d' => t.EnteredBefore s before bad after t' ∧ d' = d)
    · exact .ofAction (.ofResult ⟨entered, rfl⟩)
    · exact fun _ _ _ _ => ensures_of_onlyFaults (onlyFaults_persistAll _) _
    · exact fun _ _ _ ⟨entered, same⟩ _ _ _ _ => ⟨⟨before, bad, after, entered⟩, same⟩

/-! ## What a missing key leaves -/

/-- What has become of records that the indexes are to keep up with. -/
inductive Upkeep where
  | inserted (s : Stored)
  | updated (column : String) (changes : List FieldChange)
  | deleted (removed : List Stored)

/-- Keep the indexes up with records. -/
def Upkeep.update : Upkeep → Update TableIndexes Unit
  | .inserted s => onInsert s
  | .updated column changes => onUpdate column changes
  | .deleted removed => onDelete removed

/-- Whatever the indexes are to keep up with and whatever befalls their files: if a key is
missing, no file is changed, and after an update or a deletion no index.  An insertion leaves
the record in the indexes before the first that has no key for it, so it changes none exactly
if these had it before. -/
theorem bad_key_leaves {t t' : TableIndexes} {change : Upkeep} {d d' : Disk}
    {outlooks : List Outlook} {table column : String} {damage : IndexDamage}
    (failed : d.updateUnder outlooks t change.update =
      (.error (.damagedIndex table column damage), t', d')) :
    d' = d ∧
    match change with
    | .inserted s => ∃ before bad after, t.EnteredBefore s before bad after t' ∧
        (t' = t ↔ ∀ i ∈ before, ∀ key, s.2.key? i.position = some key → i.holds key s.1 = true)
    | .updated _ _ => t' = t
    | .deleted _ => t' = t := by
  have within : ∀ o ∈ outlooks, o.Within fun _ _ => True := fun _ _ _ _ _ => trivial
  cases change with
  | inserted s =>
      have ensured := (ensures_onInsert t d s).updateUnder within
      rw [show d.updateUnder outlooks t (onInsert s) = _ from failed] at ensured
      obtain ⟨⟨before, bad, after, entered⟩, same⟩ := ensured table column damage rfl
      exact ⟨same, before, bad, after, entered, entered.eq_self_iff⟩
  | updated name changes =>
      have ensured := (ensures_onUpdate t d name changes).updateUnder within
      rw [show d.updateUnder outlooks t (onUpdate name changes) = _ from failed] at ensured
      exact (ensured table column damage rfl).symm
  | deleted removed =>
      have ensured := (ensures_onDelete t d removed).updateUnder within
      rw [show d.updateUnder outlooks t (onDelete removed) = _ from failed] at ensured
      exact (ensured table column damage rfl).symm

/-- Indexes of two columns that hold nothing. -/
def twoEmpty : TableIndexes :=
  ⟨"t", .ofTable ⟨"db"⟩ "t", [.empty "x" 0, .empty "y" 1], true⟩

theorem bad_key_leaves_two :
    let change := Upkeep.inserted (1, ⟨["3", "b"]⟩)
    (Disk.empty.update twoEmpty change.update).1 =
        .error (.damagedIndex "t" "y" (.notAnInt "b")) ∧
      (Disk.empty.update twoEmpty change.update).2.2 = Disk.empty ∧
      ∃ before bad after, twoEmpty.EnteredBefore (1, ⟨["3", "b"]⟩) before bad after
        (Disk.empty.update twoEmpty change.update).2.1 := by
  intro change
  have failed : (Disk.empty.update twoEmpty change.update).1 =
      .error (.damagedIndex "t" "y" (.notAnInt "b")) := by decide +kernel
  generalize done : Disk.empty.update twoEmpty change.update = left at failed ⊢
  obtain ⟨x, t', d'⟩ := left
  obtain rfl := failed
  rw [← Disk.updateUnder_nil] at done
  obtain ⟨same, before, bad, after, entered, -⟩ := bad_key_leaves done
  exact ⟨rfl, same, before, bad, after, entered⟩

/-- The first of two indexes has a record that was not inserted. -/
theorem bad_key_enters_first :
    let (result, t', d') := Disk.empty.update twoEmpty (Upkeep.inserted (1, ⟨["3", "b"]⟩)).update
    result = .error (.damagedIndex "t" "y" (.notAnInt "b")) ∧ d' = Disk.empty ∧
      (t'.get? "x").any (fun i => i.holds 3 1) = true ∧ t' ≠ twoEmpty := by
  decide +kernel

end TableIndexes

end FlatDB
