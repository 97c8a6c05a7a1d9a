/-
# The ids of stored records

Ids are handed out upwards, so the records of a data file have ascending ids, none
of which is greater than the last one that was handed out.  Adding, changing and
removing records preserves this, and so does telling the last id from the records
when the counter is lost.
-/

import FlatDB.Record.Entries

namespace FlatDB

namespace RecordId

variable {id : RecordId}

/-- Unless all ids have been handed out, the next one is the next number. -/
theorem toNat_next (left : id.toNat + 1 ≠ UInt64.size) : (id + 1).toNat = id.toNat + 1 := by
  have bound : id.toNat < 2 ^ 64 := id.toNat_lt_size
  have size : UInt64.size = 2 ^ 64 := rfl
  rw [UInt64.toNat_add, UInt64.toNat_one, Nat.mod_eq_of_lt]
  omega

theorem lt_next (left : id.toNat + 1 ≠ UInt64.size) : id < id + 1 := by
  rw [UInt64.lt_iff_toNat_lt, toNat_next left]
  exact Nat.lt_succ_self _

end RecordId

namespace Entries

/-! ## The greatest id -/

/-- An id bounds the greater of two ids if it bounds both. -/
theorem max_le_iff {a b c : RecordId} : max a b ≤ c ↔ a ≤ c ∧ b ≤ c := by
  simp only [Max.max, UInt64.le_iff_toNat_le]
  split <;> omega

theorem foldl_max_le_iff {start bound : RecordId} {stored : List Stored} :
    stored.foldl (fun greatest s => max greatest s.1) start ≤ bound ↔
      start ≤ bound ∧ ∀ s ∈ stored, s.1 ≤ bound := by
  induction stored generalizing start with
  | nil => simp
  | cons s stored ih => rw [List.foldl_cons, ih, max_le_iff, List.forall_mem_cons, and_assoc]

/-- The greatest id is the least that bounds all. -/
theorem greatestId_le_iff {bound : RecordId} {stored : List Stored} :
    greatestId stored ≤ bound ↔ ∀ s ∈ stored, s.1 ≤ bound := by
  rw [greatestId, foldl_max_le_iff]
  exact and_iff_right UInt64.zero_le

/-! ## Ids that were handed out -/

/-- Setting a field leaves the id alone. -/
theorem fst_assign (accepts : Record → Bool) (position : Nat) (value : String) (s : Stored) :
    (assign accepts position value s).1 = s.1 := by
  rw [assign]
  split <;> rfl

/-- Whether records have ids that were handed out one after the other, up to some last
one. -/
structure Issued (stored : List Stored) (lastId : RecordId) : Prop where
  ascending : (stored.map Prod.fst).Pairwise (· < ·)
  positive : ∀ s ∈ stored, 1 ≤ s.1
  bounded : ∀ s ∈ stored, s.1 ≤ lastId

namespace Issued

variable {stored : List Stored} {lastId : RecordId}

theorem nil (lastId : RecordId) : Issued [] lastId :=
  ⟨by simp, by simp, by simp⟩

/-- It does not matter if ids are skipped. -/
theorem mono (h : Issued stored lastId) {lastId' : RecordId} (later : lastId ≤ lastId') :
    Issued stored lastId' :=
  ⟨h.ascending, h.positive, fun s mem => UInt64.le_trans (h.bounded s mem) later⟩

/-- A record with the next id. -/
theorem concat (h : Issued stored lastId) (left : lastId.toNat + 1 ≠ UInt64.size)
    (record : Record) : Issued (stored ++ [(lastId + 1, record)]) (lastId + 1) := by
  have next : lastId < lastId + 1 := RecordId.lt_next left
  have first : 1 ≤ lastId + 1 := by
    rw [UInt64.le_iff_toNat_le, RecordId.toNat_next left, UInt64.toNat_one]
    omega
  refine ⟨?_, ?_, ?_⟩
  · rw [List.map_append, List.pairwise_append]
    refine ⟨h.ascending, by simp, fun id mem id' mem' => ?_⟩
    obtain ⟨s, hs, rfl⟩ := List.mem_map.1 mem
    rw [List.mem_singleton.1 mem']
    exact UInt64.lt_of_le_of_lt (h.bounded s hs) next
  · rw [List.forall_mem_append]
    exact ⟨h.positive, by simpa using first⟩
  · rw [List.forall_mem_append]
    exact ⟨(h.mono (UInt64.le_of_lt next)).bounded, by simp⟩

/-- Setting fields leaves the ids alone. -/
theorem assign (h : Issued stored lastId) (accepts : Record → Bool) (position : Nat)
    (value : String) : Issued (stored.map (Entries.assign accepts position value)) lastId := by
  have same := fst_assign accepts position value
  refine ⟨?_, ?_, ?_⟩
  · rw [List.map_map]
    exact (List.map_congr_left fun s _ => same s) ▸ h.ascending
  · rw [List.forall_mem_map]
    exact fun s mem => (same s).symm ▸ h.positive s mem
  · rw [List.forall_mem_map]
    exact fun s mem => (same s).symm ▸ h.bounded s mem

/-- Removing records keeps the others in order. -/
theorem filter (h : Issued stored lastId) (keep : Stored → Bool) :
    Issued (stored.filter keep) lastId :=
  ⟨h.ascending.sublist (List.filter_sublist.map Prod.fst),
    fun s mem => h.positive s (List.mem_filter.1 mem).1,
    fun s mem => h.bounded s (List.mem_filter.1 mem).1⟩

/-- The records themselves tell a last id. -/
theorem greatest (h : Issued stored lastId) : Issued stored (greatestId stored) :=
  ⟨h.ascending, h.positive, greatestId_le_iff.1 (UInt64.le_refl _)⟩

end Issued

end Entries

end FlatDB
