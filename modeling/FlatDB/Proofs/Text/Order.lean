/-
# The order of texts is that of their bytes

Texts are ordered character by character, by the numbers of the characters.  UTF-8 is made so
that comparing the encoded bytes comes to the same: of two characters the one with the greater
number has the greater bytes, and they differ before either of them ends.
-/

import FlatDB.Text.Utf8
import Mathlib.Data.List.Lex
import Mathlib.Order.Compare

namespace FlatDB

/-! ## Comparing by what things stand for -/

/-- Where smaller things stand for smaller ones, comparing the things compares what they stand
for. -/
theorem compares_of_lt {α β : Type} [Ord α] [Std.OrientedOrd α] [Std.LawfulEqOrd α] [LT β]
    {f : α → β} (smaller : ∀ {a b : α}, compare a b = .lt → f a < f b) (a b : α) :
    (compare a b).Compares (f a) (f b) := by
  cases h : compare a b with
  | lt => exact smaller h
  | eq => exact congrArg f (Std.LawfulEqCmp.eq_of_compare h)
  | gt => exact smaller (Std.OrientedCmp.gt_iff_lt.1 h)

/-! ## Texts -/

theorem lt_of_compare_eq_lt {a b : String} (h : compare a b = .lt) : a < b :=
  compareOfLessAndEq_eq_lt.1 h

namespace Utf8

/-- Of two characters the smaller one has the smaller bytes, whatever follows them. -/
theorem encodeChar_append_lt {c d : Char} (h : c < d) (bs bs' : Bytes) :
    String.utf8EncodeChar c ++ bs < String.utf8EncodeChar d ++ bs' := by
  have less : c.val.toNat < d.val.toNat := h
  have below : d.val.toNat < 0x110000 := by
    rcases d.valid with low | high
    · exact Nat.lt_trans low (by decide)
    · exact high.2
  -- A byte holds six more bits than the byte before it leaves over.
  have twice (n : Nat) : n / 4096 = n / 64 / 64 := by omega
  have thrice (n : Nat) : n / 262144 = n / 64 / 64 / 64 := by omega
  unfold String.utf8EncodeChar
  dsimp only
  repeat' split
  all_goals
    simp only [List.cons_append, List.nil_append, List.cons_lt_cons_iff, UInt8.lt_iff_toNat_lt,
      ← UInt8.toNat_inj, UInt8.toNat_ofNat', twice, thrice]
    omega

theorem flatMap_lt_of_lt {cs ds : List Char} (h : cs < ds) :
    cs.flatMap String.utf8EncodeChar < ds.flatMap String.utf8EncodeChar := by
  induction cs generalizing ds with
  | nil =>
      cases ds with
      | nil => exact absurd h (List.not_lt_nil [])
      | cons d ds =>
          obtain ⟨b, bs, shape⟩ :=
            List.exists_cons_of_ne_nil (String.utf8EncodeChar_ne_nil (c := d))
          rw [List.flatMap_cons, shape]
          exact List.nil_lt_cons _ _
  | cons c cs ih =>
      cases ds with
      | nil => exact absurd h (List.not_lt_nil _)
      | cons d ds =>
          rw [List.flatMap_cons, List.flatMap_cons]
          rcases List.cons_lt_cons_iff.1 h with smaller | ⟨rfl, later⟩
          · exact encodeChar_append_lt smaller _ _
          · exact List.append_left_lt (ih later)

/-- A smaller text has smaller bytes. -/
theorem encode_lt_of_lt {a b : String} (h : a < b) : encode a < encode b :=
  flatMap_lt_of_lt h

/-- Comparing texts is comparing their bytes. -/
theorem compares_encode (a b : String) : (compare a b).Compares (encode a) (encode b) :=
  compares_of_lt (fun before => encode_lt_of_lt (lt_of_compare_eq_lt before)) a b

/-- No two texts have the same bytes. -/
theorem encode_inj {a b : String} : encode a = encode b ↔ a = b := by
  refine ⟨fun same => ?_, congrArg encode⟩
  have read : decode? (encode b) = some a := same ▸ decode?_encode a
  exact Option.some.inj (read.symm.trans (decode?_encode b))

theorem eq_iff_of_compares {a b : String} {o : Ordering}
    (h : o.Compares (encode a) (encode b)) : o = .eq ↔ a = b := by
  cases o with
  | lt =>
      refine iff_of_false nofun ?_
      rintro rfl
      exact List.lt_irrefl _ h
  | eq => exact iff_of_true rfl (encode_inj.1 h)
  | gt =>
      refine iff_of_false nofun ?_
      rintro rfl
      exact List.lt_irrefl _ h

end Utf8

end FlatDB
