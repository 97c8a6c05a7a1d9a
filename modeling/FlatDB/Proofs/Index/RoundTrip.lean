/-
# Indexes that are written are read back

The document of an index is read as that index, whatever its column is called
and whichever keys and ids it holds.  The documents in general being read back as
their syntax trees, what is left are the names and numbers inside: a key is
written between quotes and read from the bytes there, and a map or set is
rebuilt from its entries.
-/

import FlatDB.Index.Document
import FlatDB.Proofs.Json.Reading

namespace FlatDB

namespace Index

/-! ## Keys -/

/-- The characters of a numeral are not escaped. -/
theorem characters_escape {c : Char} (h : c = '-' ∨ c.isDigit = true) :
    characters (Json.Quoted.bytesOf (Json.Quoted.escape c)) = [c] := by
  have ascii : c.toNat < 128 := by
    rcases h with rfl | digit
    · decide
    · have range := (Char.isDigit_iff_toNat.1 digit).2
      exact Nat.lt_of_le_of_lt range (by decide)
  have plain : Json.Quoted.escape c = [c] := by
    have other (a : Char) (ha : a.isDigit = false) (minus : a ≠ '-') : c ≠ a := by
      rintro rfl
      rcases h with rfl | digit
      · exact minus rfl
      · simp [digit] at ha
    have printable : ¬ c.toNat < 0x20 := by
      rcases h with rfl | digit
      · decide
      · have range : 48 ≤ c.toNat := (Char.isDigit_iff_toNat.1 digit).1
        omega
    simp [Json.Quoted.escape, printable, other '"' rfl (by decide), other '\\' rfl (by decide),
      other '\x08' rfl (by decide), other '\x0c' rfl (by decide), other '\n' rfl (by decide),
      other '\r' rfl (by decide), other '\t' rfl (by decide)]
  rw [plain, Json.Quoted.bytesOf, List.flatMap_cons, Utf8.encodeChar_of_lt ascii]
  simp only [characters, List.flatMap_nil, List.append_nil, List.map_cons, List.map_nil,
    UInt8.toNat_ofNat', Nat.mod_eq_of_lt (Nat.lt_trans ascii (by decide : 128 < 2 ^ 8)),
    Char.ofNat_toNat]

/-- The bytes between the quotes of an integer's numeral are its characters. -/
theorem characters_inside_ofInt (n : Int) :
    characters (Json.inside (Numeral.ofInt n)) = (Numeral.ofInt n).toList := by
  have plain (c : Char) (mem : c ∈ (Numeral.ofInt n).toList) := Numeral.isDigit_of_mem_ofInt mem
  rw [Json.inside, Json.Quoted.encode_escaped]
  generalize (Numeral.ofInt n).toList = cs at plain
  induction cs with
  | nil => rfl
  | cons c cs ih =>
      have first := characters_escape (plain c List.mem_cons_self)
      have rest := ih fun c' mem => plain c' (List.mem_cons_of_mem c mem)
      rw [characters] at first rest ⊢
      rw [List.flatMap_cons, List.map_append, first, rest, List.singleton_append]

/-- The numeral of an integer is one of the format. -/
theorem integer?_ofInt (n : Int) : Json.Tree.integer? (Numeral.ofInt n).toList = some n := by
  rw [Numeral.toList_ofInt]
  by_cases negative : n < 0
  · have nonzero : n.natAbs ≠ 0 := by omega
    rw [if_pos negative, Json.Tree.integer?.eq_4 _ fun cs => Numeral.head_toDigits_ne_zero nonzero,
      Numeral.digits?_toDigits]
    show some (-(n.natAbs : Int)) = some n
    exact congrArg some (by omega)
  · rw [if_neg negative]
    have whole : (n.natAbs : Int) = n := by omega
    by_cases zero : n.natAbs = 0
    · have : n = 0 := by omega
      subst this
      rfl
    · have unsigned (cs : List Char) : Nat.toDigits 10 n.natAbs ≠ '-' :: cs :=
        Numeral.toDigits_ne_cons (by decide)
      rw [Json.Tree.integer?.eq_5 _ (Numeral.head_toDigits_ne_zero zero)
        (fun _ => Numeral.head_toDigits_ne_zero zero) (fun cs => unsigned _) unsigned,
        Numeral.digits?_toDigits]
      exact congrArg some whole

/-- A key is read back. -/
theorem keyOfName?_inside (key : Int32) :
    keyOfName? (Json.inside (Numeral.ofInt32 key)) = some key := by
  rw [keyOfName?, Numeral.ofInt32, characters_inside_ofInt, integer?_ofInt, Option.bind_some,
    Numeral.int32OfInt?_toInt]

/-! ## Ids -/

/-- An id is read back. -/
theorem idOfTree?_number (id : RecordId) :
    idOfTree? (.number (Nat.toDigits 10 id.toNat)) = some id := by
  have digits := integer?_ofInt id.toNat
  rw [Numeral.toList_ofInt, if_neg (by omega), Int.natAbs_natCast] at digits
  have small : id.toNat < UInt64.size := id.toNat_lt_size
  rw [idOfTree?, digits]
  show (if id.toNat < UInt64.size then some (UInt64.ofNat id.toNat) else none) = some id
  rw [if_pos small, UInt64.ofNat_toNat]

/-- A set is rebuilt from its elements. -/
theorem foldl_insert_toList (ids : IdSet) :
    ids.toList.foldl (fun set id => set.insert id) ∅ = ids := by
  have gathered (l : List RecordId) (start : IdSet) (id : RecordId) :
      id ∈ l.foldl (fun set id => set.insert id) start ↔ id ∈ l ∨ id ∈ start := by
    induction l generalizing start with
    | nil => simp
    | cons a l ih =>
        rw [List.foldl_cons, ih, Std.ExtTreeSet.mem_insert]
        have same : compare a id = .eq ↔ id = a := by
          rw [Std.LawfulEqCmp.compare_eq_iff_eq, eq_comm]
        rw [same, List.mem_cons, or_left_comm, or_assoc]
  apply Std.ExtTreeSet.ext_mem
  intro id
  rw [gathered]
  simp

theorem mapM_idOfTree? (ids : List RecordId) :
    (Json.treesOfItems (ids.map fun id => .number id.toNat)).mapM idOfTree? = some ids := by
  induction ids with
  | nil => rfl
  | cons id ids ih => simp [Json.treesOfItems, Json.tree, idOfTree?_number, ih]

/-- The ids under a key are read back. -/
theorem idsOfTree?_idsToJson (ids : IdSet) : idsOfTree? (Json.tree (idsToJson ids)) = some ids := by
  simp [idsToJson, Json.tree, idsOfTree?, mapM_idOfTree?, foldl_insert_toList]

/-! ## Buckets -/

/-- A map is rebuilt from its entries. -/
theorem foldl_insert_toList_buckets (buckets : Buckets) :
    buckets.toList.foldl (fun all bucket => all.insert bucket.1 bucket.2) ∅ = buckets := by
  have gathered (l : List (Int32 × IdSet)) (distinct : l.Pairwise fun a b => a.1 ≠ b.1)
      (start : Buckets) (key : Int32) :
      (l.foldl (fun all bucket => all.insert bucket.1 bucket.2) start)[key]? =
        ((l.find? fun bucket => bucket.1 == key).map Prod.snd).or start[key]? := by
    induction l generalizing start with
    | nil => simp
    | cons a l ih =>
        rw [List.pairwise_cons] at distinct
        rw [List.foldl_cons, ih distinct.2, Std.ExtTreeMap.getElem?_insert]
        by_cases here : a.1 = key
        · have none : l.find? (fun bucket => bucket.1 == key) = none := by
            rw [List.find?_eq_none]
            intro b mem
            simpa [← here] using (distinct.1 b mem).symm
          simp [here, none]
        · simp [here]
  have distinct : buckets.toList.Pairwise fun a b => a.1 ≠ b.1 :=
    buckets.distinct_keys_toList.imp fun differ => by simpa using differ
  apply Std.ExtTreeMap.ext_getElem?
  intro key
  rw [gathered _ distinct]
  cases found : buckets.toList.find? fun bucket => bucket.1 == key with
  | none =>
      have absent : buckets[key]? = none := by
        rw [Option.eq_none_iff_forall_ne_some]
        intro ids present
        have mem : (key, ids) ∈ buckets.toList :=
          Std.ExtTreeMap.mem_toList_iff_getElem?_eq_some.2 present
        simpa using List.find?_eq_none.1 found _ mem
      simp [absent]
  | some bucket =>
      have here : bucket.1 = key := by simpa using List.find?_some found
      have mem := List.mem_of_find?_eq_some found
      have present : buckets[key]? = some bucket.2 :=
        Std.ExtTreeMap.mem_toList_iff_getElem?_eq_some.1 (here ▸ mem)
      simp [present]

theorem mapM_bucketOfMember? (buckets : List (Int32 × IdSet)) :
    (Json.treesOfMembers (buckets.map fun (key, ids) =>
      (Numeral.ofInt32 key, idsToJson ids))).mapM bucketOfMember? = some buckets := by
  induction buckets with
  | nil => rfl
  | cons bucket buckets ih =>
      simp [Json.treesOfMembers, bucketOfMember?, keyOfName?_inside, idsOfTree?_idsToJson, ih]

/-- The keys of an index with their ids are read back. -/
theorem bucketsOfTree?_tree (buckets : Buckets) :
    bucketsOfTree? (Json.tree (.object (buckets.toList.map fun (key, ids) =>
      (Numeral.ofInt32 key, idsToJson ids)))) = some buckets := by
  simp only [Json.tree, bucketsOfTree?, mapM_bucketOfMember?, Option.bind_eq_bind,
    Option.bind_some, foldl_insert_toList_buckets]
  rfl

/-! ## Documents -/

/-- An index is read back from its document, at whatever position its column is
looked for. -/
theorem ofBytes?_text (position : Nat) (i : Index) :
    ofBytes? position (Utf8.encode i.text) = some { i with position } := by
  have named (name : String) (t : Json.Tree) :
      nameOfMember? (Json.inside name, t) = some (name, t) := by
    simp [nameOfMember?, Json.inside]
  have column : (Json.tree (.string i.column)).text? = some i.column := by
    simp [Json.tree, Json.Tree.text?, Json.inside]
  rw [ofBytes?, text, Json.Tree.ofBytes?_compact, Option.bind_some, toJson, Json.tree]
  simp only [ofTree?, Json.treesOfMembers, List.mapM_cons, List.mapM_nil, named,
    Option.bind_eq_bind, Option.bind_some, Option.pure_def, theMember?, membersNamed,
    List.filterMap_cons, List.filterMap_nil, if_true]
  simp [column, bucketsOfTree?_tree]

end Index

end FlatDB
