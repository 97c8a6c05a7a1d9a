/-
# Documents that are written are read back

The compact text of every document is cut into its tokens and these are put
together to its syntax tree.  Both passages are given by functions on documents,
so each half is an induction on the document for an automaton that may have read
something already: the tokens of a document are added to those found before, and
its tree takes the place of a value in whatever surrounds it.

A number ends only at the byte after it.  In the middle of a text it may
therefore be still under way, which is why the first half speaks of automata that
have settled on their tokens, and not of automata between tokens.
-/

import FlatDB.Json.Tree
import FlatDB.Json.Value
import FlatDB.Proofs.Json.Quoted
import FlatDB.Proofs.Text.Numerals
import Mathlib.Data.List.Forall2
import Mathlib.Data.List.TakeWhile

namespace FlatDB

namespace Json

/-! ## Tokens and trees of documents -/

/-- The word of a truth value. -/
def wordOf (b : Bool) : List Char :=
  (ofBool b).toList

/-- The bytes between the quotes of a text. -/
def inside (s : String) : Bytes :=
  Utf8.encode (Quoted.escaped s)

mutual

/-- The tokens of a document. -/
def tokens : Json → List Token
  | .null => [.word "null".toList]
  | .bool b => [.word (wordOf b)]
  | .number n => [.number (Nat.toDigits 10 n)]
  | .string s => [.string (inside s)]
  | .array items => .openArray :: ([Token.comma].intercalate (tokensOfItems items) ++ [.closeArray])
  | .object members =>
    .openObject :: ([Token.comma].intercalate (tokensOfMembers members) ++ [.closeObject])

/-- The tokens of the elements of a list. -/
def tokensOfItems : List Json → List (List Token)
  | [] => []
  | item :: rest => tokens item :: tokensOfItems rest

/-- The tokens of the members of an object. -/
def tokensOfMembers : List (String × Json) → List (List Token)
  | [] => []
  | (name, value) :: rest =>
    (.string (inside name) :: .colon :: tokens value) :: tokensOfMembers rest

end

mutual

/-- The syntax tree of a document. -/
def tree : Json → Tree
  | .null => .word "null".toList
  | .bool b => .word (wordOf b)
  | .number n => .number (Nat.toDigits 10 n)
  | .string s => .string (inside s)
  | .array items => .array (treesOfItems items)
  | .object members => .object (treesOfMembers members)

/-- The trees of the elements of a list. -/
def treesOfItems : List Json → List Tree
  | [] => []
  | item :: rest => tree item :: treesOfItems rest

/-- The names and trees of the members of an object. -/
def treesOfMembers : List (String × Json) → List (Bytes × Tree)
  | [] => []
  | (name, value) :: rest => (inside name, tree value) :: treesOfMembers rest

end

/-! ## Cutting -/

namespace Token

namespace Cutter

/-- Whether a byte ends whatever number or word is under way. -/
def IsDelimiter (b : UInt8) : Prop :=
  numberChar (Char.ofNat b.toNat) = false ∧ (Char.ofNat b.toNat).isLower = false

/-- Whether an automaton has found certain tokens, up to one that only waits for
its end. -/
def Settled (s : Cutter) (done : List Token) : Prop :=
  s.settle? = some ⟨.between, done⟩ ∧ ∀ b, IsDelimiter b → s.next? b = start? done b

theorem settled_between (done : List Token) : Settled ⟨.between, done⟩ done :=
  ⟨rfl, fun _ _ => rfl⟩

/-- A number that is complete settles. -/
theorem settled_number {digits : List Char} (h : isNumber digits.reverse = true)
    (done : List Token) : Settled ⟨.number digits, done⟩ (.number digits.reverse :: done) := by
  refine ⟨by simp [settle?, h], fun b delimiter => ?_⟩
  simp [next?, settle?, h, delimiter.1]

/-- A word that is complete settles. -/
theorem settled_word {letters : List Char} (h : isWord letters.reverse = true)
    (done : List Token) : Settled ⟨.word letters, done⟩ (.word letters.reverse :: done) := by
  refine ⟨by simp [settle?, h], fun b delimiter => ?_⟩
  simp [next?, settle?, h, delimiter.2]

/-- Whether some bytes add certain tokens to those found before. -/
def Cuts (bytes : Bytes) (tokens : List Token) : Prop :=
  ∀ done, ∃ s, bytes.foldlM next? ⟨.between, done⟩ = some s ∧ s.Settled (tokens.reverse ++ done)

theorem cuts_nil : Cuts [] [] :=
  fun done => ⟨_, rfl, settled_between done⟩

/-- What comes before a delimiter and what comes from it on are cut apart. -/
theorem Cuts.append {front : Bytes} {found later : List Token} (h : Cuts front found) {b : UInt8}
    {back : Bytes} (delimiter : IsDelimiter b) (h' : Cuts (b :: back) later) :
    Cuts (front ++ b :: back) (found ++ later) := by
  intro done
  obtain ⟨s, reached, settled⟩ := h done
  obtain ⟨s', reached', settled'⟩ := h' (found.reverse ++ done)
  refine ⟨s', ?_, by simpa using settled'⟩
  rw [List.foldlM_append, reached]
  rw [List.foldlM_cons] at reached'
  show (b :: back).foldlM next? s = some s'
  rw [List.foldlM_cons, settled.2 b delimiter]
  exact reached'

/-- A byte that is a token of its own. -/
theorem Cuts.cons {b : UInt8} {token : Token} {bytes : Bytes} {later : List Token}
    (punctuation : ∀ done, start? done b = some ⟨.between, token :: done⟩) (h : Cuts bytes later) :
    Cuts (b :: bytes) (token :: later) := by
  intro done
  obtain ⟨s, reached, settled⟩ := h (token :: done)
  refine ⟨s, ?_, by simpa using settled⟩
  rw [List.foldlM_cons]
  show start? done b >>= _ = _
  rw [punctuation done]
  exact reached

/-! ### Strings -/

/-- Hexadecimal digits, as many as are missing, end an escape. -/
theorem foldlM_hexDigits {digits : Bytes} (ne : digits ≠ [])
    (h : ∀ b ∈ digits, (Quoted.hexValue? b).isSome = true) (sofar : Bytes) (done : List Token) :
    digits.foldlM next? ⟨.string sofar (.hex digits.length), done⟩ =
      some ⟨.string (digits.reverse ++ sofar) .outside, done⟩ := by
  induction digits generalizing sofar with
  | nil => exact absurd rfl ne
  | cons b digits ih =>
      have step : next? ⟨.string sofar (.hex (digits.length + 1)), done⟩ b =
          some ⟨.string (b :: sofar)
            (if digits.length + 1 ≤ 1 then .outside else .hex digits.length), done⟩ := by
        simp [next?, inside?, h b List.mem_cons_self]
      rw [List.length_cons, List.foldlM_cons, step, Option.bind_eq_bind, Option.bind_some]
      cases digits with
      | nil => rfl
      | cons b' digits =>
          rw [if_neg (by simp), ih (List.cons_ne_nil b' digits)
            fun x mem => h x (List.mem_cons_of_mem b mem)]
          simp

/-- The bytes of an escaped character leave the string under way. -/
theorem foldlM_escape (c : Char) (sofar : Bytes) (done : List Token) :
    (Quoted.bytesOf (Quoted.escape c)).foldlM next? ⟨.string sofar .outside, done⟩ =
      some ⟨.string ((Quoted.bytesOf (Quoted.escape c)).reverse ++ sofar) .outside, done⟩ := by
  rw [Quoted.escape_eq]
  cases h : Quoted.escapeLetter? c with
  | some letter =>
      obtain ⟨ascii, -, notNumber, meant⟩ := Quoted.letter?_escapeLetter? h
      have bytes : Quoted.bytesOf ['\\', letter] = [92, UInt8.ofNat letter.toNat] := by
        simp only [Quoted.bytesOf, List.flatMap_cons, List.flatMap_nil,
          Utf8.encodeChar_of_lt ascii]
        rfl
      simp [bytes, next?, inside?, notNumber, meant]
  | none =>
      by_cases low : c.toNat < 0x20
      · obtain ⟨first, second, value⟩ := Quoted.hex4?_hexDigit low
        have bytes : Quoted.bytesOf
            ['\\', 'u', '0', '0', Quoted.hexDigit (c.toNat / 16), Quoted.hexDigit c.toNat] =
            [92, 117, 48, 48, UInt8.ofNat (Quoted.hexDigit (c.toNat / 16)).toNat,
              UInt8.ofNat (Quoted.hexDigit c.toNat).toNat] := by
          simp only [Quoted.bytesOf, List.flatMap_cons, List.flatMap_nil,
            Utf8.encodeChar_of_lt first, Utf8.encodeChar_of_lt second]
          rfl
        have opened : next? ⟨.string sofar .outside, done⟩ 92 =
            some ⟨.string (92 :: sofar) .begun, done⟩ := rfl
        have announced : next? ⟨.string (92 :: sofar) .begun, done⟩ 117 =
            some ⟨.string (117 :: 92 :: sofar) (.hex 4), done⟩ := rfl
        simp only [low, if_true, bytes]
        rw [List.foldlM_cons, opened, Option.bind_eq_bind, Option.bind_some, List.foldlM_cons,
          announced, Option.bind_eq_bind, Option.bind_some]
        have digits := foldlM_hexDigits (List.cons_ne_nil _ _) (Quoted.isSome_of_hex4? value)
          (117 :: 92 :: sofar) done
        simpa using digits
      · simp only [low, if_false, Quoted.bytesOf, List.flatMap_cons, List.flatMap_nil,
          List.append_nil]
        have plain (b : UInt8) (mem : b ∈ String.utf8EncodeChar c) :=
          Quoted.plain_of_mem_encodeChar h low mem
        generalize String.utf8EncodeChar c = bytes at plain
        induction bytes generalizing sofar with
        | nil => rfl
        | cons b bytes ih =>
            obtain ⟨quote, backslash, control⟩ := plain b List.mem_cons_self
            have step : next? ⟨.string sofar .outside, done⟩ b =
                some ⟨.string (b :: sofar) .outside, done⟩ := by
              simp [next?, inside?, quote, backslash, control]
            rw [List.foldlM_cons, step]
            show bytes.foldlM next? ⟨.string (b :: sofar) .outside, done⟩ = _
            rw [ih (b :: sofar) fun b' mem => plain b' (List.mem_cons_of_mem b mem)]
            simp

/-- The inside of a string leaves the string under way. -/
theorem foldlM_inside (s : String) (sofar : Bytes) (done : List Token) :
    (Json.inside s).foldlM next? ⟨.string sofar .outside, done⟩ =
      some ⟨.string ((Json.inside s).reverse ++ sofar) .outside, done⟩ := by
  rw [Json.inside, Quoted.encode_escaped]
  generalize s.toList = cs
  induction cs generalizing sofar with
  | nil => rfl
  | cons c cs ih =>
      rw [List.flatMap_cons, List.foldlM_append, foldlM_escape]
      show (cs.flatMap fun c => Quoted.bytesOf (Quoted.escape c)).foldlM next? _ = _
      rw [ih]
      simp

theorem encode_quote (s : String) :
    Utf8.encode (Quoted.quote s) = 34 :: (Json.inside s ++ [34]) := by
  rw [Quoted.quote_eq, Utf8.encode_append, Utf8.encode_append]
  rfl

/-- A quoted text is one token. -/
theorem cuts_quote (s : String) : Cuts
    (Utf8.encode (Quoted.quote s)) [.string (Json.inside s)] := by
  intro done
  have opened : next? ⟨.between, done⟩ 34 = some ⟨.string [] .outside, done⟩ := rfl
  have closed : next? ⟨.string ((Json.inside s).reverse ++ []) .outside, done⟩ 34 =
      some ⟨.between, .string (Json.inside s) :: done⟩ := by
    simp [next?, inside?]
  refine ⟨⟨.between, .string (Json.inside s) :: done⟩, ?_, settled_between _⟩
  rw [encode_quote, List.foldlM_cons, opened, Option.bind_eq_bind, Option.bind_some,
    List.foldlM_append, foldlM_inside, Option.bind_eq_bind, Option.bind_some, List.foldlM_cons,
    closed]
  rfl

/-! ### Numbers and words -/

theorem byte_of_isDigit {c : Char} (h : c.isDigit = true) :
    String.utf8EncodeChar c = [UInt8.ofNat c.toNat] ∧
      Char.ofNat (UInt8.ofNat c.toNat).toNat = c := by
  have range := Char.isDigit_iff_toNat.1 h
  have high : c.toNat ≤ 57 := range.2
  refine ⟨Utf8.encodeChar_of_lt (by omega), ?_⟩
  rw [UInt8.toNat_ofNat', Nat.mod_eq_of_lt (by omega), Char.ofNat_toNat]

/-- A digit that starts something starts a number. -/
theorem start?_digit {c : Char} (h : c.isDigit = true) (done : List Token) :
    start? done (UInt8.ofNat c.toNat) = some ⟨.number [c], done⟩ := by
  have other (a : Char) (ha : a.isDigit = false) : c ≠ a := by
    rintro rfl
    simp [h] at ha
  simp only [start?, (byte_of_isDigit h).2]
  simp [h, other ' ' rfl, other '\t' rfl, other '\n' rfl,
    other '\r' rfl, other '[' rfl, other ']' rfl, other '\x7b' rfl, other '\x7d' rfl,
    other ',' rfl, other ':' rfl, other '"' rfl]

/-- Further digits leave the number under way. -/
theorem foldlM_digits {digits : List Char} (h : ∀ c ∈ digits, c.isDigit = true)
    (sofar : List Char) (done : List Token) :
    (Quoted.bytesOf digits).foldlM next? ⟨.number sofar, done⟩ =
      some ⟨.number (digits.reverse ++ sofar), done⟩ := by
  induction digits generalizing sofar with
  | nil => rfl
  | cons c digits ih =>
      have digit := h c List.mem_cons_self
      have step : next? ⟨.number sofar, done⟩ (UInt8.ofNat c.toNat) =
          some ⟨.number (c :: sofar), done⟩ := by
        simp only [next?, (byte_of_isDigit digit).2]
        simp [numberChar, digit]
      rw [Quoted.bytesOf, List.flatMap_cons, (byte_of_isDigit digit).1, List.singleton_append,
        List.foldlM_cons, step, Option.bind_eq_bind, Option.bind_some]
      apply (ih (fun c' mem => h c' (List.mem_cons_of_mem c mem)) (c :: sofar)).trans
      simp

/-- The digits of a number spell a number. -/
theorem isNumber_toDigits (n : Nat) : isNumber (Nat.toDigits 10 n) = true := by
  have digits (c : Char) (mem : c ∈ Nat.toDigits 10 n) : c.isDigit = true :=
    Numeral.isDigit_of_mem_toDigits mem
  have unsigned : dropMinus (Nat.toDigits 10 n) = Nat.toDigits 10 n := by
    unfold dropMinus
    split
    · next e => exact absurd e (Numeral.toDigits_ne_cons (by decide))
    · rfl
  have whole : dropWhole? (Nat.toDigits 10 n) = some [] := by
    unfold dropWhole?
    split
    · next cs e =>
        by_cases zero : n = 0
        · subst zero
          rw [Nat.toDigits_zero] at e
          cases e
          rfl
        · exact absurd e (Numeral.head_toDigits_ne_zero zero)
    · rw [dropDigits?]
      cases written : Nat.toDigits 10 n with
      | nil => exact absurd written Nat.toDigits_ne_nil
      | cons c cs =>
          have rest : cs.dropWhile Char.isDigit = [] :=
            List.dropWhile_eq_nil_iff.2 fun c' mem =>
              digits c' (written ▸ List.mem_cons_of_mem c mem)
          simp [digits c (written ▸ List.mem_cons_self), rest]
  simp [isNumber, unsigned, whole, dropFraction?, dropExponent?]

theorem cuts_number (n : Nat) :
    Cuts (Utf8.encode (Numeral.ofNat n)) [.number (Nat.toDigits 10 n)] := by
  intro done
  have digits (c : Char) (mem : c ∈ Nat.toDigits 10 n) : c.isDigit = true :=
    Numeral.isDigit_of_mem_toDigits mem
  have bytes : Utf8.encode (Numeral.ofNat n) = Quoted.bytesOf (Nat.toDigits 10 n) := by
    rw [Utf8.encode, Numeral.toList_ofNat]
    rfl
  have spelled : isNumber (Nat.toDigits 10 n).reverse.reverse = true := by
    rw [List.reverse_reverse, isNumber_toDigits]
  refine ⟨⟨.number (Nat.toDigits 10 n).reverse, done⟩, ?_, ?_⟩
  · rw [bytes]
    cases written : Nat.toDigits 10 n with
    | nil => exact absurd written Nat.toDigits_ne_nil
    | cons c cs =>
        have first := digits c (written ▸ List.mem_cons_self)
        have step : next? ⟨.between, done⟩ (UInt8.ofNat c.toNat) = some ⟨.number [c], done⟩ :=
          start?_digit first done
        rw [Quoted.bytesOf, List.flatMap_cons, (byte_of_isDigit first).1, List.singleton_append,
          List.foldlM_cons, step, Option.bind_eq_bind, Option.bind_some]
        refine (foldlM_digits (fun c' mem => digits c' (written ▸ List.mem_cons_of_mem c mem))
          [c] done).trans ?_
        simp
  · have settled := settled_number spelled done
    rwa [List.reverse_reverse] at settled

theorem cuts_null : Cuts (Utf8.encode "null") [.word "null".toList] :=
  fun done => ⟨⟨.word "null".toList.reverse, done⟩, rfl, settled_word rfl done⟩

theorem cuts_bool (b : Bool) : Cuts (Utf8.encode (ofBool b)) [.word (wordOf b)] := by
  intro done
  cases b with
  | true => exact ⟨⟨.word "true".toList.reverse, done⟩, rfl, settled_word rfl done⟩
  | false => exact ⟨⟨.word "false".toList.reverse, done⟩, rfl, settled_word rfl done⟩

/-! ### Documents -/

/-- Parts between commas are cut one after the other. -/
theorem cuts_intercalate {texts : List String} {found : List (List Token)}
    (h : List.Forall₂ (fun text tokens => Cuts (Utf8.encode text) tokens) texts found) :
    Cuts (Utf8.encode (",".intercalate texts)) ([Token.comma].intercalate found) := by
  induction h with
  | nil => exact cuts_nil
  | @cons text tokens texts found first rest ih =>
      cases rest with
      | nil => simpa using first
      | @cons text' tokens' texts found second rest =>
          have comma : Cuts (44 :: Utf8.encode (",".intercalate (text' :: texts)))
              (.comma :: [Token.comma].intercalate (tokens' :: found)) :=
            ih.cons fun _ => rfl
          have both := first.append (by constructor <;> decide) comma
          have bytes : Utf8.encode (",".intercalate (text :: text' :: texts)) =
              Utf8.encode text ++ 44 :: Utf8.encode (",".intercalate (text' :: texts)) := by
            rw [String.intercalate_cons_cons, Utf8.encode_append, Utf8.encode_append,
              List.append_assoc]
            rfl
          rw [bytes, List.intercalate_cons_cons]
          simpa using both

/-- A text between brackets is cut between them. -/
theorem Cuts.bracket {bytes : Bytes} {found : List Token} (h : Cuts bytes found) (b b' : UInt8)
    {token token' : Token} (opening : ∀ done, start? done b = some ⟨.between, token :: done⟩)
    (closing : ∀ done, start? done b' = some ⟨.between, token' :: done⟩)
    (delimiter : IsDelimiter b') : Cuts (b :: (bytes ++ [b'])) (token :: (found ++ [token'])) :=
  (h.append delimiter (cuts_nil.cons closing)).cons opening

mutual

/-- A compact text is cut into the tokens of its document. -/
theorem cuts_compact : ∀ j : Json, Cuts (Utf8.encode j.compact) (tokens j)
  | .null => cuts_null
  | .bool b => cuts_bool b
  | .number n => cuts_number n
  | .string s => cuts_quote s
  | .array items => by
      have inner := (cuts_intercalate (cuts_compactItems items)).bracket 91 93 (fun _ => rfl)
        (fun _ => rfl) (by constructor <;> decide)
      rw [compact, Utf8.encode_append, Utf8.encode_append, tokens]
      exact inner
  | .object members => by
      have inner := (cuts_intercalate (cuts_compactMembers members)).bracket 123 125 (fun _ => rfl)
        (fun _ => rfl) (by constructor <;> decide)
      rw [compact, Utf8.encode_append, Utf8.encode_append, tokens]
      exact inner

theorem cuts_compactItems : ∀ items : List Json,
    List.Forall₂ (fun text tokens => Cuts (Utf8.encode text) tokens) (compactItems items)
      (tokensOfItems items)
  | [] => .nil
  | item :: rest => .cons (cuts_compact item) (cuts_compactItems rest)

theorem cuts_compactMembers : ∀ members : List (String × Json),
    List.Forall₂ (fun text tokens => Cuts (Utf8.encode text) tokens) (compactMembers members)
      (tokensOfMembers members)
  | [] => .nil
  | (name, value) :: rest => by
      have colon : Cuts (58 :: Utf8.encode value.compact) (.colon :: tokens value) :=
        (cuts_compact value).cons fun _ => rfl
      have member := (cuts_quote name).append (by constructor <;> decide) colon
      refine .cons ?_ (cuts_compactMembers rest)
      rw [Utf8.encode_append, Utf8.encode_append, List.append_assoc]
      exact member

end

end Cutter

/-- The tokens of a compact text are those of its document. -/
theorem ofBytes?_compact (j : Json) : ofBytes? (Utf8.encode j.compact) = some (tokens j) := by
  obtain ⟨s, reached, settled⟩ := Cutter.cuts_compact j []
  rw [List.append_nil] at settled
  rw [ofBytes?, reached, Option.bind_some, settled.1]
  simp

end Token

/-! ## Putting together -/

namespace Tree

namespace State

/-- No document starts with a closing bracket. -/
theorem tokens_eq_cons (j : Json) : ∃ token rest, tokens j = token :: rest ∧
    token ≠ .closeArray := by
  cases j <;> exact ⟨_, _, by rw [tokens], by simp⟩

/-- The first element of a list is read as any value is. -/
theorem foldlM_firstItem (j : Json) (later : List Token) (stack : List Frame) :
    (tokens j ++ later).foldlM next? (.firstItem stack) =
      (tokens j ++ later).foldlM next? (.value (.items [] :: stack)) := by
  obtain ⟨token, rest, shape, open_⟩ := tokens_eq_cons j
  rw [shape, List.cons_append, List.foldlM_cons, List.foldlM_cons]
  have step : next? (.firstItem stack) token = next? (.value (.items [] :: stack)) token := by
    cases token <;> first | rfl | exact absurd rfl open_
  rw [step]

/-- Parts separated by one token are the first part and, for each further one, the
separator and the part. -/
theorem intercalate_cons (separator : Token) (part : List Token) (parts : List (List Token)) :
    [separator].intercalate (part :: parts) = part ++ parts.flatMap (separator :: ·) := by
  induction parts generalizing part with
  | nil => simp
  | cons next parts ih => simp [List.intercalate_cons_cons, ih]

mutual

/-- The tokens of a document are put together to its tree, which takes the place
of a value. -/
theorem foldlM_tokens : ∀ (j : Json) (stack : List Frame) (later : List Token),
    (tokens j ++ later).foldlM next? (.value stack) = later.foldlM next? (place (tree j) stack)
  | .null, stack, later => by
      rw [tokens, tree]
      rfl
  | .bool b, stack, later => by
      rw [tokens, tree]
      rfl
  | .number n, stack, later => by
      rw [tokens, tree]
      rfl
  | .string s, stack, later => by
      rw [tokens, tree]
      rfl
  | .array [], stack, later => by
      rw [tokens, tree]
      rfl
  | .array (item :: rest), stack, later => by
      rw [tokens, tree, tokensOfItems, treesOfItems, intercalate_cons, List.cons_append,
        List.foldlM_cons, List.append_assoc, List.append_assoc]
      apply (foldlM_firstItem item _ stack).trans
      rw [foldlM_tokens item, List.singleton_append]
      apply (foldlM_items rest [tree item] stack (.closeArray :: later)).trans
      rw [List.foldlM_cons]
      simp only [next?, Option.bind_eq_bind, Option.bind_some, List.reverse_append,
        List.reverse_reverse, List.reverse_singleton, List.singleton_append]
  | .object [], stack, later => by
      rw [tokens, tree]
      rfl
  | .object ((label, j) :: rest), stack, later => by
      rw [tokens, tree, tokensOfMembers, treesOfMembers, intercalate_cons, List.cons_append,
        List.foldlM_cons, List.append_assoc, List.append_assoc]
      apply (foldlM_tokens j (.members [] (inside label) :: stack) _).trans
      rw [List.singleton_append]
      refine (foldlM_members rest [(inside label, tree j)] stack
        (.closeObject :: later)).trans ?_
      rw [List.foldlM_cons]
      simp only [next?, Option.bind_eq_bind, Option.bind_some, List.reverse_append,
        List.reverse_reverse, List.reverse_singleton, List.singleton_append]

theorem foldlM_items : ∀ (items : List Json) (done : List Tree) (stack : List Frame)
    (later : List Token),
    ((tokensOfItems items).flatMap (.comma :: ·) ++ later).foldlM next? (.afterItem done stack) =
      later.foldlM next? (.afterItem ((treesOfItems items).reverse ++ done) stack)
  | [], done, stack, later => rfl
  | item :: rest, done, stack, later => by
      rw [tokensOfItems, treesOfItems, List.flatMap_cons, List.cons_append, List.cons_append,
        List.foldlM_cons, List.append_assoc]
      apply (foldlM_tokens item (.items done :: stack) _).trans
      apply (foldlM_items rest (tree item :: done) stack later).trans
      rw [List.reverse_cons, List.append_assoc, List.singleton_append]

theorem foldlM_members : ∀ (members : List (String × Json)) (done : List (Bytes × Tree))
    (stack : List Frame) (later : List Token),
    ((tokensOfMembers members).flatMap (.comma :: ·) ++ later).foldlM next?
        (.afterMember done stack) =
      later.foldlM next? (.afterMember ((treesOfMembers members).reverse ++ done) stack)
  | [], done, stack, later => rfl
  | (label, j) :: rest, done, stack, later => by
      rw [tokensOfMembers, treesOfMembers, List.flatMap_cons, List.cons_append, List.cons_append,
        List.foldlM_cons, List.append_assoc]
      apply (foldlM_tokens j (.members done (inside label) :: stack) _).trans
      apply (foldlM_members rest ((inside label, tree j) :: done) stack later).trans
      rw [List.reverse_cons, List.append_assoc, List.singleton_append]

end

end State

/-- The tokens of a document make its tree. -/
theorem ofTokens?_tokens (j : Json) : ofTokens? (tokens j) = some (tree j) := by
  have read := State.foldlM_tokens j [] []
  rw [List.append_nil] at read
  rw [ofTokens?, read]
  rfl

/-- The tree of a compact text is that of its document. -/
@[simp]
theorem ofBytes?_compact (j : Json) : ofBytes? (Utf8.encode j.compact) = some (tree j) := by
  rw [ofBytes?, Token.ofBytes?_compact, Option.bind_some, ofTokens?_tokens]

end Tree

end Json

end FlatDB
