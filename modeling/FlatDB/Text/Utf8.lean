/-
# Bytes and UTF-8

Files hold bytes and everything above them is text.  This module fixes the one
passage between the two.  Encoding is total and is given character by
character, so that it distributes over appending; decoding is partial, because
a file may hold anything.  The two are inverse to each other wherever decoding
answers, which is all the rest of the library uses of UTF-8.
-/

namespace FlatDB

/-- What a file holds. -/
abbrev Bytes := List UInt8

namespace Utf8

/-- The bytes of a text. -/
def encode (s : String) : Bytes :=
  s.toList.flatMap String.utf8EncodeChar

/-- The text that some bytes spell, if they spell one. -/
def decode? (bytes : Bytes) : Option String :=
  String.fromUTF8? bytes.toByteArray

@[simp]
theorem encode_empty : encode "" = [] := rfl

@[simp]
theorem encode_append (s t : String) : encode (s ++ t) = encode s ++ encode t := by
  simp [encode]

/-- The bytes are the ones the text is stored as. -/
theorem toByteArray_encode (s : String) : (encode s).toByteArray = s.toByteArray := by
  conv => rhs; rw [← String.ofList_toList (s := s), String.toByteArray_ofList]
  rfl

@[simp]
theorem decode?_encode (s : String) : decode? (encode s) = some s := by
  unfold decode? String.fromUTF8?
  rw [toByteArray_encode, dif_pos s.isValidUTF8]
  rfl

/-- Only the encoding of a text decodes to it. -/
theorem encode_of_decode? {bytes : Bytes} {s : String} (h : decode? bytes = some s) :
    encode s = bytes := by
  unfold decode? String.fromUTF8? at h
  split at h
  · cases h
    have := toByteArray_encode (String.fromUTF8 bytes.toByteArray ‹_›)
    have heq : (encode (String.fromUTF8 bytes.toByteArray ‹_›)).toByteArray = bytes.toByteArray := this
    simpa using heq
  · cases h

end Utf8

end FlatDB
