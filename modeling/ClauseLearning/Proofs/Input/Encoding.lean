import ClauseLearning.Dimacs.Reader
import Mathlib.Data.List.Basic

/-! # Texts as bytes

A line feed is a byte of its own in UTF-8, and no other character has that byte within. So the lines of
the bytes of a text are the bytes of its lines, each of which can be decoded, and a text has the same
lines whether it is given as characters or as bytes.
-/

namespace ClauseLearning.Dimacs

/-- The bytes of a text in UTF-8. -/
def encode (text : List Char) : List UInt8 := text.flatMap String.utf8EncodeChar

theorem encode_cons (c : Char) (rest : List Char) :
    encode (c :: rest) = String.utf8EncodeChar c ++ encode rest :=
  List.flatMap_cons

theorem decodeLine_encode (line : List Char) : decodeLine (encode line) = .ok line := by
  have bytes : (⟨(encode line).toArray⟩ : ByteArray) = line.utf8Encode := by
    rw [List.utf8Encode]
    exact ByteArray.ext List.data_toByteArray.symm
  rw [decodeLine, bytes, List.utf8Decode?_utf8Encode]

/-- Only a line feed has the byte of a line feed. -/
theorem not_feed_of_mem_encodeChar {c : Char} (other : c ≠ '\n') :
    ∀ b ∈ String.utf8EncodeChar c, (b == 10) = false := by
  have apart : c.val.toNat ≠ 10 := fun same => other (Char.toNat_inj.mp same)
  have byte {n : Nat} (small : n < 256) (ne : n ≠ 10) : (UInt8.ofNat n == 10) = false := by
    rw [beq_eq_false_iff_ne]
    intro same
    have := congrArg UInt8.toNat same
    rw [UInt8.toNat_ofNat_of_lt' small] at this
    exact ne this
  simp only [String.utf8EncodeChar]
  split
  · simpa using byte (by omega) apart
  split
  · simp only [List.mem_cons, List.not_mem_nil, or_false, forall_eq_or_imp, forall_eq]
    exact ⟨byte (by omega) (by omega), byte (by omega) (by omega)⟩
  split
  · simp only [List.mem_cons, List.not_mem_nil, or_false, forall_eq_or_imp, forall_eq]
    exact ⟨byte (by omega) (by omega), byte (by omega) (by omega), byte (by omega) (by omega)⟩
  · simp only [List.mem_cons, List.not_mem_nil, or_false, forall_eq_or_imp, forall_eq]
    exact ⟨byte (by omega) (by omega), byte (by omega) (by omega), byte (by omega) (by omega),
      byte (by omega) (by omega)⟩

theorem encodeChar_feed : String.utf8EncodeChar '\n' = [10] := by decide

/-- What comes before the first separator belongs to the first piece. -/
theorem splitOnP_append {α : Type} {isSep : α → Bool} {front : List α}
    (inside : ∀ x ∈ front, isSep x = false) (rest : List α) :
    (front ++ rest).splitOnP isSep = (rest.splitOnP isSep).modifyHead (front ++ ·) := by
  induction front with
  | nil =>
    rw [List.nil_append]
    cases rest.splitOnP isSep <;> rfl
  | cons x front ih =>
    obtain ⟨first, others⟩ := List.forall_mem_cons.mp inside
    rw [List.cons_append, List.splitOnP_cons_eq_if_modifyHead, first, ih others]
    cases rest.splitOnP isSep <;> rfl

theorem splitOnP_encode (text : List Char) :
    (encode text).splitOnP (· == 10) = (text.splitOnP (· == '\n')).map encode := by
  induction text with
  | nil => rfl
  | cons c rest ih =>
    by_cases feed : c = '\n'
    · subst feed
      rw [encode_cons, encodeChar_feed, List.singleton_append, List.splitOnP_cons_eq_if_modifyHead,
        List.splitOnP_cons_eq_if_modifyHead, ih]
      rfl
    · obtain ⟨first, others, pieces⟩ :=
        List.exists_cons_of_ne_nil (List.splitOnP_ne_nil (· == '\n') rest)
      rw [encode_cons, splitOnP_append (not_feed_of_mem_encodeChar feed), ih,
        List.splitOnP_cons_eq_if_modifyHead, pieces]
      simp [feed, encode_cons]

theorem encode_isEmpty (text : List Char) : (encode text).isEmpty = text.isEmpty := by
  cases text with
  | nil => rfl
  | cons c rest => simp [encode_cons, String.utf8EncodeChar_ne_nil]

theorem splitLines_encode (text : List Char) :
    splitLines (· == 10) (encode text) = (splitLines (· == '\n') text).map encode := by
  simp only [splitLines, splitOnP_encode, List.getLast?_map, Option.any_map, encode_isEmpty]
  split
  · exact List.map_dropLast.symm
  · rfl

/-- A text has the same lines as its bytes. -/
theorem byteLines_encode (text : List Char) : byteLines (encode text) = textLines text := by
  rw [byteLines, textLines, splitLines_encode, List.map_map]
  exact List.map_congr_left fun line _ => decodeLine_encode line

end ClauseLearning.Dimacs
