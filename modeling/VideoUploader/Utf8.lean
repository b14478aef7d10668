/-
UTF-8 as lists of bytes.

The shell moves bytes, Python reads characters. The encoding itself is the one
of the core library; this file states it on lists and adds what a byte-level
argument needs: bytes below `0x80` stand for themselves and never occur inside
another character, and a text that begins with another one's bytes begins with
its characters.
-/
import Mathlib.Data.List.Basic

set_option autoImplicit false

namespace Utf8

/-! ## Encoding and decoding -/

/-- The bytes of a text. -/
def encode (cs : List Char) : List UInt8 := cs.flatMap String.utf8EncodeChar

/-- The text some bytes stand for, when they are well-formed UTF-8. There is no other text for
bytes that are not: whoever reads them as text ends with an exception. -/
def decode (bs : List UInt8) : Option (List Char) :=
  (ByteArray.utf8Decode? bs.toByteArray).map Array.toList

@[simp] theorem encode_nil : encode [] = [] := rfl

theorem encode_cons (c : Char) (cs : List Char) :
    encode (c :: cs) = String.utf8EncodeChar c ++ encode cs := rfl

/-- Encoding works character by character, so it goes through a concatenation. -/
theorem encode_append (cs ds : List Char) : encode (cs ++ ds) = encode cs ++ encode ds :=
  List.flatMap_append

/-- The bridge to the library's encoding, which works on byte arrays. It is crossed here once,
and all that follows is about lists. -/
theorem toByteArray_encode (cs : List Char) : (encode cs).toByteArray = cs.utf8Encode := rfl

/-- What has been encoded can be decoded. -/
theorem decode_encode (cs : List Char) : decode (encode cs) = some cs := by
  rw [decode, toByteArray_encode, List.utf8Decode?_utf8Encode]
  rfl

/-- Different texts have different bytes. -/
theorem encode_injective : Function.Injective encode := by
  intro cs ds h
  have h2 : decode (encode cs) = decode (encode ds) := by rw [h]
  rw [decode_encode, decode_encode] at h2
  exact Option.some.inj h2

/-- Decoding is the partial inverse of encoding, so a text is found exactly when
the bytes are its encoding. -/
theorem decode_eq_some_iff {bs : List UInt8} {cs : List Char} :
    decode bs = some cs ↔ encode cs = bs := by
  constructor
  · intro h
    rw [decode, Option.map_eq_some_iff] at h
    obtain ⟨a, ha, rfl⟩ := h
    have hsome : (ByteArray.utf8Decode? bs.toByteArray).isSome := by rw [ha]; rfl
    have hget := ByteArray.utf8Encode_get_utf8Decode? (b := bs.toByteArray) (h := hsome)
    simp only [ha, Option.get_some] at hget
    rw [← toByteArray_encode] at hget
    exact List.toByteArray_inj.mp hget
  · rintro rfl
    exact decode_encode cs

/-! ## ASCII

A character below `0x80` is one byte, itself; every byte of any other character
has its top bit set. -/

/-- The byte of an ASCII character. -/
def byte (c : Char) : UInt8 := UInt8.ofNat c.toNat

/-- One of the characters UTF-8 leaves as single bytes. The shell and its tools give a meaning to
characters of this kind only. -/
def IsAscii (c : Char) : Prop := c.toNat < 0x80

instance (c : Char) : Decidable (IsAscii c) := by unfold IsAscii; infer_instance

/-- An ASCII character is the one byte of its number. -/
theorem encodeChar_of_isAscii {c : Char} (h : IsAscii c) :
    String.utf8EncodeChar c = [byte c] := by
  have hc : c.val.toNat ≤ 0x7f := Nat.le_of_lt_succ h
  rw [String.utf8EncodeChar]
  simp only [hc, if_true]
  rfl

theorem byte_lt_of_isAscii {c : Char} (h : IsAscii c) : byte c < 0x80 := by
  have hc : c.toNat < 128 := h
  rw [UInt8.lt_iff_toNat_lt, byte, UInt8.toNat_ofNat', Nat.mod_eq_of_lt (by omega)]
  exact h

theorem byte_injective_of_isAscii {c d : Char} (hc : IsAscii c) (hd : IsAscii d)
    (h : byte c = byte d) : c = d := by
  have hc' : c.toNat < 128 := hc
  have hd' : d.toNat < 128 := hd
  have hn : (byte c).toNat = (byte d).toNat := by rw [h]
  rw [byte, byte, UInt8.toNat_ofNat', UInt8.toNat_ofNat', Nat.mod_eq_of_lt (by omega),
    Nat.mod_eq_of_lt (by omega)] at hn
  exact Char.ext (UInt32.toNat_inj.mp hn)

/-- All bytes of any other character have their top bit set. One case for each length that an
encoding can have. -/
theorem le_of_mem_encodeChar {c : Char} (h : ¬ IsAscii c) {b : UInt8}
    (hb : b ∈ String.utf8EncodeChar c) : 0x80 ≤ b := by
  have hc : ¬ c.val.toNat ≤ 0x7f := fun hle => h (Nat.lt_succ_of_le hle)
  rw [String.utf8EncodeChar] at hb
  simp only [if_neg hc] at hb
  rw [UInt8.le_iff_toNat_le]
  split at hb
  · -- two bytes; three and four follow the same way
    simp only [List.mem_cons, List.not_mem_nil, or_false] at hb
    rcases hb with rfl | rfl <;> rw [UInt8.toNat_ofNat'] <;> simp only [UInt8.reduceToNat] <;> omega
  · split at hb
    · simp only [List.mem_cons, List.not_mem_nil, or_false] at hb
      rcases hb with rfl | rfl | rfl <;> rw [UInt8.toNat_ofNat'] <;>
        simp only [UInt8.reduceToNat] <;> omega
    · simp only [List.mem_cons, List.not_mem_nil, or_false] at hb
      rcases hb with rfl | rfl | rfl | rfl <;> rw [UInt8.toNat_ofNat'] <;>
        simp only [UInt8.reduceToNat] <;> omega

theorem encodeChar_ne_nil (c : Char) : String.utf8EncodeChar c ≠ [] := by
  intro h
  have hlen := String.length_utf8EncodeChar c
  rw [h] at hlen
  exact absurd hlen.symm (Nat.ne_of_gt c.utf8Size_pos)

/-- The byte of an ASCII character does not occur inside another character. This is what makes it
safe to look for a delimiter among bytes. -/
theorem byte_mem_encodeChar_iff {a c : Char} (ha : IsAscii a) :
    byte a ∈ String.utf8EncodeChar c ↔ a = c := by
  by_cases hc : IsAscii c
  · rw [encodeChar_of_isAscii hc, List.mem_singleton]
    exact ⟨byte_injective_of_isAscii ha hc, fun h => by rw [h]⟩
  · constructor
    · intro hmem
      exact absurd (byte_lt_of_isAscii ha) (UInt8.not_lt.mpr (le_of_mem_encodeChar hc hmem))
    · intro h
      exact absurd (h ▸ ha) hc

/-- **ASCII bytes are ASCII characters**, so a byte-level search for one finds the character. A
condition on a title's bytes can be read on its text, and the other way round. -/
theorem byte_mem_encode_iff {a : Char} {cs : List Char} (ha : IsAscii a) :
    byte a ∈ encode cs ↔ a ∈ cs := by
  rw [encode, List.mem_flatMap]
  constructor
  · rintro ⟨c, hc, hmem⟩
    rw [(byte_mem_encodeChar_iff ha).mp hmem]
    exact hc
  · intro h
    exact ⟨a, h, (byte_mem_encodeChar_iff ha).mpr rfl⟩

/-- **Bytes are cut where characters are**: when a text begins with the bytes of another one, it
begins with its characters. A tool that cuts bytes behind a whole text has cut no character in
two. -/
theorem encode_eq_encode_append {cs w : List Char} {y : List UInt8}
    (h : encode cs = encode w ++ y) : ∃ z, cs = w ++ z ∧ encode z = y := by
  have hbytes : w.utf8Encode ++ y.toByteArray = cs.utf8Encode := by
    rw [← toByteArray_encode, ← toByteArray_encode, h, List.toByteArray_append]
  obtain ⟨z, rfl⟩ := List.isPrefix_of_utf8Encode_append_eq_utf8Encode _ hbytes
  rw [encode_append] at h
  exact ⟨z, rfl, List.append_cancel_left h⟩

/-- An ASCII byte at the end is the last character. Used for the newline that ends what a command
prints. -/
theorem encode_eq_append_byte {cs : List Char} {a : Char} {x : List UInt8} (ha : IsAscii a)
    (h : encode cs = x ++ [byte a]) : ∃ z, cs = z ++ [a] ∧ encode z = x := by
  rcases cs.eq_nil_or_concat with rfl | ⟨z, c, rfl⟩
  · simp at h
  · rw [List.concat_eq_append] at h ⊢
    -- the last byte of the last character is the ASCII byte, so it is that character
    have hlast : (String.utf8EncodeChar c).getLast? = some (byte a) := by
      have hlast := congrArg List.getLast? h
      rw [encode_append, List.getLast?_append_of_ne_nil, List.getLast?_concat] at hlast
      · simpa [encode] using hlast
      · simp [encode]
    have hc : a = c := (byte_mem_encodeChar_iff ha).mp (List.mem_of_getLast? hlast)
    subst hc
    refine ⟨z, rfl, ?_⟩
    rw [encode_append] at h
    simpa [encode, encodeChar_of_isAscii ha] using h

end Utf8
