import Mathlib

/-!
# Byte strings of texts and numbers

The bytes of a text, the decimal rendering of a number and the lowercase hexadecimal rendering of a byte
string. All three are injective, and the renderings consist of ASCII bytes only.
-/

namespace Utf8

/-- The UTF-8 bytes of a text. -/
def utf8Bytes (text : String) : List UInt8 := text.toByteArray.data.toList

/-- A text is determined by its bytes. -/
theorem utf8Bytes_injective : Function.Injective utf8Bytes := by
  intro s t h
  rw [← String.toByteArray_inj, ByteArray.ext_iff]
  exact Array.toList_inj.mp h

/-- The text with the given bytes, if they are well-formed. -/
def fromUtf8 (bytes : List UInt8) : Option String := String.fromUTF8? ⟨bytes.toArray⟩

/-- Decoding yields exactly the text with the given bytes. -/
theorem fromUtf8_eq_some {bytes : List UInt8} {text : String} :
    fromUtf8 bytes = some text ↔ utf8Bytes text = bytes := by
  unfold fromUtf8 String.fromUTF8?
  constructor
  · intro h
    split_ifs at h with hvalid
    cases h
    rfl
  · rintro rfl
    have hbytes : (⟨(utf8Bytes text).toArray⟩ : ByteArray) = text.toByteArray := rfl
    rw [hbytes, dif_pos text.isValidUTF8]
    rfl

/-- The bytes of a concatenation. -/
@[simp] theorem utf8Bytes_append (s t : String) : utf8Bytes (s ++ t) = utf8Bytes s ++ utf8Bytes t := by
  simp [utf8Bytes, String.toByteArray_append, ByteArray.data_append]

/-- The bytes of a text are those of its characters. -/
theorem utf8Bytes_eq_flatMap (text : String) : utf8Bytes text = text.toList.flatMap String.utf8EncodeChar := by
  have hbytes : utf8Bytes (String.ofList text.toList) = text.toList.flatMap String.utf8EncodeChar := by
    simp only [utf8Bytes, String.toByteArray_ofList, List.utf8Encode, List.data_toByteArray]
  rwa [String.ofList_toList] at hbytes

/-- An ASCII character is one byte. -/
theorem utf8EncodeChar_ascii {c : Char} (hc : c.val ≤ 127) : String.utf8EncodeChar c = [c.val.toUInt8] := by
  apply String.utf8EncodeChar_eq_singleton
  simp [Char.utf8Size, hc]

/-- The bytes of a text made of ASCII characters are their code points. -/
theorem utf8Bytes_ofList_ascii {chars : List Char} (hascii : ∀ c ∈ chars, c.val ≤ 127) :
    utf8Bytes (String.ofList chars) = chars.map fun c => c.val.toUInt8 := by
  rw [utf8Bytes_eq_flatMap, String.toList_ofList]
  induction chars with
  | nil => rfl
  | cons c rest ih =>
    rw [List.flatMap_cons, utf8EncodeChar_ascii (hascii c (List.mem_cons_self ..)),
      ih fun d hd => hascii d (List.mem_cons_of_mem _ hd)]
    rfl

/-- A character outside ASCII has a byte outside ASCII. -/
theorem exists_byte_of_nonAscii {c : Char} (hc : ¬ c.val ≤ 127) :
    ∃ byte ∈ String.utf8EncodeChar c, 128 ≤ byte.toNat := by
  have hval : ¬ c.val.toNat ≤ 127 := hc
  unfold String.utf8EncodeChar
  simp only [if_neg hval]
  -- In every longer form the last byte is a continuation byte.
  refine ⟨UInt8.ofNat (c.val.toNat % 64 + 128), ?_, ?_⟩
  · split_ifs <;> simp
  · rw [UInt8.toNat_ofNat']
    omega

/-- A property of ASCII bytes that holds of the bytes of a text holds of its characters. -/
theorem forall_toList_of_forall_bytes {p : UInt8 → Bool} (hp : ∀ byte, p byte = true → byte.toNat < 128)
    {text : String} (htext : (utf8Bytes text).all p = true) :
    ∀ c ∈ text.toList, c.val ≤ 127 ∧ p c.val.toUInt8 = true := by
  intro c hc
  have hbytes : ∀ byte ∈ String.utf8EncodeChar c, p byte = true := fun byte hbyte => by
    rw [utf8Bytes_eq_flatMap] at htext
    exact List.all_eq_true.mp htext byte (List.mem_flatMap.mpr ⟨c, hc, hbyte⟩)
  have hascii : c.val ≤ 127 := by
    by_contra hnot
    obtain ⟨byte, hbyte, hhigh⟩ := exists_byte_of_nonAscii hnot
    have hlow := hp byte (hbytes byte hbyte)
    omega
  exact ⟨hascii, hbytes _ (by rw [utf8EncodeChar_ascii hascii]; exact List.mem_singleton_self _)⟩

/-- The bytes of the decimal rendering of a number. -/
def decimalBytes (n : Nat) : List UInt8 := utf8Bytes (toString n)

/-- A number is determined by its decimal rendering. -/
theorem decimalBytes_injective : Function.Injective decimalBytes := by
  intro m n h
  have htext : toString m = toString n := utf8Bytes_injective h
  rw [Nat.toString_eq_repr, Nat.toString_eq_repr] at htext
  exact Nat.repr_inj.mp htext

/-- A decimal rendering has no zero byte. -/
theorem zero_notMem_decimalBytes (n : Nat) : 0 ∉ decimalBytes n := by
  have hdigit : ∀ c ∈ Nat.toDigits 10 n, 48 ≤ c.val ∧ c.val ≤ 57 := by
    intro c hc
    simpa [Char.isDigit] using Nat.isDigit_of_mem_toDigits (by decide) (by decide) hc
  have hascii : ∀ c ∈ Nat.toDigits 10 n, c.val ≤ 127 := fun c hc =>
    UInt32.le_trans (hdigit c hc).2 (by decide)
  rw [decimalBytes, Nat.toString_eq_repr, Nat.repr_eq_ofList_toDigits, utf8Bytes_ofList_ascii hascii]
  intro hzero
  obtain ⟨c, hc, hval⟩ := List.mem_map.mp hzero
  obtain ⟨hlow, hhigh⟩ := hdigit c hc
  have hnat : c.val.toNat % 256 = 0 := congrArg UInt8.toNat hval
  have hlow' : 48 ≤ c.val.toNat := hlow
  have hhigh' : c.val.toNat ≤ 57 := hhigh
  omega

/-- The lowercase hexadecimal digit of a number below sixteen. -/
def hexDigit (n : Nat) : Char := if n < 10 then Char.ofNat (48 + n) else Char.ofNat (87 + n)

/-- The two lowercase hexadecimal digits of a byte. -/
def hexByte (b : UInt8) : List Char := [hexDigit (b.toNat / 16), hexDigit (b.toNat % 16)]

/-- The lowercase hexadecimal rendering of a byte string. -/
def hexEncode (bytes : List UInt8) : String := String.ofList (bytes.flatMap hexByte)

/-- The test for a lowercase hexadecimal digit. -/
def isLowerHexByte (b : UInt8) : Bool := (48 ≤ b && b ≤ 57) || (97 ≤ b && b ≤ 102)

/-- The test for a text of a given byte length made of lowercase hexadecimal digits. -/
def isLowerHexLen (text : String) (len : Nat) : Bool :=
  (utf8Bytes text).length == len && (utf8Bytes text).all isLowerHexByte

/-- A hexadecimal digit is an ASCII character and passes the test. -/
theorem hexDigit_lowerHex : ∀ n < 16,
    (hexDigit n).val ≤ 127 ∧ isLowerHexByte (hexDigit n).val.toUInt8 = true := by
  decide

/-- A number below sixteen is determined by its digit. -/
theorem hexDigit_inj : ∀ m < 16, ∀ n < 16, hexDigit m = hexDigit n → m = n := by
  decide

/-- The two digits of a byte are ASCII characters and pass the test. -/
theorem hexByte_lowerHex (b : UInt8) :
    ∀ c ∈ hexByte b, c.val ≤ 127 ∧ isLowerHexByte c.val.toUInt8 = true := by
  have hb : b.toNat < 256 := b.toNat_lt
  intro c hc
  obtain rfl | rfl : c = _ ∨ c = _ := by simpa [hexByte] using hc
  · exact hexDigit_lowerHex _ (by omega)
  · exact hexDigit_lowerHex _ (by omega)

/-- A byte is determined by its two hexadecimal digits. -/
theorem hexByte_injective : Function.Injective hexByte := by
  intro b c h
  have hb : b.toNat < 256 := b.toNat_lt
  have hc : c.toNat < 256 := c.toNat_lt
  obtain ⟨hhigh, hlow⟩ : hexDigit (b.toNat / 16) = hexDigit (c.toNat / 16) ∧
      hexDigit (b.toNat % 16) = hexDigit (c.toNat % 16) := by simpa [hexByte] using h
  have hhigh' := hexDigit_inj _ (by omega) _ (by omega) hhigh
  have hlow' := hexDigit_inj _ (by omega) _ (by omega) hlow
  exact UInt8.toNat_inj.mp (by omega)

/-- The bytes of a hexadecimal rendering, two for each byte. -/
theorem utf8Bytes_hexEncode (bytes : List UInt8) :
    utf8Bytes (hexEncode bytes) = bytes.flatMap fun b => (hexByte b).map fun c => c.val.toUInt8 := by
  rw [hexEncode, utf8Bytes_ofList_ascii, List.map_flatMap]
  intro c hc
  obtain ⟨b, -, hb⟩ := List.mem_flatMap.mp hc
  exact (hexByte_lowerHex b c hb).1

/-- A hexadecimal rendering passes the test for lowercase hexadecimal digits. -/
theorem isLowerHexLen_hexEncode (bytes : List UInt8) :
    isLowerHexLen (hexEncode bytes) (2 * bytes.length) = true := by
  rw [isLowerHexLen, utf8Bytes_hexEncode, Bool.and_eq_true, beq_iff_eq, List.all_eq_true]
  refine ⟨?_, fun c hc => ?_⟩
  · induction bytes with
    | nil => rfl
    | cons b rest ih => simp only [List.flatMap_cons, List.length_append, ih]; simp [hexByte]; omega
  · obtain ⟨b, -, hb⟩ := List.mem_flatMap.mp hc
    obtain ⟨d, hd, rfl⟩ := List.mem_map.mp hb
    exact (hexByte_lowerHex b d hd).2

/-- A byte string is determined by its hexadecimal rendering. -/
theorem hexEncode_injective : Function.Injective hexEncode := by
  intro a b h
  have hchars : a.flatMap hexByte = b.flatMap hexByte := String.ofList_inj.mp h
  clear h
  induction a generalizing b with
  | nil => cases b with
    | nil => rfl
    | cons c rest => simp [hexByte] at hchars
  | cons x xs ih => cases b with
    | nil => simp [hexByte] at hchars
    | cons y ys =>
      rw [List.flatMap_cons, List.flatMap_cons] at hchars
      obtain ⟨hhead, htail⟩ := List.append_inj hchars rfl
      rw [hexByte_injective hhead, ih htail]

end Utf8
