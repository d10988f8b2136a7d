import Mathlib
import AuditeDB.Library.Utf8

/-!
# Percent-encoding

A text is written in ASCII by escaping the bytes of a set as `%XX` with upper-case digits. The decoder reads both
cases of the digits and lets a `%` without two digits pass, so that it is total on bytes. It inverts the encoder
for every set that has `%` and all bytes outside ASCII.
-/

namespace Percent

open Utf8

/-- The bytes that are escaped. -/
structure EscapeSet where
  escapes : UInt8 → Bool
  percent : escapes 37 = true
  ascii : ∀ byte, escapes byte = false → byte.toNat < 128

/-- The upper-case hexadecimal digit of a number below sixteen. -/
def upperHexDigit (n : Nat) : Char := if n < 10 then Char.ofNat (48 + n) else Char.ofNat (55 + n)

/-- The encoding of one byte. -/
def encodeByte (set : EscapeSet) (byte : UInt8) : List Char :=
  if set.escapes byte then ['%', upperHexDigit (byte.toNat / 16), upperHexDigit (byte.toNat % 16)]
  else [Char.ofNat byte.toNat]

/-- The encoding of a text. -/
def encode (set : EscapeSet) (text : String) : String :=
  String.ofList ((utf8Bytes text).flatMap (encodeByte set))

/-- The value of a hexadecimal digit of either case. -/
def hexValue (byte : UInt8) : Option UInt8 :=
  if 48 ≤ byte ∧ byte ≤ 57 then some (byte - 48)
  else if 97 ≤ byte ∧ byte ≤ 102 then some (byte - 87)
  else if 65 ≤ byte ∧ byte ≤ 70 then some (byte - 55)
  else none

/-- The bytes of an encoded text. -/
def decodeBytes : List UInt8 → List UInt8
  | byte :: high :: low :: rest =>
    if byte = 37 then
      match hexValue high, hexValue low with
      | some h, some l => (h * 16 + l) :: decodeBytes rest
      | _, _ => byte :: decodeBytes (high :: low :: rest)
    else byte :: decodeBytes (high :: low :: rest)
  | byte :: rest => byte :: decodeBytes rest
  | [] => []

/-- The text of an encoded text, if its bytes are well-formed. -/
def decode (text : String) : Option String := fromUtf8 (decodeBytes (utf8Bytes text))

/-- A digit is an ASCII character and is read back. -/
theorem hexValue_upperHexDigit : ∀ n < 16, (upperHexDigit n).val ≤ 127 ∧
    hexValue (upperHexDigit n).val.toUInt8 = some (UInt8.ofNat n) := by
  decide

/-- The code point of the character of a byte. -/
theorem val_ofNat_byte (byte : UInt8) : (Char.ofNat byte.toNat).val.toUInt8 = byte := by
  have hbyte := byte.toNat_lt
  have hval : (Char.ofNat byte.toNat).val.toNat = byte.toNat := by
    change (Char.ofNat byte.toNat).toNat = byte.toNat
    rw [Char.toNat_ofNat, if_pos (by simp only [Nat.isValidChar]; omega)]
  apply UInt8.toNat_inj.mp
  rw [UInt32.toNat_toUInt8, hval]
  omega

/-- A property of the escape characters and of all plain characters holds of the whole encoding. -/
theorem forall_mem_encode {set : EscapeSet} (p : Char → Prop) (hpercent : p '%')
    (hdigit : ∀ n < 16, p (upperHexDigit n))
    (hplain : ∀ byte, set.escapes byte = false → p (Char.ofNat byte.toNat)) (text : String) :
    ∀ c ∈ (encode set text).toList, p c := by
  intro c hc
  rw [encode, String.toList_ofList] at hc
  obtain ⟨byte, -, hc⟩ := List.mem_flatMap.mp hc
  have hbyte := byte.toNat_lt
  unfold encodeByte at hc
  split at hc
  · rcases List.mem_cons.mp hc with rfl | hc
    · exact hpercent
    · rcases List.mem_pair.mp hc with rfl | rfl
      · exact hdigit _ (by omega)
      · exact hdigit _ (by omega)
  · next hescapes =>
    rw [List.mem_singleton.mp hc]
    exact hplain byte (by simpa using hescapes)

/-- An encoding is made of ASCII characters. -/
theorem ascii_of_mem_encode {set : EscapeSet} {text : String} {c : Char} (hc : c ∈ (encode set text).toList) :
    c.val ≤ 127 := by
  refine forall_mem_encode (fun c => c.val ≤ 127) (by decide) (fun n hn => (hexValue_upperHexDigit n hn).1) ?_
    text c hc
  intro byte hplain
  have hascii := set.ascii byte hplain
  have hnat : (Char.ofNat byte.toNat).toNat = byte.toNat := by
    rw [Char.toNat_ofNat, if_pos (by simp only [Nat.isValidChar]; omega)]
  change (Char.ofNat byte.toNat).toNat ≤ 127
  omega

/-- The bytes of an encoding, byte by byte. -/
theorem utf8Bytes_encode (set : EscapeSet) (text : String) :
    utf8Bytes (encode set text) =
      (utf8Bytes text).flatMap fun byte => (encodeByte set byte).map fun c => c.val.toUInt8 := by
  have hascii : ∀ c ∈ (utf8Bytes text).flatMap (encodeByte set), c.val ≤ 127 := fun c hc =>
    @ascii_of_mem_encode set text c (by rwa [encode, String.toList_ofList])
  rw [encode, utf8Bytes_ofList_ascii hascii, List.map_flatMap]

/-- An escaped byte takes three characters. -/
theorem length_utf8Bytes_encode (set : EscapeSet) (text : String) :
    (utf8Bytes (encode set text)).length =
      ((utf8Bytes text).map fun byte => if set.escapes byte then 3 else 1).sum := by
  rw [utf8Bytes_encode, List.length_flatMap]
  congr 1
  refine List.map_congr_left fun byte _ => ?_
  unfold encodeByte
  split <;> rfl

/-- A byte that is no `%` passes. -/
theorem decodeBytes_cons_of_ne {byte : UInt8} (hbyte : byte ≠ 37) (rest : List UInt8) :
    decodeBytes (byte :: rest) = byte :: decodeBytes rest := by
  match rest with
  | [] => rfl
  | [_] => rfl
  | high :: low :: rest => rw [decodeBytes, if_neg hbyte]

/-- Bytes without `%` pass. -/
theorem decodeBytes_append {lead : List UInt8} (hlead : 37 ∉ lead) (rest : List UInt8) :
    decodeBytes (lead ++ rest) = lead ++ decodeBytes rest := by
  induction lead with
  | nil => rfl
  | cons byte lead ih =>
    obtain ⟨hbyte, hlead⟩ := not_or.mp (mt List.mem_cons.mpr hlead)
    rw [List.cons_append, decodeBytes_cons_of_ne (Ne.symm hbyte), ih hlead]
    rfl

/-- An encoded byte is read back. -/
theorem decodeBytes_encodeByte (set : EscapeSet) (byte : UInt8) (rest : List UInt8) :
    decodeBytes ((encodeByte set byte).map (fun c => c.val.toUInt8) ++ rest) = byte :: decodeBytes rest := by
  have hbyte := byte.toNat_lt
  unfold encodeByte
  split
  · obtain ⟨-, hhigh⟩ := hexValue_upperHexDigit (byte.toNat / 16) (by omega)
    obtain ⟨-, hlow⟩ := hexValue_upperHexDigit (byte.toNat % 16) (by omega)
    have hvalue : UInt8.ofNat (byte.toNat / 16) * 16 + UInt8.ofNat (byte.toNat % 16) = byte := by
      apply UInt8.toNat_inj.mp
      simp only [UInt8.toNat_add, UInt8.toNat_mul, UInt8.toNat_ofNat', UInt8.toNat_ofNat]
      omega
    change decodeBytes (37 :: (upperHexDigit (byte.toNat / 16)).val.toUInt8 ::
      (upperHexDigit (byte.toNat % 16)).val.toUInt8 :: rest) = _
    rw [decodeBytes, if_pos rfl, hhigh, hlow]
    exact congrArg (· :: decodeBytes rest) hvalue
  · next hescapes =>
    have hne : byte ≠ 37 := fun h => hescapes (h ▸ set.percent)
    rw [List.map_singleton, val_ofNat_byte]
    exact decodeBytes_cons_of_ne hne rest

/-- The bytes of a text are read back from its encoding. -/
theorem decodeBytes_encode (set : EscapeSet) (text : String) :
    decodeBytes (utf8Bytes (encode set text)) = utf8Bytes text := by
  rw [utf8Bytes_encode]
  induction utf8Bytes text with
  | nil => rfl
  | cons byte bytes ih => rw [List.flatMap_cons, decodeBytes_encodeByte, ih]

/-- A text is read back from its encoding, also behind a plain lead. -/
theorem decode_append_encode (set : EscapeSet) {lead : String} (hlead : 37 ∉ utf8Bytes lead) (text : String) :
    decode (lead ++ encode set text) = some (lead ++ text) := by
  rw [decode, fromUtf8_eq_some, utf8Bytes_append, utf8Bytes_append, decodeBytes_append hlead, decodeBytes_encode]

/-- A text is read back from its encoding. -/
@[simp] theorem decode_encode (set : EscapeSet) (text : String) : decode (encode set text) = some text := by
  rw [decode, fromUtf8_eq_some, decodeBytes_encode]

/-- A text is determined by its encoding. -/
theorem encode_injective (set : EscapeSet) : Function.Injective (encode set) := by
  intro s t h
  have hdecode := congrArg decode h
  rw [decode_encode, decode_encode] at hdecode
  exact Option.some.inj hdecode

/-- Every `%` is followed by two hexadecimal digits. -/
inductive WellEscaped : List UInt8 → Prop
  | nil : WellEscaped []
  | plain {byte : UInt8} {rest : List UInt8} (hbyte : byte ≠ 37) (hrest : WellEscaped rest) :
    WellEscaped (byte :: rest)
  | escape {high low h l : UInt8} {rest : List UInt8} (hhigh : hexValue high = some h) (hlow : hexValue low = some l)
    (hrest : WellEscaped rest) : WellEscaped (37 :: high :: low :: rest)

/-- A well-formed escape is decoded. -/
theorem decodeBytes_escape {high low h l : UInt8} (hhigh : hexValue high = some h) (hlow : hexValue low = some l)
    (rest : List UInt8) : decodeBytes (37 :: high :: low :: rest) = (h * 16 + l) :: decodeBytes rest := by
  rw [decodeBytes, if_pos rfl, hhigh, hlow]

end Percent
