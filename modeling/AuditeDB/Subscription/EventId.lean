import Mathlib
import AuditeDB.WorldPath
import AuditeDB.Engine.Feed

/-!
# Resume ids on the wire

A subscription event id travels as `world@generation=seq` with the world percent-encoded. The reader splits from
the right, checks each part and accepts only the text that the writer produces for the id it read.
-/

namespace AuditeDB

open Utf8 Results Percent Lexemes

/-- `InvalidSubscriptionEventId`. -/
inductive InvalidSubscriptionEventId where
  | missingSeqDelimiter | missingGenerationDelimiter | invalidWorldUtf8 | worldPath (reason : String) | memoryWorld
  | generationWrongLength | generationNotLowerHex | seqNotInteger | seqOutOfRange | seqNonPositive | nonCanonical
deriving DecidableEq

/-- The bytes that an event id keeps: letters, digits and five marks. -/
def isEventIdPlain (byte : UInt8) : Bool :=
  (48 ≤ byte && byte ≤ 57) || (65 ≤ byte && byte ≤ 90) || (97 ≤ byte && byte ≤ 122) ||
    (utf8Bytes "/_.~-").contains byte

/-- A kept byte is ASCII. -/
theorem ascii_of_isEventIdPlain (byte : UInt8) (h : isEventIdPlain byte = true) : byte.toNat < 128 := by
  have hall : ∀ n < 256, isEventIdPlain (UInt8.ofNat n) = true → n < 128 := by decide +kernel
  exact hall byte.toNat byte.toNat_lt (by rwa [UInt8.ofNat_toNat])

/-- The bytes that an event id escapes. -/
def eventIdSet : EscapeSet where
  escapes byte := !isEventIdPlain byte
  percent := by decide
  ascii byte h := ascii_of_isEventIdPlain byte (by simpa using h)

/-- `encode_event_id_world`. -/
def encodeEventIdWorld (world : String) : String := encode eventIdSet world

/-- The text of an event id. -/
def SubscriptionEventId.toText (id : SubscriptionEventId) : String :=
  encodeEventIdWorld id.world.name ++ "@" ++ id.generation.text ++ "=" ++ toString id.seq.get

/-- The error for a rejected generation. -/
def generationError (reason : String) : InvalidSubscriptionEventId :=
  if reason = "WrongLength" then .generationWrongLength else .generationNotLowerHex

/-- The words that are read as a sequence number: digits, or digits behind a minus. -/
def isSeqWord : List Char → Bool
  | '-' :: rest => !rest.isEmpty && rest.all Char.isDigit
  | word => word.all Char.isDigit

/-- `SubscriptionEventId::from_sse_id`. -/
def SubscriptionEventId.fromSseId (raw : String) : Except InvalidSubscriptionEventId SubscriptionEventId := do
  let outer ← requireSome .missingSeqDelimiter (rsplitOnce ['='] raw.toList)
  let inner ← requireSome .missingGenerationDelimiter (rsplitOnce ['@'] outer.1)
  let worldName ← requireSome .invalidWorldUtf8 (decode (String.ofList inner.1))
  let world ← (ValidatedWorldPath.fromCanonical worldName).mapError .worldPath
  rejectIf (isMemoryWorld world) .memoryWorld
  let generation ← (WorldGeneration.new (String.ofList inner.2)).mapError generationError
  rejectIf outer.2.isEmpty .seqNotInteger
  rejectIf (isSeqWord outer.2 = false) .seqNotInteger
  let value ← (parseInt i64Range outer.2).mapError fun _ => .seqOutOfRange
  let seq ← (TimelineSeq.new value).mapError fun _ => .seqNonPositive
  let parsed : SubscriptionEventId := ⟨world, generation, seq⟩
  rejectIf (raw ≠ parsed.toText) .nonCanonical
  return parsed

/-- Printable ASCII without spaces. -/
def isPrintable (c : Char) : Bool := 0x21 ≤ c.val && c.val ≤ 0x7E

/-- The characters of an encoded world are printable. -/
theorem printable_encodeEventIdWorld (world : String) :
    ∀ c ∈ (encodeEventIdWorld world).toList, isPrintable c = true := by
  have hplain : ∀ n < 256, eventIdSet.escapes (UInt8.ofNat n) = false → isPrintable (Char.ofNat n) = true := by
    decide +kernel
  refine forall_mem_encode (fun c => isPrintable c = true) (by decide) (by decide) (fun byte hbyte => ?_) world
  exact hplain byte.toNat byte.toNat_lt (by rwa [UInt8.ofNat_toNat])

/-- The characters of a generation are lowercase hexadecimal digits. -/
theorem WorldGeneration.lowerHex_of_mem (generation : WorldGeneration) :
    ∀ c ∈ generation.text.toList, c.val ≤ 127 ∧ isLowerHexByte c.val.toUInt8 = true := by
  have hascii : ∀ n < 256, isLowerHexByte (UInt8.ofNat n) = true → n < 128 := by decide +kernel
  refine forall_toList_of_forall_bytes (fun byte hbyte => ?_) ?_
  · exact hascii byte.toNat byte.toNat_lt (by rwa [UInt8.ofNat_toNat])
  · exact (Bool.and_eq_true_iff.mp generation.lowerHex).2

/-- The three parts of the text of an id. -/
theorem SubscriptionEventId.toList_toText (id : SubscriptionEventId) :
    id.toText.toList = ((encodeEventIdWorld id.world.name).toList ++ '@' :: id.generation.text.toList) ++
      '=' :: Nat.toDigits 10 id.seq.get.toNat := by
  simp only [toText, String.toList_append, toList_toString_int id.seq.positive.le]
  simp

/-- The text of an id is printable. -/
theorem SubscriptionEventId.printable_toText (id : SubscriptionEventId) :
    ∀ c ∈ id.toText.toList, isPrintable c = true := by
  have hhex : ∀ n < 128, isLowerHexByte (UInt8.ofNat n) = true → isPrintable (Char.ofNat n) = true := by
    decide +kernel
  intro c hc
  rw [id.toList_toText, List.mem_append, List.mem_append, List.mem_cons, List.mem_cons] at hc
  rcases hc with (hworld | rfl | hgeneration) | rfl | hdigit
  · exact printable_encodeEventIdWorld id.world.name c hworld
  · rfl
  · obtain ⟨hascii, hlower⟩ := id.generation.lowerHex_of_mem c hgeneration
    have hprintable := hhex c.toNat (Nat.lt_succ_of_le hascii) hlower
    rwa [Char.ofNat_toNat] at hprintable
  · rfl
  · have hdigit := isDigit_of_mem hdigit
    simp only [Char.isDigit, Bool.and_eq_true, decide_eq_true_eq] at hdigit
    simp only [isPrintable, Bool.and_eq_true, decide_eq_true_eq]
    exact ⟨UInt32.le_trans (by decide) hdigit.1, UInt32.le_trans hdigit.2 (by decide)⟩

/-- The text of an id is read back; a sequence number of the source is an `i64`. -/
theorem SubscriptionEventId.fromSseId_toText {id : SubscriptionEventId} (hdurable : isMemoryWorld id.world = false)
    (hseq : id.seq.get ≤ i64Max) : fromSseId id.toText = .ok id := by
  have hdigits : ∀ c ∈ Nat.toDigits 10 id.seq.get.toNat, c.isDigit = true := fun c hc => isDigit_of_mem hc
  have houter : rsplitOnce ['='] id.toText.toList =
      some ((encodeEventIdWorld id.world.name).toList ++ '@' :: id.generation.text.toList,
        Nat.toDigits 10 id.seq.get.toNat) := by
    rw [id.toList_toText]
    exact rsplitOnce_singleton _ fun h => absurd (hdigits _ h) (by decide)
  have hinner : rsplitOnce ['@'] ((encodeEventIdWorld id.world.name).toList ++ '@' :: id.generation.text.toList) =
      some ((encodeEventIdWorld id.world.name).toList, id.generation.text.toList) :=
    rsplitOnce_singleton _ fun h => absurd (id.generation.lowerHex_of_mem _ h).2 (by decide)
  have hworld : decode (encodeEventIdWorld id.world.name) = some id.world.name := decode_encode eventIdSet _
  have hword : isSeqWord (Nat.toDigits 10 id.seq.get.toNat) = true := by
    unfold isSeqWord
    split
    · next rest h => exact absurd (hdigits '-' (by simp [h])) (by decide)
    · exact List.all_eq_true.mpr hdigits
  have hcast : ((id.seq.get.toNat : Nat) : Int) = id.seq.get := Int.toNat_of_nonneg id.seq.positive.le
  have hvalue : parseInt i64Range (Nat.toDigits 10 id.seq.get.toNat) = .ok id.seq.get := by
    rw [parseInt_toDigits (hcast ▸ hseq), hcast]
  simp only [fromSseId, houter, hinner, hworld, hword, hvalue, requireSome, ok_bind, String.ofList_toList,
    ValidatedWorldPath.fromCanonical_name, Except.mapError, hdurable, Bool.false_eq_true, rejectIf_false,
    WorldGeneration.new_text, TimelineSeq.new_get, List.isEmpty_iff, Nat.toDigits_ne_nil, ne_eq, not_true_eq_false,
    Bool.true_eq_false]
  rfl

/-- An accepted text is the text of its id. -/
theorem SubscriptionEventId.fromSseId_eq_ok {raw : String} {id : SubscriptionEventId}
    (h : fromSseId raw = .ok id) : id.toText = raw := by
  simp only [fromSseId, bind_eq_ok, rejectIf_eq_ok, pure_eq_ok, not_not] at h
  obtain ⟨_, -, _, -, _, -, world, -, -, -, generation, -, -, -, -, -, _, -, seq, -, -, hraw, rfl⟩ := h
  exact hraw.symm

/-- Resume ids round-trip: the text of every id of a durable world is read back as the id, is printable and is
different from the text of any other such id, and a text that is accepted is the text of the id it is read as. -/
theorem eventId_roundTrip :
    (∀ id : SubscriptionEventId, isMemoryWorld id.world = false → id.seq.get ≤ i64Max →
      SubscriptionEventId.fromSseId id.toText = .ok id ∧ ∀ c ∈ id.toText.toList, isPrintable c = true) ∧
    (∀ id other : SubscriptionEventId, isMemoryWorld id.world = false → id.seq.get ≤ i64Max →
      isMemoryWorld other.world = false → other.seq.get ≤ i64Max → id.toText = other.toText → id = other) ∧
    ∀ (raw : String) (id : SubscriptionEventId),
      SubscriptionEventId.fromSseId raw = .ok id → id.toText = raw := by
  refine ⟨fun id hdurable hseq => ?_, fun id other hid hidSeq hother hotherSeq htext => ?_, fun raw id h => ?_⟩
  · exact ⟨id.fromSseId_toText hdurable hseq, id.printable_toText⟩
  · have hread := id.fromSseId_toText hid hidSeq
    rw [htext, other.fromSseId_toText hother hotherSeq] at hread
    exact (Except.ok.inj hread).symm
  · exact SubscriptionEventId.fromSseId_eq_ok h

/-- The text of a generation. -/
theorem Sample.hex_delimitedId : isLowerHexLen "0123456789abcdef0123456789abcdef" 32 = true := by decide +kernel

/-- An id of a world whose name has both delimiters and bytes that are escaped. -/
def Sample.delimitedId : SubscriptionEventId where
  world := ⟨"home/a@b=c %é", by decide +kernel⟩
  generation := ⟨"0123456789abcdef0123456789abcdef", Sample.hex_delimitedId⟩
  seq := ⟨42, by decide⟩

/-- The round trip of that id. -/
theorem eventId_roundTrip_delimited :
    SubscriptionEventId.fromSseId Sample.delimitedId.toText = .ok Sample.delimitedId ∧
      Sample.delimitedId.toText = "home/a%40b%3Dc%20%25%C3%A9@0123456789abcdef0123456789abcdef=42" :=
  ⟨(eventId_roundTrip.1 Sample.delimitedId (by decide +kernel) (by decide)).1, by decide +kernel⟩

end AuditeDB
