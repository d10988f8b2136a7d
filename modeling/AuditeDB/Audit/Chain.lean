import Mathlib
import AuditeDB.Schema
import AuditeDB.Library.Framing

/-!
# The signed fields of an audit row

The metadata digest and the event HMAC, both over length-prefixed labelled fields, and the canonical form of
headers and timestamps. The fields are determined by the bytes that are hashed.
-/

namespace AuditeDB

open Utf8 Framing Results

/-- `VerifyBreak`: where a chain breaks and why. -/
structure VerifyBreak where
  breakAt : Nat
  expected : String
  actual : String
deriving DecidableEq

/-- `AuditError`. -/
inductive AuditError where
  | chainBroken (report : VerifyBreak)
  | storage (error : SqlError)
deriving DecidableEq

/-- The result of an audit function. -/
abbrev AuditResult (α : Type) : Type := Except AuditError α

/-- A database result as an audit result. -/
def liftSql {α : Type} (result : SqlResult α) : AuditResult α := result.mapError .storage

/-- Lifting a storage result keeps its success. -/
theorem liftSql_eq_ok {α : Type} {result : SqlResult α} {a : α} : liftSql result = .ok a ↔ result = .ok a := by
  cases result <;> simp [liftSql, Except.mapError]

/-- `WORLD_FORMAT_VERSION_HEADER`. -/
def worldFormatVersionHeader : String := "auditedb-world-format-version"

/-- `EventRow`: a row of `events` with its columns read. -/
structure EventRow where
  id : Int
  timestamp : String
  eventType : String
  target : String
  bodySha256 : String
  size : Int
  contentType : String
  metaSha256 : String
  hmac : String
  prevHmac : String
deriving DecidableEq

/-- Read the columns of a row of `events`. -/
def EventRecord.read (e : EventRecord) : SqlResult EventRow := do
  let timestamp ← e.timestamp.getString
  let eventType ← e.eventType.getString
  let target ← e.target.getString
  let bodySha256 ← e.bodySha256.getString
  let size ← e.size.getI64
  let contentType ← e.contentType.getString
  let metaSha256 ← e.metaSha256.getString
  let hmac ← e.hmac.getString
  let prevHmac ← e.prevHmac.getString
  pure ⟨e.id, timestamp, eventType, target, bodySha256, size, contentType, metaSha256, hmac, prevHmac⟩

/-- The stored form of a row. -/
def EventRow.record (row : EventRow) : EventRecord :=
  ⟨row.id, .text row.timestamp, .text row.eventType, .text row.target, .text row.bodySha256,
    .integer row.size, .text row.contentType, .text row.metaSha256, .text row.hmac, .text row.prevHmac⟩

/-- A stored row reads back as itself. -/
@[simp] theorem EventRow.read_record (row : EventRow) : row.record.read = .ok row := rfl

/-- A row that can be read is the stored form of what is read. -/
theorem EventRecord.read_eq_ok {e : EventRecord} {row : EventRow} : e.read = .ok row ↔ e = row.record := by
  constructor
  · intro h
    unfold EventRecord.read at h
    simp only [bind_eq_ok, pure_eq_ok, SqlValue.getString_eq_ok, SqlValue.getI64_eq_ok] at h
    obtain ⟨_, h₁, _, h₂, _, h₃, _, h₄, _, h₅, _, h₆, _, h₇, _, h₈, _, h₉, rfl⟩ := h
    cases e
    simp_all [EventRow.record]
  · rintro rfl
    rfl

/-- A header list as it is hashed and stored. -/
abbrev Headers : Type := List (String × String)

/-- The fields under the metadata digest. -/
def metaFields (contentType : String) (headers : Headers) : List (Bytes × Bytes) :=
  (utf8Bytes "content-type", utf8Bytes contentType) ::
    headers.flatMap fun h =>
      [(utf8Bytes "header-name", utf8Bytes h.1), (utf8Bytes "header-value", utf8Bytes h.2)]

/-- The bytes under the metadata digest. -/
def metaBytes (contentType : String) (headers : Headers) : Bytes :=
  encodeFields (metaFields contentType headers)

/-- `meta_sha256_canonical`. -/
def metaSha256Canonical [HashSuite] (contentType : String) (headers : Headers) : String :=
  sha256Hex (metaBytes contentType headers)

/-- `is_canonical_sqlite_utc_timestamp`: the form `YYYY-MM-DDTHH:MM:SS.mmmZ`. -/
def isCanonicalSqliteUtcTimestamp (value : String) : Bool :=
  let bytes := utf8Bytes value
  bytes.length == 24 && bytes[4]? == some 45 && bytes[7]? == some 45 && bytes[10]? == some 84 &&
    bytes[13]? == some 58 && bytes[16]? == some 58 && bytes[19]? == some 46 && bytes[23]? == some 90 &&
    bytes.zipIdx.all fun (byte, idx) =>
      [4, 7, 10, 13, 16, 19, 23].contains idx || (48 ≤ byte && byte ≤ 57)

/-- `AuditTimestamp`. -/
@[ext] structure AuditTimestamp where
  text : String
  canonical : isCanonicalSqliteUtcTimestamp text = true
deriving DecidableEq

/-- `AuditTimestamp::from_storage`. -/
def AuditTimestamp.fromStorage (raw : String) : Except String AuditTimestamp :=
  if h : isCanonicalSqliteUtcTimestamp raw = true then .ok ⟨raw, h⟩ else .error raw

/-- A timestamp passes its own check. -/
@[simp] theorem AuditTimestamp.fromStorage_text (timestamp : AuditTimestamp) :
    AuditTimestamp.fromStorage timestamp.text = .ok timestamp := by
  simp [AuditTimestamp.fromStorage, timestamp.canonical]

/-- What an accepted timestamp is. -/
theorem AuditTimestamp.fromStorage_eq_ok {raw : String} {timestamp : AuditTimestamp}
    (h : AuditTimestamp.fromStorage raw = .ok timestamp) : timestamp.text = raw := by
  unfold AuditTimestamp.fromStorage at h
  split_ifs at h
  cases h
  rfl

/-- `EventHmacInput`: the values that an event HMAC signs. -/
structure EventHmacInput where
  prev : String
  world : ValidatedWorldPath
  timestamp : AuditTimestamp
  eventType : String
  target : String
  generation : WorldGeneration
  bodySha256 : String
  size : Int
  contentType : String
  metaSha256 : String
deriving DecidableEq

/-- The fields under an event HMAC. -/
def EventHmacInput.fields (input : EventHmacInput) : List (Bytes × Bytes) :=
  [(utf8Bytes "prev", utf8Bytes input.prev), (utf8Bytes "world", utf8Bytes input.world.name),
    (utf8Bytes "timestamp", utf8Bytes input.timestamp.text), (utf8Bytes "type", utf8Bytes input.eventType),
    (utf8Bytes "target", utf8Bytes input.target), (utf8Bytes "gen", utf8Bytes input.generation.text),
    (utf8Bytes "body-sha256", utf8Bytes input.bodySha256),
    (utf8Bytes "size", utf8Bytes (toString input.size)),
    (utf8Bytes "content-type", utf8Bytes input.contentType),
    (utf8Bytes "meta-sha256", utf8Bytes input.metaSha256)]

/-- The bytes under an event HMAC. -/
def EventHmacInput.bytes (input : EventHmacInput) : Bytes := encodeFields input.fields

/-- `event_hmac`. -/
def eventHmac [HashSuite] (key : AuditHmacKey) (input : EventHmacInput) : String :=
  hexEncode (HashSuite.hmacSha256 key.bytes input.bytes).1

/-- `hmac_label`. -/
def hmacLabel (raw : String) : String :=
  if raw.isEmpty then "hmac-" else if startsWith raw "hmac-" then raw else "hmac-" ++ raw

/-- The order of headers: by name, then by value, both by bytes. -/
def headerKey (h : String × String) : List Nat ×ₗ List Nat :=
  toLex (SqlValue.octets (utf8Bytes h.1), SqlValue.octets (utf8Bytes h.2))

/-- `canonical_headers`: lowercase names in sorted order. -/
def canonicalHeaders (headers : Headers) : Headers :=
  (headers.map fun h => (toAsciiLowercase h.1, h.2)).insertionSort fun a b => headerKey a ≤ headerKey b

/-- The labels of the signed fields have no zero byte. -/
theorem zeroFree_labels : ∀ label ∈ ["content-type", "header-name", "header-value", "prev", "world",
    "timestamp", "type", "target", "gen", "body-sha256", "size", "meta-sha256"],
    ZeroFree (utf8Bytes label) := by
  unfold ZeroFree
  decide

/-- The metadata digest determines the content type and the headers. -/
theorem metaBytes_inj {contentType contentType' : String} {headers headers' : Headers}
    (h : metaBytes contentType headers = metaBytes contentType' headers') :
    contentType = contentType' ∧ headers = headers' := by
  have hzero (contentType : String) (headers : Headers) :
      ∀ f ∈ metaFields contentType headers, ZeroFree f.1 := by
    intro f hf
    rcases List.mem_cons.mp hf with rfl | hf
    · exact zeroFree_labels _ (by simp)
    · obtain ⟨header, -, hheader⟩ := List.mem_flatMap.mp hf
      rcases List.mem_pair.mp hheader with rfl | rfl <;> exact zeroFree_labels _ (by simp)
  obtain ⟨hfirst, hrest⟩ := List.cons.inj (encodeFields_injective (hzero _ _) (hzero _ _) h)
  refine ⟨utf8Bytes_injective (Prod.ext_iff.mp hfirst).2, ?_⟩
  clear h hfirst hzero
  induction headers generalizing headers' with
  | nil => cases headers' with
    | nil => rfl
    | cons header rest => simp at hrest
  | cons header rest ih => cases headers' with
    | nil => simp at hrest
    | cons header' rest' =>
      simp only [List.flatMap_cons, List.cons_append, List.nil_append, List.cons.injEq, Prod.mk.injEq,
        true_and] at hrest
      obtain ⟨hname, hvalue, htail⟩ := hrest
      rw [Prod.ext (utf8Bytes_injective hname) (utf8Bytes_injective hvalue), ih htail]

/-- The event HMAC signs all of its input. -/
theorem EventHmacInput.bytes_injective : Function.Injective EventHmacInput.bytes := by
  have hzero (input : EventHmacInput) : ∀ f ∈ input.fields, ZeroFree f.1 := by
    intro f hf
    have hlabel : f.1 ∈ input.fields.map Prod.fst := List.mem_map_of_mem hf
    simp only [EventHmacInput.fields, List.map_cons, List.map_nil] at hlabel
    obtain ⟨label, hmem, hf⟩ := List.mem_map.mp (show f.1 ∈ ["prev", "world", "timestamp", "type", "target",
      "gen", "body-sha256", "size", "content-type", "meta-sha256"].map utf8Bytes from hlabel)
    rw [← hf]
    apply zeroFree_labels
    clear hf
    revert label
    decide
  intro a b h
  have hfields := encodeFields_injective (hzero a) (hzero b) h
  simp only [EventHmacInput.fields, List.cons.injEq, Prod.mk.injEq, true_and, and_true,
    utf8Bytes_injective.eq_iff, Int.toString_eq_repr, Int.repr_inj] at hfields
  obtain ⟨hprev, hworld, htimestamp, htype, htarget, hgeneration, hbody, hsize, hcontent, hmeta⟩ := hfields
  cases a
  cases b
  simp_all [ValidatedWorldPath.ext_iff, AuditTimestamp.ext_iff, WorldGeneration.ext_iff]

/-- An event HMAC is not empty. -/
theorem eventHmac_ne_empty [HashSuite] (key : AuditHmacKey) (input : EventHmacInput) :
    eventHmac key input ≠ "" := by
  intro h
  have hhex := isLowerHexLen_digest (HashSuite.hmacSha256 key.bytes input.bytes)
  rw [show hexEncode _ = "" from h] at hhex
  revert hhex
  decide

/-- The label of an event HMAC adds the label text. -/
theorem hmacLabel_eventHmac [HashSuite] (key : AuditHmacKey) (input : EventHmacInput) :
    hmacLabel (eventHmac key input) = "hmac-" ++ eventHmac key input := by
  have hempty : (eventHmac key input).isEmpty = false := by
    simpa using eventHmac_ne_empty key input
  have hstart : startsWith (eventHmac key input) "hmac-" = false := by
    -- no hexadecimal digit is the first letter of the label
    rw [startsWith, Bool.eq_false_iff, ne_eq, List.isPrefixOf_iff_prefix]
    intro hlead
    have hmem : 'h' ∈ (eventHmac key input).toList := hlead.subset (by decide)
    rw [eventHmac, hexEncode, String.toList_ofList] at hmem
    obtain ⟨b, -, hb⟩ := List.mem_flatMap.mp hmem
    exact absurd (hexByte_lowerHex b _ hb).2 (by decide)
  rw [hmacLabel, hempty, hstart]
  rfl

/-- Without collisions, equal event HMACs sign equal inputs. -/
theorem eventHmac_inj [HashSuite] {key : AuditHmacKey} {fed : Set Bytes}
    (hfed : Set.InjOn (HashSuite.hmacSha256 key.bytes) fed) {a b : EventHmacInput}
    (ha : a.bytes ∈ fed) (hb : b.bytes ∈ fed) (h : eventHmac key a = eventHmac key b) : a = b :=
  EventHmacInput.bytes_injective (hfed ha hb (Subtype.ext (hexEncode_injective h)))

/-- Without collisions, equal metadata digests have equal content types and headers. -/
theorem metaSha256Canonical_inj [HashSuite] {fed : Set Bytes} (hfed : Set.InjOn HashSuite.sha256 fed)
    {contentType contentType' : String} {headers headers' : Headers}
    (hleft : metaBytes contentType headers ∈ fed) (hright : metaBytes contentType' headers' ∈ fed)
    (h : metaSha256Canonical contentType headers = metaSha256Canonical contentType' headers') :
    contentType = contentType' ∧ headers = headers' :=
  metaBytes_inj (hfed hleft hright (Subtype.ext (hexEncode_injective h)))

end AuditeDB
