import Mathlib
import AuditeDB.Library.Utf8
import AuditeDB.Library.Lexemes
import AuditeDB.Library.Sha2
import AuditeDB.Library.Results

/-!
# Value and proof types of the engine

The checked values that the engine passes around: world paths, generations, row coordinates, body digests,
keys and retention counts. Each type carries the check of its constructor.
-/

namespace AuditeDB

open Utf8 Sha2 Results

/-- A byte string. -/
abbrev Bytes : Type := List UInt8

/-- The largest value of a 64-bit `usize`. -/
def usizeMax : Nat := 18446744073709551615

/-- The largest value of an `i64`. -/
def i64Max : Nat := 9223372036854775807

/-- The values of a `usize`. -/
def usizeRange : Lexemes.IntRange := ⟨0, usizeMax⟩

/-- The values of an `i64`. -/
def i64Range : Lexemes.IntRange := ⟨-i64Max - 1, i64Max⟩

/-- The hash functions the engine links against. -/
class HashSuite where
  sha256 : Bytes → Digest
  hmacSha256 : Bytes → Bytes → Digest

/-- The hash functions as published. -/
@[reducible] def sha2Suite : HashSuite := ⟨Sha2.sha256, Sha2.hmacSha256⟩

/-- `sha256_hex`: the hexadecimal digest of a byte string. -/
def sha256Hex [HashSuite] (bytes : Bytes) : String := hexEncode (HashSuite.sha256 bytes).1

/-- `ct_eq`: comparison of two byte strings without an early exit. -/
def ctEq (a b : Bytes) : Bool :=
  if a.length ≠ b.length then false
  else (a.zip b).foldl (fun diff p => diff ||| (p.1 ^^^ p.2)) 0 == 0

/-- Accumulated differences vanish exactly when none of them is set. -/
theorem foldl_xor_eq_zero (pairs : List (UInt8 × UInt8)) (diff : UInt8) :
    pairs.foldl (fun diff p => diff ||| (p.1 ^^^ p.2)) diff = 0 ↔
      diff = 0 ∧ ∀ p ∈ pairs, p.1 = p.2 := by
  induction pairs generalizing diff with
  | nil => simp
  | cons p rest ih => simp [ih, UInt8.or_eq_zero_iff, and_assoc]

/-- The comparison decides equality. -/
theorem ctEq_iff (a b : Bytes) : ctEq a b = true ↔ a = b := by
  rw [ctEq]
  split_ifs with hlength
  · simpa using fun h => hlength (congrArg List.length h)
  · rw [beq_iff_eq, foldl_xor_eq_zero]
    refine ⟨fun h => ?_, fun h => ?_⟩
    · apply List.ext_getElem (not_not.mp hlength)
      intro n ha hb
      exact h.2 (a[n], b[n]) (List.mem_iff_getElem.mpr ⟨n, by simp [ha, hb], by simp⟩)
    · subst h
      exact ⟨rfl, fun p hp => by obtain ⟨n, hn, rfl⟩ := List.mem_iff_getElem.mp hp; simp⟩

/-- The same comparison on texts. -/
def ctEqStr (s t : String) : Bool := ctEq (utf8Bytes s) (utf8Bytes t)

/-- The comparison on texts decides equality. -/
@[simp] theorem ctEqStr_iff (s t : String) : ctEqStr s t = true ↔ s = t := by
  rw [ctEqStr, ctEq_iff, utf8Bytes_injective.eq_iff]

/-- A text equals itself. -/
@[simp] theorem ctEqStr_self (a : String) : ctEqStr a a = true := (ctEqStr_iff a a).mpr rfl

/-- Test whether a text starts with another one. -/
def startsWith (text lead : String) : Bool := lead.toList.isPrefixOf text.toList

/-- `NAMESPACE_PREFIXES`: the namespaces of world paths. -/
def namespacePrefixes : List String :=
  ["home", "tmp", "dev", "sys", "etc", "lib", "boot", "usr", "var"]

/-- `should_disk_encode`: the bytes that a directory name escapes. -/
def shouldDiskEncode (byte : UInt8) : Bool :=
  byte ≤ 0x1F || 0x7F ≤ byte || (utf8Bytes "%./\\:*?\"<>| ").contains byte

/-- `disk_world_name_len`: the length of the directory name of a world. -/
def diskWorldNameLen (worldName : String) : Nat :=
  ((utf8Bytes worldName).map fun byte => if shouldDiskEncode byte then 3 else 1).sum

/-- `strip_dot_token`: remove a leading dot or encoded dot. -/
def stripDotToken : List Char → Option (List Char)
  | '.' :: rest => some rest
  | '%' :: '2' :: 'e' :: rest => some rest
  | '%' :: '2' :: 'E' :: rest => some rest
  | _ => none

/-- `is_dot_segment`: a segment of one or two dots, plain or encoded. -/
def isDotSegment (segment : List Char) : Bool :=
  match stripDotToken segment with
  | none => false
  | some rest => rest.isEmpty || (stripDotToken rest).any List.isEmpty

/-- `is_reserved_world_name`: the namespace roots and the introspection tree. -/
def isReservedWorldName (worldName : String) : Bool :=
  namespacePrefixes.contains worldName || worldName == "proc" || worldName == "var/log" ||
    startsWith worldName "proc/"

/-- `char::is_control`. -/
def isControlChar (c : Char) : Bool := c.val ≤ 0x1F || (0x7F ≤ c.val && c.val ≤ 0x9F)

/-- `char::is_whitespace`. -/
def isWhitespace (c : Char) : Bool :=
  (9 ≤ c.val && c.val ≤ 13) || [0x20, 0x85, 0xA0, 0x1680, 0x2028, 0x2029, 0x202F, 0x205F, 0x3000].contains c.val ||
    (0x2000 ≤ c.val && c.val ≤ 0x200A)

/-- `validate_world_name`: the reason for which a name is rejected. -/
def validateWorldName (worldName : String) : Except String Unit := do
  rejectIf worldName.isEmpty "world path is empty"
  rejectIf (200 < diskWorldNameLen worldName) "world path is too long"
  rejectIf (isReservedWorldName worldName) "world path is a reserved namespace root"
  rejectIf (worldName.toList.contains '\\') "world path contains backslash"
  rejectIf (worldName.toList.any isControlChar) "world path contains control bytes"
  (worldName.toList.splitOn '/').forM fun segment => do
    rejectIf segment.isEmpty "world path has empty segment"
    rejectIf (isDotSegment segment) "world path contains dot or encoded-dot segment"

/-- `has_canonical_namespace`. -/
def hasCanonicalNamespace (worldName : String) : Bool :=
  namespacePrefixes.contains (String.ofList ((worldName.toList.splitOn '/').headD []))

/-- The checks of `ValidatedWorldPath::from_canonical`. -/
def checkCanonical (worldName : String) : Except String Unit := do
  validateWorldName worldName
  rejectIf (!hasCanonicalNamespace worldName) "world path missing canonical namespace prefix"

/-- `ValidatedWorldPath`: a world path that passed validation. -/
@[ext] structure ValidatedWorldPath where
  name : String
  canonical : checkCanonical name = .ok ()
deriving DecidableEq

/-- `ValidatedWorldPath::from_canonical`. -/
def ValidatedWorldPath.fromCanonical (worldName : String) : Except String ValidatedWorldPath :=
  match h : checkCanonical worldName with
  | .ok () => .ok ⟨worldName, h⟩
  | .error reason => .error reason

/-- The name of a validated path passes validation again. -/
@[simp] theorem ValidatedWorldPath.fromCanonical_name (world : ValidatedWorldPath) :
    fromCanonical world.name = .ok world := by
  unfold fromCanonical
  split
  · rfl
  · next reason h => rw [world.canonical] at h; cases h

/-- `has_memory_prefix` and `is_memory_world`: the namespaces kept in memory. -/
def isMemoryWorld (world : ValidatedWorldPath) : Bool :=
  startsWith world.name "tmp/" || startsWith world.name "dev/" || startsWith world.name "sys/"

/-- `is_persistent`: the worlds stored on disk. -/
def isPersistent (world : ValidatedWorldPath) : Bool := !isMemoryWorld world

/-- `is_delete_ledger_world`. -/
def isDeleteLedgerWorld (world : ValidatedWorldPath) : Bool := world.name == "var/log/deletes"

/-- `delete_ledger_world`: the world that records deletes. -/
def deleteLedgerWorld : ValidatedWorldPath := ⟨"var/log/deletes", by decide +kernel⟩

/-- `WorldGeneration`: the identity of one incarnation of a world. -/
@[ext] structure WorldGeneration where
  text : String
  lowerHex : isLowerHexLen text 32 = true
deriving DecidableEq

/-- `WorldGeneration::new`; the error names the violated rule. -/
def WorldGeneration.new (raw : String) : Except String WorldGeneration :=
  if h : isLowerHexLen raw 32 = true then .ok ⟨raw, h⟩
  else if (utf8Bytes raw).length ≠ 32 then .error "WrongLength" else .error "NotLowerHex"

/-- A generation passes its own check. -/
@[simp] theorem WorldGeneration.new_text (generation : WorldGeneration) :
    WorldGeneration.new generation.text = .ok generation := by
  simp [WorldGeneration.new, generation.lowerHex]

/-- What an accepted generation is. -/
theorem WorldGeneration.new_eq_ok {raw : String} {generation : WorldGeneration}
    (h : WorldGeneration.new raw = .ok generation) : generation.text = raw := by
  unfold WorldGeneration.new at h
  split_ifs at h
  · cases h
    rfl

/-- `WorldGeneration::mint`: a generation made of sixteen random bytes. -/
def WorldGeneration.ofEntropy (entropy : Bytes) (h : entropy.length = 16) : WorldGeneration :=
  ⟨hexEncode entropy, by simpa [h] using isLowerHexLen_hexEncode entropy⟩

/-- `BodySha256`: the hexadecimal digest of a body. -/
@[ext] structure BodySha256 where
  text : String
  lowerHex : isLowerHexLen text 64 = true
deriving DecidableEq

/-- `BodySha256::new`; the error names the violated rule. -/
def BodySha256.new (raw : String) : Except String BodySha256 :=
  if h : isLowerHexLen raw 64 = true then .ok ⟨raw, h⟩
  else if (utf8Bytes raw).length ≠ 64 then .error "WrongLength" else .error "NotLowerHex"

/-- A digest passes its own check. -/
@[simp] theorem BodySha256.new_text (digest : BodySha256) :
    BodySha256.new digest.text = .ok digest := by
  simp [BodySha256.new, digest.lowerHex]

/-- What an accepted digest is. -/
theorem BodySha256.new_eq_ok {raw : String} {digest : BodySha256}
    (h : BodySha256.new raw = .ok digest) : digest.text = raw := by
  unfold BodySha256.new at h
  split_ifs at h with hhex hlength
  · cases h
    rfl

/-- A hexadecimal digest of thirty-two bytes has sixty-four digits. -/
theorem isLowerHexLen_digest (digest : Digest) : isLowerHexLen (hexEncode digest.1) 64 = true := by
  simpa [digest.2] using isLowerHexLen_hexEncode digest.1

/-- `BodySha256::for_body`. -/
def BodySha256.forBody [HashSuite] (body : Bytes) : BodySha256 :=
  ⟨sha256Hex body, isLowerHexLen_digest _⟩

/-- `TimelineSeq`: a positive row coordinate. -/
@[ext] structure TimelineSeq where
  get : Int
  positive : 0 < get
deriving DecidableEq

/-- `TimelineSeq::new`. -/
def TimelineSeq.new (raw : Int) : Except String TimelineSeq :=
  if h : 0 < raw then .ok ⟨raw, h⟩ else .error "NonPositive"

/-- A row coordinate passes its own check. -/
@[simp] theorem TimelineSeq.new_get (seq : TimelineSeq) : TimelineSeq.new seq.get = .ok seq := by
  simp [TimelineSeq.new, seq.positive]

/-- What an accepted row coordinate is. -/
theorem TimelineSeq.new_eq_ok {raw : Int} {seq : TimelineSeq} (h : TimelineSeq.new raw = .ok seq) :
    seq.get = raw := by
  unfold TimelineSeq.new at h
  split_ifs at h
  cases h
  rfl

/-- `TimelineSeq::new` of an optional coordinate: `map`, `map_err` and `transpose`. -/
def TimelineSeq.newOption {ε : Type} (error : ε) : Option Int → Except ε (Option TimelineSeq)
  | none => .ok none
  | some raw => ((TimelineSeq.new raw).mapError fun _ => error).map some

/-- Optional row coordinates pass their own check. -/
theorem TimelineSeq.newOption_get {ε : Type} (error : ε) (seq : Option TimelineSeq) :
    TimelineSeq.newOption error (seq.map TimelineSeq.get) = .ok seq := by
  cases seq <;> simp [TimelineSeq.newOption, Except.mapError, Except.map]

/-- What an accepted optional row coordinate is. -/
theorem TimelineSeq.newOption_eq_ok {ε : Type} {error : ε} {raw : Option Int} {seq : Option TimelineSeq}
    (h : TimelineSeq.newOption error raw = .ok seq) : seq.map TimelineSeq.get = raw := by
  cases raw with
  | none => cases h; rfl
  | some raw =>
    simp only [TimelineSeq.newOption] at h
    cases hnew : TimelineSeq.new raw with
    | error reason => rw [hnew] at h; cases h
    | ok accepted => rw [hnew] at h; cases h; rw [← TimelineSeq.new_eq_ok hnew]; rfl

/-- `RetainedBodyCount`: the number of recent bodies that stay readable. -/
structure RetainedBodyCount where
  count : Nat
  positive : 0 < count
  bounded : count ≤ 65536
deriving DecidableEq

/-- The default retention count. -/
def RetainedBodyCount.default : RetainedBodyCount := ⟨1024, by decide, by decide⟩

/-- `u8::is_ascii_whitespace`. -/
def isAsciiWhitespace (byte : UInt8) : Bool :=
  byte == 9 || byte == 10 || byte == 12 || byte == 13 || byte == 32

/-- `AuditHmacKey`: key material that is long enough and not blank. -/
@[ext] structure AuditHmacKey where
  bytes : Bytes
  long : 32 ≤ bytes.length
  visible : bytes.all isAsciiWhitespace = false
deriving DecidableEq

/-- `contains_metadata_control_char`. -/
def containsMetadataControlChar (value : String) : Bool :=
  (utf8Bytes value).any fun byte => byte == 0 || byte == 13 || byte == 10

/-- `validate_representation_metadata`. -/
def validateRepresentationMetadata (contentType : String) (headers : List (String × String)) :
    Except String Unit := do
  rejectIf (containsMetadataControlChar contentType) "metadata-control-character"
  headers.forM fun (name, value) =>
    rejectIf (containsMetadataControlChar name || containsMetadataControlChar value)
      "metadata-control-character"

/-- `to_ascii_lowercase`. -/
def toAsciiLowercase (text : String) : String := String.ofList (text.toList.map Char.toLower)

end AuditeDB
