import Mathlib
import AuditeDB.Audit.Stamps

/-!
# The independent chain verifier

`tools/audit_chain_verify.py` walks the chain of a world database a second time, outside of the engine. The tables
are those of `AUDIT_SELECT`; what the tool takes from its language (digits and lower case beyond ASCII, `int` and the
rendering of a stored value) is a parameter with the facts that the Unicode tables and the language fix.
-/

namespace AuditeDB

open Utf8 Results

/-- The operations of Python that the tool calls on texts. -/
structure Python where
  /-- `str.isdigit` of one character. -/
  isdigit : Char → Bool
  /-- The lower case of a character outside of ASCII, which may depend on the text around it. -/
  lowerOther : List Char → Char → List Char → List Char
  /-- `int(text, 10)`, without a result for `ValueError`. -/
  int : String → Option Int
  /-- The rendering of a stored value in a message. -/
  format : SqlValue → String
  isdigit_ascii : ∀ c : Char, c.val ≤ 127 → isdigit c = c.isDigit
  /-- Only two characters outside of ASCII, the Kelvin sign and the dotted capital I, have a lower case that starts
  inside. -/
  lowerOther_eq : ∀ (before : List Char) (c : Char) (after : List Char), 127 < c.val →
    ∃ d rest, lowerOther before c after = d :: rest ∧
      (127 < d.val ∨ d = 'k' ∧ rest = [] ∨ d = 'i' ∧ rest = [Char.ofNat 0x307])
  int_toString : ∀ n : Int, 0 < n → n ≤ i64Max → int (toString n) = some n

namespace Python

/-- The lower case of a text that follows another one. -/
def lowerFrom (py : Python) : List Char → List Char → List Char
  | _, [] => []
  | before, c :: rest =>
    (if c.val ≤ 127 then [c.toLower] else py.lowerOther before c rest) ++ py.lowerFrom (before ++ [c]) rest

/-- `str.lower`. -/
def lower (py : Python) (text : List Char) : List Char := py.lowerFrom [] text

end Python

namespace ChainVerify

/-- `AuditVerifyError`, and the error that reading a malformed text raises. -/
inductive ToolError where
  | auditVerify (message : String)
  | operational
deriving DecidableEq

/-- `DISK_ENCODE_BYTES`. -/
def diskEncodeBytes : Bytes := (List.range 0x20).map UInt8.ofNat ++ utf8Bytes "%./\\:*?\"<>| "

/-- `MEMORY_WORLD_PREFIXES`. -/
def memoryWorldPrefixes : List String := ["tmp/", "dev/", "sys/"]

/-- `WORLD_PREFIXES`. -/
def worldPrefixes : List String :=
  ["home/", "tmp/", "dev/", "sys/", "etc/", "lib/", "boot/", "usr/", "var/"]

/-- `NAMESPACE_PREFIXES`. -/
def namespacePrefixes : List String := worldPrefixes.map fun lead => String.ofList lead.toList.dropLast

/-- `MAX_DISK_WORLD_NAME_BYTES`. -/
def maxDiskWorldNameBytes : Nat := 200

/-- `require_str`. -/
def requireStr (value : SqlValue) (column : String) : Except ToolError String :=
  match value with
  | .text value => .ok value
  | _ => .error (.auditVerify s!"{column} is not TEXT")

/-- `require_int`. -/
def requireInt (value : SqlValue) (column : String) : Except ToolError Int :=
  match value with
  | .integer value => .ok value
  | _ => .error (.auditVerify s!"{column} is not INTEGER")

/-- The cursor decodes every text of a row before the tool sees the row. -/
def fetch (columns : List SqlValue) : Except ToolError Unit :=
  rejectIf (columns.any fun value => match value with | .malformedText _ => true | _ => false) .operational

/-- `is_lower_hex`. -/
def isLowerHex (value : String) (length : Nat) : Bool :=
  value.toList.length = length && value.toList.all fun ch => "0123456789abcdef".toList.contains ch

/-- `require_generation`. -/
def requireGeneration (value : SqlValue) : Except ToolError String := do
  let raw ← requireStr value "stage_meta.generation"
  rejectIf (!isLowerHex raw 32) (.auditVerify "stage_meta.generation is not 128-bit lower hex")
  return raw

/-- The punctuation of a timestamp by position. -/
def punctuation : Nat → Option Char
  | 4 => some '-'
  | 7 => some '-'
  | 10 => some 'T'
  | 13 => some ':'
  | 16 => some ':'
  | 19 => some '.'
  | 23 => some 'Z'
  | _ => none

/-- `require_timestamp`, with the message of its error. -/
def requireTimestamp (py : Python) (value : String) : Except String Unit := do
  let message := s!"timestamp is not canonical SQLite UTC ms: {value}"
  rejectIf (value.toList.length ≠ 24) message
  value.toList.zipIdx.forM fun (ch, idx) =>
    match punctuation idx with
    | some expected => rejectIf (ch ≠ expected) message
    | none => rejectIf (!py.isdigit ch) message

/-- `is_control_char`. -/
def isControlChar (ch : Char) : Bool := ch.val ≤ 0x1F || (0x7F ≤ ch.val && ch.val ≤ 0x9F)

/-- `disk_world_name_len`. -/
def diskWorldNameLen (value : String) : Nat :=
  ((utf8Bytes value).map fun byte => if diskEncodeBytes.contains byte || 0x7F ≤ byte then 3 else 1).sum

/-- `strip_dot_token`. -/
def stripDotToken (py : Python) (segment : List Char) : Option (List Char) :=
  if ['.'].isPrefixOf segment then some (segment.drop 1)
  else if 3 ≤ segment.length && py.lower (segment.take 3) == ['%', '2', 'e'] then some (segment.drop 3)
  else none

/-- `is_dot_segment`. -/
def isDotSegment (py : Python) (segment : List Char) : Bool :=
  match stripDotToken py segment with
  | none => false
  | some rest => if rest.isEmpty then true else stripDotToken py rest == some []

/-- `is_reserved_world_name`. -/
def isReservedWorldName (value : String) : Bool :=
  namespacePrefixes.contains value || ["proc", "var/log"].contains value || startsWith value "proc/"

/-- `is_canonical_world`. -/
def isCanonicalWorld (py : Python) (value : String) : Bool :=
  if value.isEmpty || isReservedWorldName value then false
  else if maxDiskWorldNameBytes < diskWorldNameLen value then false
  else if value.toList.contains '\\' || value.toList.any isControlChar then false
  else if (value.toList.splitOn '/').any fun segment => segment.isEmpty || isDotSegment py segment then false
  else namespacePrefixes.contains (String.ofList ((value.toList.splitOn '/').headD []))

/-- `is_memory_world`. -/
def isMemoryWorld (value : String) : Bool := memoryWorldPrefixes.any (startsWith value)

/-- The comparison of a stored value with a number. -/
def equalsInt (value : SqlValue) (n : Int) : Bool :=
  match value with
  | .integer value => value = n
  | .real value => value = n
  | _ => false

/-- `require_world_format`. -/
def requireWorldFormat (py : Python) (db : Database) : Except ToolError Unit := do
  fetch (db.worldFormat.map WorldFormatRow.version)
  match db.worldFormat with
  | [row] =>
    rejectIf (row.id ≠ 1) (.auditVerify "world_format.id must be 1")
    rejectIf (!equalsInt row.version currentWorldFormatVersion)
      (.auditVerify s!"unsupported world format version: {py.format row.version}")
  | _ => throw (.auditVerify "world_format must contain exactly one row")

/-- `load_generation`. -/
def loadGeneration (db : Database) : Except ToolError String := do
  let row ← requireSome (.auditVerify "missing required row: stage_meta id=1") db.stageMetaRow
  fetch [row.generation]
  requireGeneration row.generation

/-- `sha256_field` and `hmac_field`: what one field adds to a digest. -/
def digestField (label value : String) : Bytes :=
  let encoded := utf8Bytes value
  utf8Bytes label ++ [0] ++ utf8Bytes (toString encoded.length) ++ [0] ++ encoded ++ [0]

/-- `is_hmac_label`. -/
def isHmacLabel (value : String) : Bool :=
  startsWith value "hmac-" && isLowerHex (String.ofList (value.toList.drop 5)) 64

/-- The only value of a header in `verify_delete_subject_proof`. -/
def oneValue (headers : Headers) (idx : Nat) (name : String) : Except VerifyBreak String :=
  match headers.filter (·.1 = name) with
  | [] => .error ⟨idx, s!"delete-subject-{name}", s!"missing-delete-subject-{name}"⟩
  | [header] => .ok header.2
  | _ => .error ⟨idx, s!"one-delete-subject-{name}", s!"duplicated-delete-subject-{name}"⟩

/-- The report of a header with a malformed value. -/
def invalidSubject (idx : Nat) (name : String) : VerifyBreak :=
  ⟨idx, s!"valid-delete-subject-{name}", s!"invalid-delete-subject-{name}"⟩

/-- A header name that starts with `DELETE_SUBJECT_PREFIX` in lower case. -/
def isSubjectHeader (py : Python) (name : String) : Bool :=
  deleteSubjectReserved.toList.isPrefixOf (py.lower name.toList)

/-- The test of the sequence header: a positive number in its own rendering. -/
def isSubjectSeq (py : Python) (raw : String) : Bool :=
  let seq := (py.int raw).getD 0
  !(toString seq ≠ raw || seq ≤ 0)

/-- `verify_delete_subject_proof`. -/
def verifyDeleteSubjectProof (py : Python) (row : EventRow) (headers : Headers) (idx : Nat) :
    Except VerifyBreak Unit := do
  if !(headers.any fun h => isSubjectHeader py h.1) && isMemoryWorld row.target then return ()
  rejectIf (!isLowerHex row.bodySha256 64) ⟨idx, "delete-row-body-sha256", "invalid-delete-row-body-sha256"⟩
  -- All five values are collected before any of them is checked.
  let world ← oneValue headers idx deleteSubjectWorld
  let generation ← oneValue headers idx deleteSubjectGeneration
  let seq ← oneValue headers idx deleteSubjectSeq
  let bodySha256 ← oneValue headers idx deleteSubjectBodySha256
  let hmac ← oneValue headers idx deleteSubjectHmac
  rejectIf (!isCanonicalWorld py world) (invalidSubject idx deleteSubjectWorld)
  rejectIf (world ≠ row.target)
    ⟨idx, "delete-subject-world-matches-target", "delete-subject-world-mismatch"⟩
  rejectIf (!isLowerHex generation 32) (invalidSubject idx deleteSubjectGeneration)
  rejectIf (!isSubjectSeq py seq) (invalidSubject idx deleteSubjectSeq)
  rejectIf (!isLowerHex bodySha256 64) (invalidSubject idx deleteSubjectBodySha256)
  rejectIf (!ctEqStr bodySha256 row.bodySha256)
    ⟨idx, "delete-subject-body-sha256-matches-row", "delete-subject-body-sha256-mismatch"⟩
  rejectIf (!isHmacLabel hmac) (invalidSubject idx deleteSubjectHmac)

/-- The event types of `DELETE_EVENT_TYPES`. -/
def deleteEventTypes : List String := ["delete_intent", "delete_commit", "delete_commit_failed"]

/-- The part of `verify_event` for these types. -/
def verifyDelete (py : Python) (row : EventRow) (headers : Headers) (idx : Nat) : Except VerifyBreak Unit :=
  if deleteEventTypes.contains row.eventType then do
    rejectIf (!isCanonicalWorld py row.target) ⟨idx, "delete-target-canonical-world", s!"target-{row.target}"⟩
    verifyDeleteSubjectProof py row headers idx
  else pure ()

/-- `row_from_sql`. -/
def rowFromSql (joined : JoinedRow) : Except ToolError (EventRow × Option (String × String)) := do
  let e := joined.event
  fetch [e.timestamp, e.eventType, e.target, e.bodySha256, e.size, e.contentType, e.metaSha256, e.hmac, e.prevHmac,
    joined.name, joined.value]
  let event : EventRow :=
    { id := e.id
      timestamp := ← requireStr e.timestamp "timestamp"
      eventType := ← requireStr e.eventType "event_type"
      target := ← requireStr e.target "target"
      bodySha256 := ← requireStr e.bodySha256 "body_sha256"
      size := ← requireInt e.size "size"
      contentType := ← requireStr e.contentType "content_type"
      metaSha256 := ← requireStr e.metaSha256 "meta_sha256"
      hmac := ← requireStr e.hmac "hmac"
      prevHmac := ← requireStr e.prevHmac "prev_hmac" }
  if joined.name = .null ∨ joined.value = .null then return (event, none)
  return (event, some (← requireStr joined.name "event_headers.name",
    ← requireStr joined.value "event_headers.value"))

/-- How a walk stops before its end. -/
inductive Stop where
  | raised (error : ToolError)
  | broken (report : VerifyBreak)
deriving DecidableEq

/-- The variables of `verify_connection` that outlive an event. -/
structure Progress where
  prev : String
  genesis : String
  events : Nat
deriving DecidableEq

section

variable [HashSuite]

/-- `meta_sha256_canonical`. -/
def metaSha256Canonical (contentType : String) (headers : Headers) : String :=
  sha256Hex (digestField "content-type" contentType ++
    headers.flatMap fun h => digestField "header-name" h.1 ++ digestField "header-value" h.2)

/-- `event_hmac`. -/
def eventHmac (key : AuditHmacKey) (prev world generation : String) (row : EventRow) : String :=
  hexEncode (HashSuite.hmacSha256 key.bytes
    (digestField "prev" prev ++ digestField "world" world ++ digestField "timestamp" row.timestamp ++
      digestField "type" row.eventType ++ digestField "target" row.target ++ digestField "gen" generation ++
      digestField "body-sha256" row.bodySha256 ++ digestField "size" (toString row.size) ++
      digestField "content-type" row.contentType ++ digestField "meta-sha256" row.metaSha256)).1

variable (py : Python) (key : AuditHmacKey) (world generation : String)

/-- `verify_event`, which returns the HMAC of the event. -/
def verifyEvent (row : EventRow) (headers : Headers) (prev : String) (idx : Nat) : Except VerifyBreak String := do
  rejectIf (!(["put", "append", "delete_intent", "delete_commit", "delete_commit_failed", "format"].contains
    row.eventType)) ⟨idx, "known-event-type", s!"event-type-{row.eventType}"⟩
  rejectIf (["put", "append", "format"].contains row.eventType && row.target ≠ world)
    ⟨idx, s!"target-{world}", s!"target-{row.target}"⟩
  rejectIf (row.eventType = "format" &&
      !headers.contains (worldFormatVersionHeader, toString currentWorldFormatVersion))
    ⟨idx, s!"{worldFormatVersionHeader}-{currentWorldFormatVersion}", "missing-world-format-version"⟩
  verifyDelete py row headers idx
  rejectIf (!ctEqStr row.prevHmac prev) ⟨idx, hmacLabel prev, hmacLabel row.prevHmac⟩
  let expectedMeta := metaSha256Canonical row.contentType headers
  rejectIf (!ctEqStr expectedMeta row.metaSha256)
    ⟨idx, s!"meta-sha256-{expectedMeta}", s!"meta-sha256-{row.metaSha256}"⟩
  (requireTimestamp py row.timestamp).mapError fun message => ⟨idx, "timestamp-sqlite-utc-ms", message⟩
  let expectedHmac := eventHmac key prev world generation row
  rejectIf (!ctEqStr expectedHmac row.hmac) ⟨idx, hmacLabel expectedHmac, hmacLabel row.hmac⟩
  return row.hmac

/-- The check of a collected event, and what it leaves behind. -/
def checkEvent (progress : Progress) (event : EventRow × Headers) : Except VerifyBreak Progress := do
  let prev ← verifyEvent py key world generation event.1 event.2 progress.prev progress.events
  return ⟨prev, if progress.events = 0 then prev else progress.genesis, progress.events + 1⟩

/-- The check of the event that was being collected, if there is one. -/
def finishEvent (current : Option (EventRow × Headers)) (progress : Progress) : Except Stop Progress :=
  match current with
  | some event => (checkEvent py key world generation progress event).mapError .broken
  | none => pure progress

/-- The loop of `verify_connection`, with the event that is being collected and its headers. -/
def walkRows : List JoinedRow → Option (EventRow × Headers) → Progress → Except Stop Progress
  | [], current, progress => finishEvent py key world generation current progress
  | joined :: rows, current, progress => do
    let (row, header) ← (rowFromSql joined).mapError .raised
    let finished := current.filter fun event => event.1.id ≠ row.id
    let progress ← finishEvent py key world generation finished progress
    let (event, headers) := (current.filter fun event => event.1.id = row.id).getD (row, [])
    walkRows rows (some (event, headers ++ header.toList)) progress

end

/-- `verify_connection`. -/
def verifyConnection [HashSuite] (py : Python) (key : AuditHmacKey) (world : String) (allowEmpty : Bool)
    (db : Database) : Except ToolError VerifyReport := do
  requireWorldFormat py db
  let generation ← loadGeneration db
  match walkRows py key world generation db.auditSelect none ⟨"", "", 0⟩ with
  | .error (.raised error) => throw error
  | .error (.broken report) => return .broken report
  | .ok progress =>
    if progress.events = 0 then
      if allowEmpty then return .valid ⟨0, hmacLabel "", hmacLabel ""⟩
      else return .broken ⟨0, "at-least-one-event", "no-events"⟩
    else return .valid ⟨progress.events, hmacLabel progress.genesis, hmacLabel progress.prev⟩

end ChainVerify

end AuditeDB
