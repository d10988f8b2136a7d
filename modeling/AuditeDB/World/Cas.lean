import Mathlib
import AuditeDB.Audit.Gate

/-!
# Body retention in one world database

Bodies are kept once per digest in `cas_bodies`. Each write retains its body, starts retention at the first
body event, and prunes the bodies that only events below the new floor refer to. The snapshots estimate the
same changes before the write.
-/

namespace AuditeDB

open Utf8 Results

/-- `WriteAuditError`. -/
inductive WriteAuditError where
  | audit (error : AuditError)
  | sqlite (error : SqlError)
  | casBodyMismatch (bodySha256 : BodySha256)
  | storageInvariant (message : String)
deriving DecidableEq

/-- The result of a step inside a write transaction. -/
abbrev WriteResult (α : Type) : Type := Except WriteAuditError α

/-- A database result inside a write transaction. -/
def liftWrite {α : Type} (result : SqlResult α) : WriteResult α := result.mapError .sqlite

/-- `RetainedCasBody`: the body that the transaction has retained. -/
structure RetainedCasBody where
  bodySha256 : BodySha256
  size : Int
  inserted : Bool
deriving DecidableEq

/-- `INSERT INTO cas_bodies ... ON CONFLICT(body_sha256) DO NOTHING`. -/
def Database.insertCasBody (db : Database) (bodySha256 : BodySha256) (body : Bytes) : Database :=
  match db.casBody bodySha256.text with
  | some _ => db
  | none => { db with casBodies := db.casBodies ++ [⟨.text bodySha256.text, .blob body⟩] }

/-- `retain_body_tx`. -/
def retainBody [HashSuite] (body : Bytes) (db : Database) : WriteResult (RetainedCasBody × Database) := do
  let bodySha256 := BodySha256.forBody body
  rejectIf (i64Max < body.length) (.storageInvariant "body length does not fit i64")
  let inserted := (db.casBody bodySha256.text).isNone
  let db := db.insertCasBody bodySha256 body
  let stored ← liftWrite (requireSome .queryReturnedNoRows (db.casBody bodySha256.text))
  rejectIf (stored.body.blobLength ≠ some body.length) (.casBodyMismatch bodySha256)
  pure (⟨bodySha256, body.length, inserted⟩, db)

/-- The floor as the retention steps of a write read it. -/
def readFloorForWrite (db : Database) : WriteResult (Option TimelineSeq) := do
  let row ← requireSome (.storageInvariant "cas_state singleton row missing") db.casStateRow
  TimelineSeq.newOption (.storageInvariant "cas_state first_retained_seq invalid")
    (← liftWrite row.firstRetainedSeq.getOptionI64)

/-- `body_event_exists_tx`. -/
def bodyEventExists (db : Database) (seq : TimelineSeq) : Bool := db.bodyEvents.any (·.id = seq.get)

/-- `first_body_event_seq_tx`. -/
def firstBodyEventSeq (db : Database) : WriteResult TimelineSeq := do
  let e ← liftWrite (requireSome .queryReturnedNoRows db.bodyEventsAsc.head?)
  (TimelineSeq.new e.id).mapError fun _ => .storageInvariant "body event id invalid"

/-- `UPDATE cas_state SET first_retained_seq`, which has to change one row. -/
def setFloor (floor : TimelineSeq) (db : Database) : WriteResult Database := do
  rejectIf ((db.casState.filter (·.id = 1)).length ≠ 1) (.storageInvariant "cas_state singleton row missing")
  pure (db.updateFloor floor.get)

/-- `mark_retention_started_tx`. -/
def markRetentionStarted (eventId : TimelineSeq) (db : Database) : WriteResult Database := do
  match ← readFloorForWrite db with
  | some floor =>
    rejectIf (!bodyEventExists db floor)
      (.storageInvariant "cas_state first_retained_seq does not point at a body event")
    rejectIf (eventId.get < floor.get)
      (.storageInvariant "cas_state first_retained_seq is ahead of event row")
    pure db
  | none =>
    rejectIf ((← firstBodyEventSeq db) ≠ eventId)
      (.storageInvariant "cas retention cannot start after existing body events")
    setFloor eventId db

/-- The oldest of the newest body events. The list is in descending order, so its last row is the first one
in ascending order. -/
def Database.floorForLimit (db : Database) (limit : Nat) : Option Int :=
  ((db.bodyEventsDesc.take limit).getLast?).map EventRecord.id

/-- `retained_floor_for_count_tx`. -/
def retainedFloorForCount (retained : RetainedBodyCount) (db : Database) :
    WriteResult (Option TimelineSeq) :=
  TimelineSeq.newOption (.storageInvariant "body event id invalid") (db.floorForLimit retained.count)

/-- The digests of the body events below a floor. -/
def Database.digestsBelow (db : Database) (floor : Int) : List SqlValue :=
  (db.bodyEvents.filter (·.id < floor)).map EventRecord.bodySha256

/-- The digests of the body events at or above a floor. -/
def Database.digestsFrom (db : Database) (floor : Int) : List SqlValue :=
  (db.bodyEvents.filter (floor ≤ ·.id)).map EventRecord.bodySha256

/-- `x NOT IN (...)`: neither a member nor undecided because of a `NULL`. -/
def sqlNotIn (value : SqlValue) (values : List SqlValue) : Bool :=
  !values.contains value && !values.contains .null

/-- The rows of `cas_bodies` that only events below a floor refer to. -/
def Database.prunable (db : Database) (floor : Int) : List CasBodyRow :=
  db.casBodies.filter fun row =>
    (db.digestsBelow floor).contains row.bodySha256 && sqlNotIn row.bodySha256 (db.digestsFrom floor)

/-- `COALESCE(SUM(length(body)), 0)` over rows of `cas_bodies`. -/
def sumBodyLength (rows : List CasBodyRow) : SqlResult Int := sqlSum (rows.filterMap (·.body.length))

/-- `DELETE FROM cas_bodies` for the given digests. -/
def Database.deleteCasBodies (db : Database) (digests : List SqlValue) : Database :=
  { db with casBodies := db.casBodies.filter fun row => !digests.contains row.bodySha256 }

/-- `prune_to_count_tx`: move the floor and delete the bodies below it; returns the deleted bytes. -/
def pruneToCount (retained : RetainedBodyCount) (db : Database) : WriteResult (Nat × Database) := do
  let some newFloor ← retainedFloorForCount retained db | return (0, db)
  let currentFloor ← readFloorForWrite db
  if currentFloor.any fun floor => newFloor.get ≤ floor.get then return (0, db)
  let candidates := (db.prunable newFloor.get).map CasBodyRow.bodySha256
  let prunedBytes ← liftWrite (sumBodyLength (db.casBodies.filter (candidates.contains ·.bodySha256)))
  let db := db.deleteCasBodies candidates
  rejectIf (db.casBodies.any (candidates.contains ·.bodySha256))
    (.storageInvariant "old CAS bodies remain after retention prune")
  let db ← setFloor newFloor db
  let bytes ← liftWrite (nonnegativeUsize prunedBytes)
  return (bytes, db)

/-- `StorageUsageSnapshot`. -/
structure StorageUsageSnapshot where
  currentBodyBytes : Nat
  retainedCasBodyBytes : Nat
  auditChainEvents : Nat
deriving DecidableEq

/-- `StorageUsageSnapshot::total_body_bytes`, with a saturating sum. -/
def StorageUsageSnapshot.totalBodyBytes (usage : StorageUsageSnapshot) : Nat :=
  min (usage.currentBodyBytes + usage.retainedCasBodyBytes) usizeMax

/-- The length of the live body, which has to be a byte string. -/
def liveBodyLength (db : Database) : SqlResult Nat := do
  let row ← requireSome .queryReturnedNoRows db.stageMetaRow
  let len ← requireSome .invalidColumnType row.body.blobLength
  nonnegativeUsize len

/-- `storage_usage` of an opened database. -/
def storageUsage (db : Database) : SqlResult StorageUsageSnapshot := do
  let current ← liveBodyLength db
  let retained ← nonnegativeUsize (← sqlSum (db.casBodies.filterMap (·.body.blobLength)))
  rejectIf (usizeMax < current + retained) .integralValueOutOfRange
  let events ← nonnegativeUsize db.events.length
  pure ⟨current, retained, events⟩

/-- `missing_body_len`: the bytes that retaining a body would add. -/
def missingBodyLen [HashSuite] (db : Database) (body : Bytes) : Nat :=
  if (db.casBody (BodySha256.forBody body).text).isSome then 0 else body.length

/-- `EstimatedRetentionFloor::new` of an optional coordinate. -/
def estimatedRetentionFloor (seq : Option Int) : SqlResult (Option TimelineSeq) :=
  TimelineSeq.newOption (corruptError "estimated retention floor is not a positive event id") seq

/-- `retained_floor_after_next_body`. -/
def retainedFloorAfterNextBody (retained : RetainedBodyCount) (db : Database) :
    SqlResult (Option TimelineSeq) :=
  if db.bodyEvents.length + 1 < retained.count then pure none
  else if retained.count = 1 then estimatedRetentionFloor (some (db.maxEventId + 1))
  else estimatedRetentionFloor (db.floorForLimit (retained.count - 1))

/-- The floor as the estimate reads it; a missing row counts as no floor. -/
def readFloorForEstimate (db : Database) : SqlResult (Option TimelineSeq) :=
  match db.casStateRow with
  | none => pure none
  | some row => do
    TimelineSeq.newOption (corruptError "cas_state first_retained_seq invalid")
      (← row.firstRetainedSeq.getOptionI64)

/-- `prunable_body_len_after_next_body`: the bytes that the next write of a body would prune. -/
def prunableBodyLenAfterNextBody [HashSuite] (body : Bytes) (retained : RetainedBodyCount) (db : Database) :
    SqlResult Nat := do
  let some newFloor ← retainedFloorAfterNextBody retained db | return 0
  let currentFloor ← readFloorForEstimate db
  if currentFloor.any fun floor => newFloor.get ≤ floor.get then return 0
  let candidate := SqlValue.text (BodySha256.forBody body).text
  let prunedBytes ← sumBodyLength ((db.prunable newFloor.get).filter (·.bodySha256 ≠ candidate))
  nonnegativeUsize prunedBytes

/-- `ReplaceQuotaSnapshot`. -/
structure ReplaceQuotaSnapshot where
  previousBodyLen : Nat
  candidateCasLen : Nat
  prunableCasLen : Nat
deriving DecidableEq

/-- `replace_quota_snapshot` of an opened database, or of a missing one. -/
def replaceQuotaSnapshot [HashSuite] (body : Bytes) (retained : RetainedBodyCount) :
    Option Database → SqlResult ReplaceQuotaSnapshot
  | none => pure ⟨0, body.length, 0⟩
  | some db => do
    let previousBodyLen ← liveBodyLength db
    let prunable ← prunableBodyLenAfterNextBody body retained db
    pure ⟨previousBodyLen, missingBodyLen db body, prunable⟩

/-- The live body, read in full. -/
def liveBody (db : Database) : SqlResult Bytes := do
  let row ← requireSome .queryReturnedNoRows db.stageMetaRow
  row.body.getBytes

/-- `append_body_len_if_missing` of an opened database. -/
def appendBodyLenIfMissing [HashSuite] (appendBody : Bytes) (db : Database) : SqlResult Nat := do
  let body ← liveBody db
  pure (missingBodyLen db (body ++ appendBody))

/-- `append_prunable_body_len_after_next_write` of an opened database. -/
def appendPrunableBodyLenAfterNextWrite [HashSuite] (appendBody : Bytes) (retained : RetainedBodyCount)
    (db : Database) : SqlResult Nat := do
  let body ← liveBody db
  prunableBodyLenAfterNextBody (body ++ appendBody) retained db

end AuditeDB
