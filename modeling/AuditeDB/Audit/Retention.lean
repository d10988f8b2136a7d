import Mathlib
import AuditeDB.Audit.Verifier

/-!
# Retained bodies and the live body

Reading the retention floor and the retained bodies, and the checks of the newest event and of the live body
against them.
-/

namespace AuditeDB

open Utf8 Results

/-- `first_retained_seq` as it is read from `cas_state`. -/
def firstRetainedSeq (db : Database) : SqlResult (Option TimelineSeq) := do
  let row ← requireSome .queryReturnedNoRows db.casStateRow
  TimelineSeq.newOption (corruptError "invalid first_retained_seq") (← row.firstRetainedSeq.getOptionI64)

/-- The bodies with their sizes, as a loading loop collects them. -/
abbrev RetainedBodies : Type := AList fun _ : BodySha256 => Int

/-- One row of `load_hashed_bodies`: the body has to hash to its key. -/
def loadHashedBody [HashSuite] (bodies : RetainedBodies) (row : CasBodyRow) : SqlResult RetainedBodies := do
  let bodySha256 ← row.bodySha256.getString
  let body ← row.body.getBytes
  let computed := BodySha256.forBody body
  rejectIf (!ctEqStr computed.text bodySha256) (corruptError "cas_bodies.body does not match body_sha256")
  rejectIf (i64Max < body.length) (corruptError "cas_bodies.body length does not fit i64")
  pure (bodies.insert computed body.length)

/-- One row of `load_body_index`: only the key and the length are read. -/
def loadBodyIndex (bodies : RetainedBodies) (row : CasBodyRow) : SqlResult RetainedBodies := do
  let raw ← row.bodySha256.getString
  let len ← requireSome .invalidColumnType row.body.length
  let bodySha256 ← (BodySha256.new raw).mapError fun _ => corruptError "invalid cas_bodies.body_sha256"
  pure (bodies.insert bodySha256 len)

/-- `load_inner`: the retention state with bodies loaded by the given step. -/
def loadRetention (step : RetainedBodies → CasBodyRow → SqlResult RetainedBodies) (db : Database) :
    SqlResult CasRetentionState := do
  let floor ← firstRetainedSeq db
  let bodies ← db.casBodies.foldlM step ∅
  rejectIf (floor.isNone ∧ bodies.entries ≠ [])
    (corruptError "cas_bodies rows exist before first_retained_seq is set")
  rejectIf (floor.isNone ∧ db.bodyEvents ≠ [])
    (corruptError "body-bearing events exist before first_retained_seq is set")
  pure ⟨floor, bodies⟩

/-- `retention::load`. -/
def CasRetentionState.load [HashSuite] (db : Database) : SqlResult CasRetentionState :=
  loadRetention loadHashedBody db

/-- `retention::load_for_append`. -/
def CasRetentionState.loadForAppend (db : Database) : SqlResult CasRetentionState :=
  loadRetention loadBodyIndex db

/-- `verify_tail_body_tx`: the check of the newest event against the retained bodies. -/
def verifyTailBody [HashSuite] (db : Database) (row : EventRow) (idx : Nat) :
    SqlResult (Option VerifyBreak) := do
  let some kind := AuditEventKind.fromStorage row.eventType | return none
  let some floor ← firstRetainedSeq db
    | return if kind.bodyBearing then some ⟨idx, "retention floor", "unset-retention-floor"⟩ else none
  if row.id = floor.get && !kind.bodyBearing then
    return some ⟨idx, s!"body-bearing event at first_retained_seq {floor.get}", row.eventType⟩
  if row.id < floor.get || !kind.bodyBearing then return none
  let .ok bodySha256 := BodySha256.new row.bodySha256
    | return some ⟨idx, "valid body_sha256", s!"body-sha256-{row.bodySha256}"⟩
  let some stored := db.casBody bodySha256.text
    | return some ⟨idx, s!"cas-body-{row.bodySha256}", "missing-cas-body"⟩
  let body ← stored.body.getBytes
  rejectIf (!ctEqStr (BodySha256.forBody body).text bodySha256.text)
    (corruptError "cas_bodies.body does not match body_sha256")
  rejectIf (i64Max < body.length) (corruptError "cas_bodies.body length does not fit i64")
  if (body.length : Int) ≠ row.size then
    return some ⟨idx, s!"cas-body-size-{row.size}", s!"cas-body-size-{body.length}"⟩
  return none

/-- `latest_body_event_tx`. -/
def latestBodyEvent (db : Database) : SqlResult (Option (Int × String × Int)) :=
  match db.bodyEventsDesc.head? with
  | none => pure none
  | some e => do
    let bodySha256 ← e.bodySha256.getString
    let size ← e.size.getI64
    pure (some (e.id, bodySha256, size))

/-- `live_body_head_break`. -/
def liveBodyHeadBreak [HashSuite] (liveBody : Bytes) (latest : Option (Int × String × Int))
    (eventCount : Nat) : Option VerifyBreak :=
  let liveHash := BodySha256.forBody liveBody
  let liveSize : Int := min liveBody.length i64Max
  let breakAt := eventCount - 1
  match latest with
  | none => if liveBody = [] then none
    else some ⟨breakAt, "latest body-bearing event", s!"live-body-sha256-{liveHash.text}"⟩
  | some (_, bodySha256, size) =>
    if !ctEqStr liveHash.text bodySha256 then
      some ⟨breakAt, s!"live-body-sha256-{bodySha256}", s!"live-body-sha256-{liveHash.text}"⟩
    else if size ≠ liveSize then
      some ⟨breakAt, s!"live-body-size-{size}", s!"live-body-size-{liveSize}"⟩
    else none

/-- `live_body::verify_tx`. -/
def verifyLiveBody [HashSuite] (db : Database) : SqlResult (Option VerifyBreak) := do
  if !(db.schema.any fun e => e.kind = .table && e.name = "stage_meta") then return none
  let row ← requireSome .queryReturnedNoRows db.stageMetaRow
  let liveBody ← row.body.getBytes
  let latest ← latestBodyEvent db
  return liveBodyHeadBreak liveBody latest db.events.length

/-- A break that was found is an error. -/
def requireNoBreak (report : SqlResult (Option VerifyBreak)) : AuditResult Unit := do
  match ← liftSql report with
  | none => pure ()
  | some report => throw (.chainBroken report)

end AuditeDB
