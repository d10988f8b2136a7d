import Mathlib
import AuditeDB.World.Write

/-!
# Rows of the timeline

The columns of one event as the timeline reads them, and the newest body event of a verified world, to which a
delete anchors its ledger rows.
-/

namespace AuditeDB

open Results

/-- `TimelineEventIdentity`. -/
structure TimelineEventIdentity where
  eventType : String
  target : String
  bodySha256 : String
deriving DecidableEq

/-- The columns of an event that identify its row. -/
def EventRecord.identity (e : EventRecord) : SqlResult TimelineEventIdentity := do
  let eventType ← e.eventType.getString
  let target ← e.target.getString
  let bodySha256 ← e.bodySha256.getString
  pure ⟨eventType, target, bodySha256⟩

namespace TimelineEventIdentity

/-- `TimelineEventIdentity::kind_or_corrupt`. -/
def kindOrCorrupt (row : TimelineEventIdentity) : SqlResult AuditEventKind :=
  requireSome (corruptError "events.event_type is not a known audit event") (AuditEventKind.fromStorage row.eventType)

/-- `TimelineEventIdentity::target_matches`. -/
def targetMatches (row : TimelineEventIdentity) (world : ValidatedWorldPath) : Bool := row.target = world.name

/-- `TimelineEventIdentity::body_sha256_or_corrupt`. -/
def bodySha256OrCorrupt (row : TimelineEventIdentity) : SqlResult BodySha256 :=
  (BodySha256.new row.bodySha256).mapError fun error => corruptError ("events.body_sha256 is invalid: " ++ error)

end TimelineEventIdentity

/-- `load_latest_body_head`: the newest body event with the label of its HMAC. -/
def loadLatestBodyHead (db : Database) : SqlResult (Option (TimelineSeq × TimelineEventIdentity × String)) :=
  match db.bodyEventsDesc.head? with
  | none => pure none
  | some e => do
    let identity ← e.identity
    let hmac ← e.hmac.getString
    let seq ← (TimelineSeq.new e.id).mapError fun _ => corruptError "events.id is not positive"
    pure (some (seq, identity, hmacLabel hmac))

/-- `verified_latest_body_head_via_conn`, as the subject that a delete records. -/
def verifiedLatestBodyHead [HashSuite] (key : AuditHmacKey) (world : ValidatedWorldPath) (db : Database) :
    AuditResult (Option DeleteSubjectProof) := do
  requireWorldIntact key world db
  match ← liftSql (loadLatestBodyHead db) with
  | none => pure none
  | some (seq, row, hmac) =>
    let kind ← liftSql row.kindOrCorrupt
    rejectIf (!kind.bodyBearing) (.storage (corruptError "latest body query returned a metadata event"))
    rejectIf (!row.targetMatches world) (.storage (corruptError "events.target does not match requested world"))
    let bodySha256 ← liftSql row.bodySha256OrCorrupt
    let generation ← liftSql (generation db)
    pure (some ⟨⟨world, generation, seq, bodySha256⟩, hmac⟩)

end AuditeDB
