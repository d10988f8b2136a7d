import Mathlib
import AuditeDB.Audit.Retention

/-!
# Audit gates and audit rows

The verification of a whole world, the gates in front of reads and writes, and the statements that append a
signed row to the chain.
-/

namespace AuditeDB

open Utf8 Results

/-- The joined rows of the newest event: `AUDIT_TAIL_SELECT`. -/
def Database.auditTailSelect (db : Database) : List JoinedRow :=
  match db.eventsDesc.head? with
  | none => []
  | some last => ((db.events.filter (·.id = last.id)).flatMap db.joinHeaders).insertionSort
      fun a b => a.headerKey ≤ b.headerKey

/-- The loop of `latest_event_with_headers_tx`. -/
def collectTail : List JoinedRow → Option EventRow → Headers → SqlResult (Option (EventRow × Headers))
  | [], event, headers => pure (event.map (·, headers))
  | joined :: rows, event, headers => do
    let row ← joined.event.read
    rejectIf (∃ existing ∈ event, existing.id ≠ row.id) .invalidQuery
    let name ← joined.name.getOptionString
    let value ← joined.value.getOptionString
    collectTail rows (some (event.getD row)) (pushHeader headers name value)

/-- `latest_event_with_headers_tx`. -/
def latestEventWithHeaders (db : Database) : SqlResult (Option (EventRow × Headers)) :=
  collectTail db.auditTailSelect none []

/-- `previous_hmac_tx`. -/
def previousHmac (db : Database) (tailId : Int) : SqlResult String :=
  match (db.eventsDesc.filter (·.id < tailId)).head? with
  | none => pure ""
  | some e => e.hmac.getString

/-- The state with which the tail gate checks the newest event. -/
def VerifyAccumulator.tail (prevHmac : String) (eventCount : Nat) : VerifyAccumulator :=
  ⟨prevHmac, "", eventCount - 1, none, CasRetentionState.tailUnchecked.firstRetainedSeq.isNone, ∅, none, none⟩

section

variable [HashSuite] (key : AuditHmacKey) (world : ValidatedWorldPath)

/-- `verify_tail_event`: the event check with the state that the tail gate builds. -/
def verifyTailEvent (generation : WorldGeneration) (event : EventRow × Headers) (prevHmac : String)
    (eventCount : Nat) : Except VerifyBreak Unit := do
  let _ ← verifyEvent key .tailUnchecked world generation (.tail prevHmac eventCount) event

/-- `require_current_tail_intact_tx`: the gate in front of reads. -/
def requireCurrentTailIntact (db : Database) : AuditResult Unit := do
  let generation ← liftSql (generation db)
  let eventCount := db.events.length
  let tail ← liftSql (latestEventWithHeaders db)
  let event ← requireSome (.chainBroken ⟨0, "at-least-one-event", "no-events"⟩) tail
  let prev ← liftSql (previousHmac db event.1.id)
  liftBreak (verifyTailEvent key world generation event prev eventCount)
  requireNoBreak (verifyTailBody db event.1 (eventCount - 1))
  requireNoBreak (verifyLiveBody db)

/-- `verify_statement` and `require_intact`. -/
def requireStatementIntact (retention : CasRetentionState) (generation : WorldGeneration)
    (allowEmpty : Bool) (db : Database) : AuditResult Unit := do
  match ← liftSql (verifyStatementCapture key retention world generation db.auditSelect allowEmpty none) with
  | .valid .. => pure ()
  | .broken report => throw (.chainBroken report)

/-- `verify_world_tx` and `require_intact`: the verification of the chain without the live body. -/
def requireChainIntact (db : Database) : AuditResult Unit := do
  let generation ← liftSql (generation db)
  let retention ← liftSql (CasRetentionState.load db)
  requireStatementIntact key world retention generation false db

/-- `require_world_intact_tx`: the full verification of a world in a transaction. -/
def requireWorldIntact (db : Database) : AuditResult Unit := do
  let generation ← liftSql (generation db)
  let retention ← liftSql (CasRetentionState.load db)
  requireStatementIntact key world retention generation false db
  requireNoBreak (verifyLiveBody db)

variable {key world} in
/-- A world passes the full verification when its chain is valid and its live body is the newest one. -/
theorem requireWorldIntact_ok {db : Database} {generation : WorldGeneration} {retention : CasRetentionState}
    (hgeneration : AuditeDB.generation db = .ok generation) (hload : CasRetentionState.load db = .ok retention)
    (hvalid : ∃ ok head read, verifyStatementCapture key retention world generation db.auditSelect false none =
      .ok (.valid ok head read))
    (hlive : verifyLiveBody db = .ok none) : requireWorldIntact key world db = .ok () := by
  obtain ⟨ok, head, read, hvalid⟩ := hvalid
  rw [requireWorldIntact, hgeneration, hload, hlive]
  simp only [liftSql, Except.mapError, ok_bind, requireStatementIntact, hvalid]
  rfl

/-- `verify_world_with_file_op`: open an existing database, with its shape check, and verify it in full. -/
def verifyWorldWithFileOp (db : Database) : AuditResult Unit := do
  liftSql (verifyOpenShape db)
  requireWorldIntact key world db

variable {key world} in
/-- An intact world has an intact chain. -/
theorem requireChainIntact_of_world {db : Database} (h : requireWorldIntact key world db = .ok ()) :
    requireChainIntact key world db = .ok () := by
  unfold requireWorldIntact at h
  simp only [bind_eq_ok] at h
  obtain ⟨generation, hgeneration, retention, hload, _, hintact, _⟩ := h
  exact bind_eq_ok.mpr ⟨generation, hgeneration, bind_eq_ok.mpr ⟨retention, hload, hintact⟩⟩

variable {key world} in
/-- An accepted world has an intact chain. -/
theorem requireChainIntact_of_accepted {db : Database} (h : verifyWorldWithFileOp key world db = .ok ()) :
    requireChainIntact key world db = .ok () := by
  obtain ⟨_, _, hworld⟩ := bind_eq_ok.mp h
  exact requireChainIntact_of_world hworld

/-- `verify_current_tail_body_tx`. -/
def verifyCurrentTailBody (db : Database) : SqlResult (Option VerifyBreak) := do
  match ← latestEventWithHeaders db with
  | none => pure none
  | some event => verifyTailBody db event.1 (db.events.length - 1)

/-- `VerifiedAuditTx`: the authority to append to the chain of a world. -/
structure VerifiedAuditTx where
  key : AuditHmacKey
  world : ValidatedWorldPath
  generation : WorldGeneration

/-- `verify_appendable_tx_full`: the full gate in front of writes. -/
def verifyAppendableFull (allowEmpty : Bool) (db : Database) : AuditResult VerifiedAuditTx := do
  let generation ← liftSql (generation db)
  let retention ← liftSql (CasRetentionState.loadForAppend db)
  requireStatementIntact key world retention generation allowEmpty db
  requireNoBreak (verifyCurrentTailBody db)
  requireNoBreak (verifyLiveBody db)
  pure ⟨key, world, generation⟩

/-- `verify_appendable_tx_existing_tail_checked`: the gate for a world verified before. -/
def verifyAppendableTailChecked (db : Database) : AuditResult VerifiedAuditTx := do
  let generation ← liftSql (generation db)
  let _ ← liftSql (CasRetentionState.loadForAppend db)
  requireCurrentTailIntact key world db
  pure ⟨key, world, generation⟩

end

/-- `AppendedAuditRow`. -/
structure AppendedAuditRow where
  world : ValidatedWorldPath
  id : TimelineSeq
  hmac : String
  generation : WorldGeneration
  eventType : AuditEventKind
  target : ValidatedWorldPath
  bodySha256 : BodySha256
  size : Int
  contentType : String
deriving DecidableEq

/-- `AuditTimestamp::now_tx`, with the text that the database clock gives. -/
def AuditTimestamp.now (clock : String) : SqlResult AuditTimestamp :=
  (AuditTimestamp.fromStorage clock).mapError fun actual =>
    .invalidParameterName s!"invalid audit timestamp: {actual}"

/-- `SELECT hmac FROM events ORDER BY id DESC LIMIT 1`. -/
def latestHmac (db : Database) : SqlResult (Option String) :=
  match db.eventsDesc.head? with
  | none => pure none
  | some e => e.hmac.getString >>= fun hmac => pure (some hmac)

/-- `INSERT INTO events`: the row gets the next id, and the ids may run out. -/
def Database.insertEvent (db : Database) (row : EventRow) : SqlResult (Int × Database) := do
  let id := db.nextEventId
  rejectIf ((i64Max : Int) < id) (.sqliteFailure .full "database or disk is full")
  pure (id, { db with events := db.events ++ [{ row with id := id }.record], eventSequence := id })

/-- `INSERT INTO event_headers` for every header. -/
def Database.insertEventHeaders (db : Database) (id : Int) (headers : Headers) : Database :=
  { db with eventHeaders := db.eventHeaders ++
      headers.map fun h => ⟨.integer id, .text h.1, .text h.2⟩ }

/-- `append_tx_inner`: sign a row and append it to the chain. -/
def appendTxInner [HashSuite] (audit : VerifiedAuditTx) (clock : String) (kind : AuditEventKind)
    (target : ValidatedWorldPath) (bodySha256 : BodySha256) (size : Int) (contentType : String)
    (headers : Headers) (db : Database) : SqlResult (AppendedAuditRow × Database) := do
  let canonical := canonicalHeaders headers
  let metaSha256 := metaSha256Canonical contentType canonical
  let timestamp ← AuditTimestamp.now clock
  let prev := (← latestHmac db).getD ""
  let hmac := eventHmac audit.key ⟨prev, audit.world, timestamp, kind.asStr, target.name, audit.generation,
    bodySha256.text, size, contentType, metaSha256⟩
  let (id, db) ← db.insertEvent ⟨0, timestamp.text, kind.asStr, target.name, bodySha256.text, size,
    contentType, metaSha256, hmac, prev⟩
  let db := db.insertEventHeaders id canonical
  let seq ← (TimelineSeq.new id).mapError fun _ => .invalidQuery
  pure (⟨audit.world, seq, hmac, audit.generation, kind, target, bodySha256, size, contentType⟩, db)

/-- `append_format_tx_row`. -/
def appendFormatTxRow [HashSuite] (audit : VerifiedAuditTx) (clock : String) (db : Database) :
    SqlResult (AppendedAuditRow × Database) :=
  appendTxInner audit clock .format audit.world (.forBody []) 0 ""
    [(worldFormatVersionHeader, toString currentWorldFormatVersion)] db

/-- `append_with_conn_existing_row`: one ledger row behind the full gate. -/
def appendExistingRow [HashSuite] (key : AuditHmacKey) (ledger : ValidatedWorldPath) (clock : String)
    (kind : AuditEventKind) (target : ValidatedWorldPath) (bodySha256 : BodySha256) (size : Int)
    (contentType : String) (headers : AuditHeaders) (db : Database) :
    AuditResult (AppendedAuditRow × Database) := do
  let audit ← verifyAppendableFull key ledger false db
  liftSql (appendTxInner audit clock kind target bodySha256 size contentType headers.toStoragePairs db)

/-- `append_with_conn_genesis_row`: the first ledger row with the format row before it. -/
def appendGenesisRow [HashSuite] (key : AuditHmacKey) (ledger : ValidatedWorldPath)
    (formatClock clock : String) (kind : AuditEventKind) (target : ValidatedWorldPath)
    (bodySha256 : BodySha256) (size : Int) (contentType : String) (headers : AuditHeaders) (db : Database) :
    AuditResult ((AppendedAuditRow × AppendedAuditRow) × Database) := do
  let audit ← verifyAppendableFull key ledger true db
  let (formatRow, db) ← liftSql (appendFormatTxRow audit formatClock db)
  let (row, db) ← liftSql
    (appendTxInner audit clock kind target bodySha256 size contentType headers.toStoragePairs db)
  pure ((formatRow, row), db)

end AuditeDB
