import Mathlib
import AuditeDB.World.Cas

/-!
# Write and read transactions of one world

A transaction is a function on the database that either commits the database it returns or fails and changes
nothing.
-/

namespace AuditeDB

open Utf8 Results

/-- `OpenedWorldKind`: whether a connection created the database file. -/
inductive OpenedWorldKind where
  | created | existing
deriving DecidableEq

/-- The clock texts that a write transaction reads for the format row and for the body row. -/
structure TxClock where
  format : String
  body : String

/-- `WriteAuditResult` and `AppendAuditResult`: what a committed write reports. -/
structure WriteAuditResult where
  hmac : String
  casBodyInserted : Bool
  prunedCas : Nat
  formatEvent : Option AppendedAuditRow
  bodyEvent : AppendedAuditRow
deriving DecidableEq

/-- `AppendedBodyAuditRow::timeline_address`. -/
def AppendedAuditRow.timelineAddress (row : AppendedAuditRow) : TimelineAddress :=
  ⟨row.target, row.generation, row.id, row.bodySha256⟩

/-- `is_empty_bootstrap_tx`. -/
def isEmptyBootstrap (db : Database) : SqlResult Bool := do
  let row ← requireSome .queryReturnedNoRows db.stageMetaRow
  pure (db.events.isEmpty && db.eventHeaders.isEmpty && db.metaHeaders.isEmpty &&
    row.body.blobLength = some 0)

/-- `audit_chain_opening`: whether the chain starts with this transaction. -/
def auditChainOpening (opened : OpenedWorldKind) (db : Database) : SqlResult Bool :=
  match opened with
  | .created => pure true
  | .existing => isEmptyBootstrap db

/-- `INSERT INTO meta_headers`; the name is the primary key. -/
def Database.insertMetaHeader (db : Database) (header : String × String) : SqlResult Database := do
  rejectIf (db.metaHeaders.any (·.name = .text header.1))
    (.sqliteFailure .constraint "UNIQUE constraint failed: meta_headers.name")
  pure { db with metaHeaders := db.metaHeaders ++ [⟨.text header.1, .text header.2⟩] }

/-- `DELETE FROM meta_headers` and one insertion per header. -/
def replaceMetaHeaders (headers : Headers) (db : Database) : SqlResult Database :=
  headers.foldlM Database.insertMetaHeader { db with metaHeaders := [] }

section

variable [HashSuite] (key : AuditHmacKey) (world : ValidatedWorldPath) (clock : TxClock)

/-- `verify_appendable_world_tx`: the gate of a write, which is the tail check for a verified world. -/
def verifyAppendableWorld (verified : Bool) (opened : OpenedWorldKind) (db : Database) :
    WriteResult (VerifiedAuditTx × Bool) := do
  let genesis ← liftWrite (auditChainOpening opened db)
  let audit ← Except.mapError .audit
    (if genesis then verifyAppendableFull key world true db
      else if verified then verifyAppendableTailChecked key world db
      else verifyAppendableFull key world false db)
  pure (audit, genesis)

/-- The gate of a write and the format row of a chain that starts with it. -/
def openChain (verified : Bool) (opened : OpenedWorldKind) (db : Database) :
    WriteResult (VerifiedAuditTx × Option AppendedAuditRow × Database) := do
  let (audit, genesis) ← verifyAppendableWorld key world verified opened db
  if genesis then
    let (row, db) ← liftWrite (appendFormatTxRow audit clock.format db)
    pure (audit, some row, db)
  else pure (audit, none, db)

/-- The steps that `write_with_audit_checked_retaining_on_conn` and `append_with_audit_retaining_on_conn`
share: retain the body, update the live row, sign the event, start retention and prune. -/
def commitBody (audit : VerifiedAuditTx) (formatEvent : Option AppendedAuditRow) (kind : AuditEventKind)
    (body : Bytes) (update : Database → SqlResult Database) (contentType : String) (headers : Headers)
    (retained : RetainedBodyCount) (db : Database) : WriteResult (WriteAuditResult × Database) := do
  let (stored, db) ← retainBody body db
  let db ← liftWrite (update db)
  let (row, db) ← liftWrite
    (appendTxInner audit clock.body kind world stored.bodySha256 stored.size contentType headers db)
  let db ← markRetentionStarted row.id db
  let (pruned, db) ← pruneToCount retained db
  pure (⟨row.hmac, stored.inserted, pruned, formatEvent, row⟩, db)

/-- `write_with_audit_checked_retaining_on_conn`: the transaction of a replace. -/
def writeWithAudit (verified : Bool) (opened : OpenedWorldKind) (body : Bytes) (contentType : String)
    (headers : Headers) (retained : RetainedBodyCount) (db : Database) :
    WriteResult (WriteAuditResult × Database) := do
  let (audit, formatEvent, db) ← openChain key world clock verified opened db
  commitBody world clock audit formatEvent .put body
    (fun db => replaceMetaHeaders headers (db.updateStage body contentType)) contentType headers retained db

/-- `append_with_audit_retaining_on_conn`: the transaction of an append, which always treats the database as
an existing one. -/
def appendWithAudit (verified : Bool) (body : Bytes) (contentType : String) (headers : Headers)
    (retained : RetainedBodyCount) (db : Database) : WriteResult (WriteAuditResult × Database) := do
  let (audit, formatEvent, db) ← openChain key world clock verified .existing db
  let current ← liftWrite (liveBody db)
  commitBody world clock audit formatEvent .append (current ++ body)
    (fun db => pure (db.updateStageBody (current ++ body))) contentType headers retained db

end

/-- `Stage`: the current representation of a world. -/
structure Stage where
  body : Bytes
  contentType : String
  headers : Headers
deriving DecidableEq

/-- `SELECT name, value FROM meta_headers ORDER BY name`. -/
def readMetaHeaders (db : Database) : SqlResult Headers :=
  db.metaHeadersByName.mapM fun row => do
    let name ← row.name.getString
    let value ← row.value.getString
    pure (name, value)

/-- `read_with_hmac_via_conn`: the current representation with the newest HMAC, behind the tail gate. -/
def readWithHmac [HashSuite] (key : AuditHmacKey) (world : ValidatedWorldPath) (db : Database) :
    AuditResult (Stage × Option String) := do
  requireCurrentTailIntact key world db
  let row ← liftSql (requireSome .queryReturnedNoRows db.stageMetaRow)
  let body ← liftSql row.body.getBytes
  let contentType ← liftSql row.contentType.getString
  let headers ← liftSql (readMetaHeaders db)
  let hmac ← liftSql (latestHmac db)
  pure (⟨body, contentType, headers⟩, hmac)

/-- `metadata` of an opened database: body length, content type and headers, without a gate. -/
def metadata (db : Database) : SqlResult (Nat × String × Headers) := do
  let row ← requireSome .queryReturnedNoRows db.stageMetaRow
  let bodyLen ← requireSome .invalidColumnType row.body.blobLength
  let contentType ← row.contentType.getString
  let headers ← readMetaHeaders db
  pure (bodyLen, contentType, headers)

end AuditeDB
