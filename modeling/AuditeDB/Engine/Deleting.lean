import Mathlib
import AuditeDB.World.Timeline
import AuditeDB.Engine.Writing

/-!
# Delete

A delete records its intent in the ledger world, removes the world, and records the commit. The ledger has one
cached connection, and deletes append to it one at a time.
-/

namespace AuditeDB

open Results Interleaving

/-- `BlockingSqliteError`. -/
inductive BlockingSqliteError where
  | audit (error : AuditError)
  | sqlite (error : SqlError)
  | counterCapacity
deriving DecidableEq

/-- `DeleteError`. The storage variants, which only differ by the class of the driver error, are one. -/
inductive DeleteError where
  | auth (gate : AuthGate)
  | appendOnlyLedger
  | reservedMetadataHeader
  | invalidMetadata (message : String)
  | preconditionFailed (message : String)
  | notFound
  | subjectAudit (error : AuditError)
  | auditRead (scope : String) (error : AuditError)
  | subjectMissingHead
  | storage (scope : String) (error : SqlError)
  | auditIntent (error : BlockingSqliteError)
  | shuttingDown
  | deleteFailedAfterIntent
  | auditCommitFailed
deriving DecidableEq

/-- `classify_audit_error`. -/
def classifyDeleteAuditError (scope : String) : AuditError → DeleteError
  | .chainBroken breakReport => .auditRead scope (.chainBroken breakReport)
  | .storage error => .storage scope error

/-- `DeleteRequest`. -/
structure DeleteRequest where
  preconditions : Preconditions
  contentType : String
  headers : Headers
deriving DecidableEq

/-- What happens outside the engine during one append to the ledger. -/
structure LedgerEnv where
  opening : OpenEnv
  count : Option SqlError
  transaction : Option AuditError
  clock : TxClock

/-- What happens outside the engine during a delete; `removal` says whether the removal of the files works. -/
structure DeleteEnv where
  precondition : Option AuditError
  read : Option AuditError
  usage : Option SqlError
  subject : Option AuditError
  intent : LedgerEnv
  removal : Bool
  commit : LedgerEnv
  commitFailed : LedgerEnv

/-- `AuditAppendJob`, with size zero as in every delete. -/
structure AuditAppendJob where
  eventType : AuditEventKind
  target : ValidatedWorldPath
  bodySha256 : BodySha256
  contentType : String
  headers : AuditHeaders

/-- The event that an append to the ledger reports. -/
def AuditAppendJob.appended (job : AuditAppendJob) (formatEvent : Option AppendedAuditRow)
    (row : AppendedAuditRow) : AppendedLedgerEvent :=
  ⟨row.eventType, row.target, row.eventId, row.bodySha256, row.size, row.contentType,
    job.headers.deleteSubject, row.hmac, formatEvent⟩

/-- The verb under which `notify_ledger_event` announces a row. -/
def ledgerVerb : AuditEventKind → ChangeVerb
  | .deleteIntent | .deleteCommit | .deleteCommitFailed => .delete
  | .put | .append => .replace
  | .format => .format

/-- `acquire` of the delete ledger stream lock around a call. -/
def withStreamLock {ε α : Type} (body : Prog Core ε α) : Prog Core ε α := do
  Prog.await (fun core => !core.deleteLedgerStreamLock) fun core => { core with deleteLedgerStreamLock := true }
  body.ensuring fun core => { core with deleteLedgerStreamLock := false }

/-- The lazy connection of the ledger writer. -/
def openLedger (env : OpenEnv) : Prog Core SqlError Unit := do
  let cached ← Prog.atomically fun core => (core.ledgerConn, core)
  if cached then pure ()
  else do
    let _ ← openWorldPaths env deleteLedgerWorld
    Prog.modify fun core => { core with ledgerConn := true }

/-- `ledger_is_empty`. -/
def ledgerIsEmpty (fault : Option SqlError) : Prog Core SqlError Bool :=
  .attempt fun core => do
    storageFault fault
    let db ← requireSome missingFileError (core.database deleteLedgerWorld)
    pure (db.events.isEmpty, core)

/-- `subtract_storage_usage`, one counter at a time. -/
def subtractStorageUsage {ε : Type} (usage : StorageUsageSnapshot) : Prog Core ε PUnit := do
  Prog.modify (·.creditStorage usage.totalBodyBytes)
  Prog.modify (·.adjustCurrentBody usage.currentBodyBytes 0)
  Prog.modify (·.adjustRetainedCas usage.retainedCasBodyBytes 0)
  Prog.modify (·.creditAuditEvents usage.auditChainEvents)

/-- The error for a durable world whose database is gone. -/
def storageLenMissingError : SqlError := corruptError "persistent world vanished while computing storage_len"

section

variable [HashSuite] (config : Config) (caller : Nat)

/-- The transaction of one ledger append: the rows and the database after it. -/
def ledgerTransaction (clock : TxClock) (job : AuditAppendJob) (isEmpty : Bool) (db : Database) :
    AuditResult (AppendedLedgerEvent × Database) :=
  if isEmpty then do
    let ((formatEvent, row), db) ← appendGenesisRow config.hmacKey deleteLedgerWorld clock.format clock.body
      job.eventType job.target job.bodySha256 0 job.contentType job.headers db
    pure (job.appended (some formatEvent) row, db)
  else do
    let (row, db) ← appendExistingRow config.hmacKey deleteLedgerWorld clock.body job.eventType job.target
      job.bodySha256 0 job.contentType job.headers db
    pure (job.appended none row, db)

/-- The committed transaction of one ledger append. -/
def commitLedger (env : LedgerEnv) (job : AuditAppendJob) (isEmpty : Bool) :
    Prog Core BlockingSqliteError AppendedLedgerEvent :=
  .attempt fun core => Except.mapError .audit do
    storageFault env.transaction
    let db ← requireSome (.storage missingFileError) (core.database deleteLedgerWorld)
    let (event, db) ← ledgerTransaction config env.clock job isEmpty db
    pure (event, { core.setDir deleteLedgerWorld (.database db) with
      journal := core.journal ++ [.logged caller event] })

/-- `LedgerWriter::append`. -/
def appendToLedger (env : LedgerEnv) (job : AuditAppendJob) : Prog Core BlockingSqliteError AppendedLedgerEvent := do
  (openLedger env.opening).mapError .sqlite
  let isEmpty ← (ledgerIsEmpty env.count).mapError .sqlite
  commitLedger config caller env job isEmpty

/-- `append_ledger_event_and_notify`. -/
def appendLedgerEventAndNotify (env : LedgerEnv) (job : AuditAppendJob) :
    Prog Core BlockingSqliteError AppendedLedgerEvent := do
  reserveAuditEvents .counterCapacity
  let event ← Prog.onError (·.creditAuditEvents 2) (appendToLedger config caller env job)
  Prog.modify (·.creditAuditEvents (unusedAuditEvents event.formatEvent))
  notifyFormat config event.formatEvent
  notifyWithAux config (ledgerVerb event.eventType) event.changeTarget (hmacEtag event.hmac) .default
  pure event

variable (env : DeleteEnv) (world : ValidatedWorldPath)

/-- `check_preconditions` of a delete. -/
def checkDeletePreconditions (preconditions : Preconditions) : Prog Core DeleteError Unit :=
  if preconditions.isEmpty then .done ()
  else .attempt fun core => do
    let current ← ((storageFault env.precondition).bind fun _ => core.readWorldWithEtag config world).mapError
      (classifyDeleteAuditError "precondition read")
    (checkPreconditions preconditions (current.map Prod.snd)).mapError .preconditionFailed
    pure ((), core)

/-- The current representation, which a delete needs. -/
def readSubject : Prog Core DeleteError Stage :=
  .attempt fun core => do
    let current ← ((storageFault env.read).bind fun _ => core.readWorldWithEtag config world).mapError
      (classifyDeleteAuditError "storage read")
    let (stage, _) ← requireSome .notFound current
    pure (stage, core)

/-- `accounted_storage_usage` of a durable world. -/
def accountedStorageUsage : Prog Core DeleteError StorageUsageSnapshot :=
  .attempt fun core => do
    let usage ← ((storageFault env.usage).bind fun _ => do
      let db ← requireSome storageLenMissingError (← core.openExisting world)
      storageUsage db).mapError (.storage "storage size")
    pure (usage, core)

/-- `capture_delete_subject_proof` of a durable world. -/
def captureDeleteSubjectProof : Prog Core DeleteError DeleteSubjectProof :=
  .attempt fun core => do
    let head ← ((storageFault env.subject).bind fun _ => do
      match ← liftSql (core.openExisting world) with
      | none => pure none
      | some db => verifiedLatestBodyHead config.hmacKey world db).mapError .subjectAudit
    let subject ← requireSome .subjectMissingHead head
    pure (subject, core)

/-- What a delete finds out about a world before it records its intent: the accounted usage and the subject of
a durable world, and the digest of the body. -/
structure DeleteSubject where
  usage : Option StorageUsageSnapshot
  bodySha256 : BodySha256
  headers : AuditHeaders

/-- The reads of a delete in front of the intent. -/
def prepareDelete (request : DeleteRequest) : Prog Core DeleteError DeleteSubject := do
  checkDeletePreconditions config env world request.preconditions
  Prog.lift ((validateRepresentationMetadata request.contentType request.headers).mapError .invalidMetadata)
  let userHeaders ← Prog.lift (requireSome .reservedMetadataHeader (AuditHeaders.fromUser request.headers))
  let stage ← readSubject config env world
  if isMemoryWorld world then pure ⟨none, .forBody stage.body, userHeaders⟩
  else do
    let usage ← accountedStorageUsage env world
    let subject ← captureDeleteSubjectProof config env world
    pure ⟨some usage, subject.address.bodySha256, userHeaders.withDeleteSubject subject⟩

/-- `delete_world_now`: the removal of the entry in memory or of the directory. -/
def Core.deleteWorldNow (core : Core) (world : ValidatedWorldPath) (removal : Bool) : Bool × Core :=
  if isMemoryWorld world then
    let (removed, mem) := core.mem.delete world
    (removed, { core with mem := mem })
  else if (core.data.lookup world).isSome && removal then (true, { core with data := core.data.erase world })
  else (false, core)

/-- The removal of the world with its journal entry. -/
def removeWorld : Prog Core DeleteError Unit :=
  .attempt fun core =>
    match core.deleteWorldNow world env.removal with
    | (true, core) => pure ((), { core with journal := core.journal ++ [.removed caller world] })
    | (false, _) => throw .deleteFailedAfterIntent

/-- The counters after the removal of a durable world. -/
def forgetUsage (usage : Option StorageUsageSnapshot) : Prog Core DeleteError PUnit :=
  match usage with
  | none => pure ⟨⟩
  | some usage => do
    subtractStorageUsage usage
    Prog.modify fun core => { core with durableWorldCount := core.durableWorldCount - 1 }

/-- The commit row of a delete; without it the delete fails, and a last row says so. -/
def commitDelete (job : AuditEventKind → AuditAppendJob) : Prog Core DeleteError Unit := do
  let committed ← Prog.result (appendLedgerEventAndNotify config caller env.commit (job .deleteCommit))
  match committed with
  | .ok _ => pure ()
  | .error _ => do
    let _ ← Prog.result (appendLedgerEventAndNotify config caller env.commitFailed (job .deleteCommitFailed))
    throw .auditCommitFailed

/-- `delete_blocking` behind the locks. -/
def deleteBlocking (request : DeleteRequest) : Prog Core DeleteError Unit := do
  beginFileOp .shuttingDown
  let subject ← prepareDelete config env world request
  let job := fun kind => ⟨kind, world, subject.bodySha256, request.contentType, subject.headers⟩
  let intent ← (appendLedgerEventAndNotify config caller env.intent (job .deleteIntent)).mapError .auditIntent
  Prog.modify fun core =>
    if core.deleteLedgerCreated then core
    else { core with deleteLedgerCreated := true, durableWorldCount := core.durableWorldCount + 1 }
  Prog.modify fun core => { core with writeConns := core.writeConns.erase world }
  removeWorld caller env world
  Prog.modify fun core => { core with verifiedAuditWorlds := core.verifiedAuditWorlds.erase world }
  forgetUsage subject.usage
  notifyWithAux config .delete (.ephemeral world) "" ⟨some intent.eventId, intent.deleteSubject⟩
  commitDelete config caller env job

/-- `delete_ops::delete`: first the lock of the world, then the lock of the ledger stream. -/
def delete (request : DeleteRequest) : Prog Core DeleteError Unit :=
  withWorldLock world (withStreamLock (deleteBlocking config caller env world request))

end

end AuditeDB
