import Mathlib
import AuditeDB.Engine.Opening

/-!
# Replace and append

A write reserves its storage before the transaction, settles the counters after the commit, and tells the
subscribers while it still holds the lock of the world. Every access to a shared counter, lock or cache is a
step of its own.
-/

namespace AuditeDB

open Results Interleaving

/-- `StorageOp`. -/
inductive StorageOp where
  | read | writeAudit
deriving DecidableEq

/-- `AuthGate`. -/
inductive AuthGate where
  | read | write | writeApprove | delete
deriving DecidableEq

/-- `StorageInvariantReason`. -/
inductive StorageInvariantReason where
  | casBodyMismatch (bodySha256 : BodySha256)
  | casState (message : String)
deriving DecidableEq

/-- `WriteError`. The storage variants, which only differ by the class of the driver error, are one. -/
inductive WriteError where
  | auth (gate : AuthGate)
  | appendOnly
  | payloadTooLarge (max : Nat)
  | preconditionFailed (message : String)
  | notFound
  | quotaExceeded (used quota projected : Nat)
  | storage (scope : String) (error : SqlError) (op : StorageOp)
  | storageInvariant (reason : StorageInvariantReason)
  | auditChainBroken (scope : String) (breakReport : VerifyBreak)
  | shuttingDown
  | internal (message : String)
deriving DecidableEq

/-- `classify_write_storage_error`. -/
def classifyWriteStorageError (scope : String) (op : StorageOp) (error : SqlError) : WriteError :=
  .storage scope error op

/-- `classify_write_audit_error`. -/
def classifyWriteAuditError (scope : String) : AuditError → WriteError
  | .chainBroken breakReport => .auditChainBroken scope breakReport
  | .storage error => classifyWriteStorageError scope .writeAudit error

/-- The error of a failed write transaction. -/
def classifyTransactionError : WriteAuditError → WriteError
  | .audit error => classifyWriteAuditError "storage/audit" error
  | .sqlite error => classifyWriteStorageError "storage/audit" .writeAudit error
  | .casBodyMismatch bodySha256 => .storageInvariant (.casBodyMismatch bodySha256)
  | .storageInvariant message => .storageInvariant (.casState message)

/-- `ReplaceRequest`. -/
structure ReplaceRequest where
  body : Bytes
  contentType : String
  headers : Headers
  preconditions : Preconditions
deriving DecidableEq

/-- `AppendRequest`. -/
structure AppendRequest where
  body : Bytes
  preconditions : Preconditions
deriving DecidableEq

/-- `WriteStatusKind`. -/
inductive WriteStatusKind where
  | created | updated
deriving DecidableEq

/-- `WriteOutcome`. -/
structure WriteOutcome where
  statusKind : WriteStatusKind
  etag : String
deriving DecidableEq

/-- What happens outside the engine during a write: failures of the reads before the transaction, of the
connection and of the transaction, a poisoned connection, and the clock. -/
structure WriteEnv where
  precondition : Option AuditError
  preflight : Option SqlError
  candidate : Option SqlError
  prunable : Option SqlError
  opening : OpenEnv
  poisoned : Bool
  transaction : Option WriteAuditError
  clock : TxClock

/-- Nothing fails during a write. -/
def WriteEnv.quiet (generation : WorldGeneration) (clock : TxClock) : WriteEnv :=
  ⟨none, none, none, none, .quiet generation, false, none, clock⟩

/-- The update of the replay ring by `notify_with_aux`. -/
def Core.pushEvent (core : Core) (listenReplayMax : Nat) (change : ChangeEvent) : Core :=
  let log := core.eventLog ++ [change]
  { core with eventLog := log.drop (log.length - listenReplayMax) }

/-- `notify_with_aux`: take an id, enter the ring, broadcast. -/
def notifyWithAux {ε : Type} (config : Config) (verb : ChangeVerb) (target : ChangeTarget) (etag : String)
    (aux : ChangeEventAux) : Prog Core ε PUnit := do
  let id ← Prog.atomically fun core => (core.nextEvent + 1, { core with nextEvent := core.nextEvent + 1 })
  Prog.modify fun core => core.pushEvent config.listenReplayMax ⟨id, verb, target, etag, aux⟩
  Prog.modify fun core => { core with sent := core.sent ++ [⟨id, verb, target, etag, aux⟩] }

/-- `format_change_event` and its notification. -/
def notifyFormat {ε : Type} (config : Config) : Option AppendedAuditRow → Prog Core ε PUnit
  | none => pure ⟨⟩
  | some row => notifyWithAux config .format row.changeTarget (hmacEtag row.hmac) .default

/-- `acquire_world_lock` around a call. -/
def withWorldLock {ε α : Type} (world : ValidatedWorldPath) (body : Prog Core ε α) : Prog Core ε α := do
  Prog.await (fun core => world ∉ core.worldLocks) fun core =>
    { core with worldLocks := insert world core.worldLocks }
  body.ensuring fun core => { core with worldLocks := core.worldLocks.erase world }

/-- `begin_file_op`. -/
def beginFileOp {ε : Type} (error : ε) : Prog Core ε Unit :=
  .attempt fun core => do
    rejectIf core.shuttingDown error
    pure ((), core)

/-- `PendingStorageReservation`. -/
structure PendingStorageReservation where
  reservedIncrease : Nat
  deferredCredit : Nat
deriving DecidableEq

/-- The reservation that a predicted credit leaves. -/
def PendingStorageReservation.mint (newLen predictedCredit : Nat) : PendingStorageReservation :=
  ⟨newLen - predictedCredit, predictedCredit - newLen⟩

/-- `reserve_storage_after_prune`. -/
def reserveStorageAfterPrune (config : Config) (prevLen newLen prunedLen : Nat) :
    Prog Core WriteError PendingStorageReservation :=
  .attempt fun core => do
    let used := core.storageBodyBytes
    let quota := config.storageQuota
    let predictedCredit ← requireSome (.quotaExceeded used quota usizeMax) (checkedAdd prevLen prunedLen)
    let pending := PendingStorageReservation.mint newLen predictedCredit
    let projected := used + pending.reservedIncrease
    rejectIf (usizeMax < projected || quota < projected) (.quotaExceeded used quota (min projected usizeMax))
    pure (pending, { core with storageBodyBytes := projected })

/-- `reserve_audit_events`: room for a format row and a body row. -/
def reserveAuditEvents {ε : Type} (error : ε) : Prog Core ε Unit :=
  .attempt fun core => do
    rejectIf (usizeMax < core.storageAuditChainEvents + 2) error
    pure ((), { core with storageAuditChainEvents := core.storageAuditChainEvents + 2 })

/-- The events that a committed append gives back: `commit_two` or `commit_one`. -/
def unusedAuditEvents (formatEvent : Option AppendedAuditRow) : Nat := if formatEvent.isSome then 0 else 1

/-- The counters after a committed transaction, in the order in which the writes update them. -/
def settleWrite {ε : Type} (pending : PendingStorageReservation) (candidateLen prunableLen prevLen newLen : Nat)
    (result : WriteAuditResult) : Prog Core ε PUnit := do
  Prog.modify (·.creditStorage pending.deferredCredit)
  Prog.modify fun core =>
    if result.casBodyInserted then core.adjustRetainedCas 0 newLen else core.creditStorage candidateLen
  Prog.modify (·.adjustRetainedCas result.prunedCas 0)
  Prog.modify (·.creditStorage (result.prunedCas - prunableLen))
  Prog.modify (·.adjustCurrentBody prevLen newLen)
  Prog.modify (·.creditAuditEvents (unusedAuditEvents result.formatEvent))

section

variable [HashSuite] (config : Config) (env : WriteEnv) (caller : Nat) (world : ValidatedWorldPath)

/-- `check_write_preconditions`. -/
def checkWritePreconditions (preconditions : Preconditions) : Prog Core WriteError Unit :=
  if preconditions.isEmpty then .done ()
  else .attempt fun core => do
    let current ← ((storageFault env.precondition).bind fun _ => core.readWorldWithEtag config world).mapError
      (classifyWriteAuditError "precondition read")
    (checkPreconditions preconditions (current.map Prod.snd)).mapError .preconditionFailed
    pure ((), core)

/-- A read of the database of a world before the transaction, when it exists. -/
def readDatabase {α : Type} (fault : Option SqlError) (scope : String)
    (read : Option Database → SqlResult α) : Prog Core WriteError α :=
  .attempt fun core => do
    let value ← ((storageFault fault).bind fun _ => (core.openExisting world).bind read).mapError
      (classifyWriteStorageError scope .read)
    pure (value, core)

/-- The size of a reservation, which may not fit. -/
def reserveNewLen (bodyLen candidateLen : Nat) : Prog Core WriteError Nat :=
  .attempt fun core => do
    let newLen ← requireSome (.quotaExceeded core.storageBodyBytes config.storageQuota usizeMax)
      (checkedAdd bodyLen candidateLen)
    pure (newLen, core)

/-- The connection after a committed transaction: only a replace marks it as one to an existing world. -/
def Core.markExisting (core : Core) (world : ValidatedWorldPath) : Core :=
  if (core.writeConns.lookup world).isSome then
    { core with writeConns := core.writeConns.insert world .existing }
  else core

/-- One write transaction: it commits with its journal entry or has no effect. -/
def commitTransaction (opened : OpenedWorldKind) (transaction : Bool → Database → WriteResult (WriteAuditResult × Database)) :
    Prog Core WriteError WriteAuditResult :=
  .attempt fun core => Except.mapError classifyTransactionError do
    storageFault env.transaction
    let before ← requireSome (.sqlite missingFileError) (core.database world)
    let (result, db) ← transaction (world ∈ core.verifiedAuditWorlds) before
    pure (result, { core.setDir world (.database db) with
      verifiedAuditWorlds := insert world core.verifiedAuditWorlds
      journal := core.journal ++ [.wrote caller world opened before result db] })

/-- The part of a durable write between the reservation of storage and the commit. A failure gives the
reservations back. -/
def reservedTransaction {α : Type} (pending : PendingStorageReservation) (body : Prog Core WriteError α) :
    Prog Core WriteError α :=
  Prog.onError (·.creditStorage pending.reservedIncrease) do
    reserveAuditEvents (.internal "audit event counter capacity exhausted")
    Prog.onError (·.creditAuditEvents 2) body

/-- The guard of the connection, which a panic elsewhere may have poisoned. -/
def lockConnection : Prog Core WriteError Unit :=
  Prog.lift (rejectIf env.poisoned (.internal "writer connection lock poisoned"))

/-- The connection and the transaction of a replace. -/
def replaceTransaction (request : ReplaceRequest) : Prog Core WriteError (OpenedWorldKind × WriteAuditResult) := do
  let opened ← (cachedWriteConn env.opening world).mapError (classifyWriteStorageError "storage/audit" .read)
  lockConnection env
  let result ← commitTransaction env caller world opened fun verified db =>
    writeWithAudit config.hmacKey world env.clock verified opened request.body request.contentType
      request.headers config.retainedBodyCount db
  Prog.modify (·.markExisting world)
  pure (opened, result)

/-- The durable part of `replace_write_blocking`. -/
def replaceDurable (request : ReplaceRequest) : Prog Core WriteError (OpenedWorldKind × WriteAuditResult) := do
  let snapshot ← readDatabase world env.preflight "storage accounting preflight"
    (replaceQuotaSnapshot request.body config.retainedBodyCount)
  let newLen ← reserveNewLen config request.body.length snapshot.candidateCasLen
  let pending ← reserveStorageAfterPrune config snapshot.previousBodyLen newLen snapshot.prunableCasLen
  let (opened, result) ← reservedTransaction pending (replaceTransaction config env caller world request)
  settleWrite pending snapshot.candidateCasLen snapshot.prunableCasLen snapshot.previousBodyLen
    request.body.length result
  Prog.modify fun core =>
    if opened = .created then { core with durableWorldCount := core.durableWorldCount + 1 } else core
  pure (opened, result)

/-- The notifications and the outcome of a durable write. -/
def announceWrite (verb : ChangeVerb) (opened : OpenedWorldKind) (result : WriteAuditResult) :
    Prog Core WriteError WriteOutcome := do
  notifyFormat config result.formatEvent
  notifyWithAux config verb result.bodyEvent.bodyTarget (hmacEtag result.hmac) .default
  pure ⟨if opened = .existing then .updated else .created, hmacEtag result.hmac⟩

/-- The memory part of `replace_write_blocking`. -/
def replaceMemory (request : ReplaceRequest) : Prog Core WriteError WriteOutcome := do
  let existed ← Prog.attempt fun core => do
    let (existed, mem) ← (core.mem.writeWithQuota world request.body request.contentType request.headers
      config.maxMemoryBytes).mapError fun error => .quotaExceeded error.used error.quota error.projected
    pure (existed, { core with
      mem := mem
      journal := core.journal ++
        [.stored caller world (.new request.body request.contentType request.headers)] })
  notifyWithAux config .replace (.ephemeral world) (bodyEtag request.body) .default
  pure ⟨if existed then .updated else .created, bodyEtag request.body⟩

/-- `replace_write`. -/
def replaceWrite (request : ReplaceRequest) : Prog Core WriteError WriteOutcome := do
  Prog.lift (rejectIf (config.maxWorldBytes < request.body.length) (.payloadTooLarge config.maxWorldBytes))
  withWorldLock world do
    beginFileOp .shuttingDown
    checkWritePreconditions config env world request.preconditions
    if isMemoryWorld world then replaceMemory config caller world request
    else do
      let (opened, result) ← replaceDurable config env caller world request
      announceWrite config .replace opened result

/-- The metadata that an append starts from, from memory or from the database. -/
def appendMetadata : Prog Core WriteError (Option (Nat × String × Headers)) :=
  if isMemoryWorld world then Prog.atomically fun core => (core.mem.metadata world, core)
  else readDatabase world env.preflight "storage metadata" fun
    | none => pure none
    | some db => return some (← metadata db)

/-- The body length after an append, which is limited. -/
def projectedLen (bodyLen appendLen : Nat) : Except WriteError Nat := do
  let projected ← requireSome (.payloadTooLarge config.maxWorldBytes) (checkedAdd bodyLen appendLen)
  rejectIf (config.maxWorldBytes < projected) (.payloadTooLarge config.maxWorldBytes)
  pure projected

/-- A storage estimate of an append; the world may be missing. -/
def appendEstimate (fault : Option SqlError) (estimate : Database → SqlResult Nat) : Prog Core WriteError Nat := do
  let bytes ← readDatabase world fault "storage/cas" fun
    | none => pure none
    | some db => return some (← estimate db)
  Prog.lift (requireSome .notFound bytes)

/-- The connection and the transaction of an append. -/
def appendTransaction (request : AppendRequest) (contentType : String) (headers : Headers) :
    Prog Core WriteError WriteAuditResult := do
  let conn ← (cachedExistingWriteConn env.opening world).mapError
    (classifyWriteStorageError "storage/audit" .read)
  let _ ← Prog.lift (requireSome .notFound conn)
  lockConnection env
  commitTransaction env caller world .existing fun verified db =>
    appendWithAudit config.hmacKey world env.clock verified request.body contentType headers
      config.retainedBodyCount db

/-- The durable part of `append_write_blocking`. -/
def appendDurable (request : AppendRequest) (bodyLen projected : Nat) (contentType : String) (headers : Headers) :
    Prog Core WriteError WriteAuditResult := do
  let candidateLen ← appendEstimate world env.candidate (appendBodyLenIfMissing request.body)
  let prunableLen ← appendEstimate world env.prunable
    (appendPrunableBodyLenAfterNextWrite request.body config.retainedBodyCount)
  let newLen ← reserveNewLen config request.body.length candidateLen
  let pending ← reserveStorageAfterPrune config 0 newLen prunableLen
  let result ← reservedTransaction pending
    (appendTransaction config env caller world request contentType headers)
  settleWrite pending candidateLen prunableLen bodyLen projected result
  pure result

/-- The memory part of `append_write_blocking`. -/
def appendMemory (request : AppendRequest) : Prog Core WriteError WriteOutcome := do
  let hash ← Prog.attempt fun core => do
    let appended ← (core.mem.appendWithQuota world request.body config.maxMemoryBytes).mapError fun error =>
      .quotaExceeded error.used error.quota error.projected
    let (entry, mem) ← requireSome .notFound appended
    pure (entry.bodyHash, { core with
      mem := mem
      journal := core.journal ++ [.stored caller world entry] })
  notifyWithAux config .append (.ephemeral world) ("sha256-" ++ hash) .default
  pure ⟨.updated, "sha256-" ++ hash⟩

/-- `append_write`. -/
def appendWrite (request : AppendRequest) : Prog Core WriteError WriteOutcome :=
  withWorldLock world do
    beginFileOp .shuttingDown
    checkWritePreconditions config env world request.preconditions
    let found ← appendMetadata env world
    let (bodyLen, contentType, headers) ← Prog.lift (requireSome .notFound found)
    let projected ← Prog.lift (projectedLen config bodyLen request.body.length)
    if isMemoryWorld world then appendMemory config caller world request
    else do
      let result ← appendDurable config env caller world request bodyLen projected contentType headers
      announceWrite config .append .existing result

end

end AuditeDB
