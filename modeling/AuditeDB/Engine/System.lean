import Mathlib
import AuditeDB.World.Represents
import AuditeDB.Engine.Deleting

/-!
# Calls of an engine and their interleavings

A call is authorized, checked and run. A system of calls shares one engine: every call is a thread, and the
cache of writer connections, the set of verified worlds and the shutdown flags may change at any time.
-/

namespace AuditeDB

open Results Interleaving

/-- `Tier`. -/
inductive Tier where
  | anon | read | write | approve
deriving DecidableEq

/-- `exact_or_child`. -/
def exactOrChild (world : ValidatedWorldPath) (parent : String) : Bool :=
  world.name = parent || startsWith world.name (parent ++ "/")

/-- `needs_write_approve`. -/
def needsWriteApprove (world : ValidatedWorldPath) : Bool :=
  exactOrChild world "lib" || exactOrChild world "etc" || exactOrChild world "boot" ||
    exactOrChild world "usr" || exactOrChild world "var/log"

/-- `can_write`. -/
def canWrite (world : ValidatedWorldPath) : Tier → Bool
  | .anon | .read => false
  | .write => !needsWriteApprove world
  | .approve => true

/-- `authorize_write`. -/
def authorizeWrite (world : ValidatedWorldPath) (tier : Tier) : Except WriteError Unit := do
  rejectIf (!canWrite world tier) (.auth (if needsWriteApprove world then .writeApprove else .write))
  rejectIf (isDeleteLedgerWorld world) .appendOnly

/-- `authorize_delete`. -/
def authorizeDelete (world : ValidatedWorldPath) (tier : Tier) : Except DeleteError Unit := do
  rejectIf (tier ≠ .approve) (.auth .delete)
  rejectIf (isDeleteLedgerWorld world) .appendOnlyLedger

/-- `can_read`. -/
def canRead (config : Config) (tier : Tier) : Bool := !config.readRequired || tier ≠ .anon

/-- The errors of a call, before `EngineError` drops their details. -/
inductive CallError where
  | write (error : WriteError)
  | invalidMetadata (message : String)
  | delete (error : DeleteError)
deriving DecidableEq

/-- The result of a call. -/
inductive Reply where
  | written (outcome : WriteOutcome)
  | deleted
deriving DecidableEq

/-- A call with what happens outside the engine while it runs. -/
inductive Operation where
  | replace (env : WriteEnv) (request : ReplaceRequest)
  | append (env : WriteEnv) (request : AppendRequest)
  | delete (env : DeleteEnv) (request : DeleteRequest)

/-- A call of one operation on one world. -/
structure Call where
  world : ValidatedWorldPath
  tier : Tier
  operation : Operation

/-- `ensure_not_shutdown`. -/
def ensureNotShutdown {ε : Type} (error : ε) : Prog Core ε Unit :=
  .attempt fun core => do
    rejectIf core.shutdown error
    pure ((), core)

section

variable [HashSuite] (config : Config) (caller : Nat) (world : ValidatedWorldPath) (tier : Tier)

/-- `EngineOps::replace`. -/
def engineReplace (env : WriteEnv) (request : ReplaceRequest) : Prog Core CallError Reply := do
  Prog.lift ((authorizeWrite world tier).mapError .write)
  ensureNotShutdown (.write .shuttingDown)
  Prog.lift ((validateRepresentationMetadata request.contentType request.headers).mapError .invalidMetadata)
  let outcome ← (replaceWrite config env caller world request).mapError .write
  pure (.written outcome)

/-- `EngineOps::append`. -/
def engineAppend (env : WriteEnv) (request : AppendRequest) : Prog Core CallError Reply := do
  Prog.lift ((authorizeWrite world tier).mapError .write)
  ensureNotShutdown (.write .shuttingDown)
  let outcome ← (appendWrite config env caller world request).mapError .write
  pure (.written outcome)

/-- `EngineOps::delete`. -/
def engineDelete (env : DeleteEnv) (request : DeleteRequest) : Prog Core CallError Reply := do
  Prog.lift ((authorizeDelete world tier).mapError .delete)
  ensureNotShutdown (.delete .shuttingDown)
  (delete config caller env world request).mapError .delete
  pure .deleted

/-- The program of a call. -/
def Call.program (call : Call) : Prog Core CallError Reply :=
  match call.operation with
  | .replace env request => engineReplace config caller call.world call.tier env request
  | .append env request => engineAppend config caller call.world call.tier env request
  | .delete env request => engineDelete config caller call.world call.tier env request

end

/-- Calls of one engine. The calls of a process share their configuration; calls on both sides of a restart may
differ in everything but the key. -/
structure Calls (n : Nat) where
  key : AuditHmacKey
  config : Fin n → Config
  call : Fin n → Call
  hmacKey : ∀ i, (config i).hmacKey = key

/-- A change of the shared state that no call makes: the writer cache loses an entry, worlds enter or leave the
set of verified worlds, the ledger connection is closed, or the engine shuts down. -/
inductive Environment : Core → Core → Prop where
  | evict (core : Core) (world : ValidatedWorldPath) :
      Environment core { core with writeConns := core.writeConns.erase world }
  | verified (core : Core) (worlds : Finset ValidatedWorldPath) :
      Environment core { core with verifiedAuditWorlds := worlds }
  | closeLedger (core : Core) : Environment core { core with ledgerConn := false }
  | shuttingDown (core : Core) (fileOps sent : Bool) :
      Environment core { core with shuttingDown := fileOps, shutdown := sent }

variable {n : Nat} [HashSuite]

/-- The pool of all calls on a shared state. -/
def Calls.pool (calls : Calls n) (core : Core) : Pool (Fin n) Core CallError Reply :=
  ⟨core, fun i => (calls.call i).program (calls.config i) i⟩

/-- The states that the calls reach from a shared state. -/
def Calls.Reaches (calls : Calls n) (core : Core) (pool : Pool (Fin n) Core CallError Reply) : Prop :=
  (calls.pool core).Reaches Environment pool

/-- An engine on an empty data root, before its first call. -/
def Core.fresh : Core where
  data := ∅
  mem := .empty
  storageBodyBytes := 0
  storageCurrentBodyBytes := 0
  storageRetainedCasBodyBytes := 0
  storageAuditChainEvents := 0
  durableWorldCount := 0
  deleteLedgerCreated := false
  verifiedAuditWorlds := ∅
  writeConns := ∅
  ledgerConn := false
  worldLocks := ∅
  deleteLedgerStreamLock := false
  nextEvent := 0
  eventLog := []
  sent := []
  shuttingDown := false
  shutdown := false
  journal := []

namespace Sample

omit [HashSuite] in
/-- The name of a scratch world is canonical. -/
theorem canonical_scratch : checkCanonical "tmp/notes" = .ok () := by decide +kernel

/-- A world in memory. -/
def scratch : ValidatedWorldPath := ⟨"tmp/notes", canonical_scratch⟩

/-- A configuration without a storage quota. -/
def config : Config where
  hmacKey := key
  readRequired := false
  maxWorldBytes := 1024
  maxMemoryBytes := 65536
  maxStorageBytes := none
  retainedBodyCount := .default
  listenReplayMax := 16

/-- A write during which nothing fails. -/
def quiet : WriteEnv := .quiet generation ⟨time.text, time.text⟩

end Sample

end AuditeDB
