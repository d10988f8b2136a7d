import Mathlib
import AuditeDB.Engine.Etag
import AuditeDB.Engine.Store
import AuditeDB.Engine.Feed

/-!
# The shared state of an engine

The data root, the worlds in memory, the storage counters, the caches, the locks and the event stream that
concurrent calls share. A journal records every committed effect in order; no call reads it.
-/

namespace AuditeDB

open Results

/-- The configuration that `EngineBuilder` fixes for the life of an engine. -/
structure Config where
  hmacKey : AuditHmacKey
  readRequired : Bool
  maxWorldBytes : Nat
  maxMemoryBytes : Nat
  maxStorageBytes : Option Nat
  retainedBodyCount : RetainedBodyCount
  listenReplayMax : Nat

/-- `max_storage_bytes.unwrap_or(usize::MAX)`. -/
def Config.storageQuota (config : Config) : Nat := config.maxStorageBytes.getD usizeMax

/-- The directory of a world below the data root, with or without its database file. -/
inductive WorldDir where
  | empty
  | database (db : Database)
deriving DecidableEq

/-- A committed effect: the creation of a database, a body event of a durable world with the kind that its
transaction took the connection for and the database before and after it, a new entry in memory, a row of the delete
ledger, or the removal of a world. -/
inductive JournalEntry where
  | created (world : ValidatedWorldPath) (generation : WorldGeneration)
  | wrote (caller : Nat) (world : ValidatedWorldPath) (opened : OpenedWorldKind) (before : Database)
      (result : WriteAuditResult) (db : Database)
  | stored (caller : Nat) (world : ValidatedWorldPath) (entry : MemEntry)
  | logged (caller : Nat) (event : AppendedLedgerEvent)
  | removed (caller : Nat) (world : ValidatedWorldPath)
deriving DecidableEq

/-- The mutable part of `Core`. The channel `sent` holds everything that was broadcast; `shuttingDown` closes the
file operations and `shutdown` is what the calls check first. -/
structure Core where
  data : AList fun _ : ValidatedWorldPath => WorldDir
  mem : MemoryStore
  storageBodyBytes : Nat
  storageCurrentBodyBytes : Nat
  storageRetainedCasBodyBytes : Nat
  storageAuditChainEvents : Nat
  durableWorldCount : Nat
  deleteLedgerCreated : Bool
  verifiedAuditWorlds : Finset ValidatedWorldPath
  writeConns : AList fun _ : ValidatedWorldPath => OpenedWorldKind
  ledgerConn : Bool
  worldLocks : Finset ValidatedWorldPath
  deleteLedgerStreamLock : Bool
  nextEvent : Nat
  eventLog : List ChangeEvent
  sent : List ChangeEvent
  shuttingDown : Bool
  shutdown : Bool
  journal : List JournalEntry

namespace Core

/-- The database file of a world, when it exists. -/
def database (core : Core) (world : ValidatedWorldPath) : Option Database :=
  match core.data.lookup world with
  | some (.database db) => some db
  | _ => none

/-- Put a directory in place. -/
def setDir (core : Core) (world : ValidatedWorldPath) (dir : WorldDir) : Core :=
  { core with data := core.data.insert world dir }

/-- `credit_storage_counter` and `saturating_sub` on `storage_body_bytes`. -/
def creditStorage (core : Core) (bytes : Nat) : Core :=
  { core with storageBodyBytes := core.storageBodyBytes - bytes }

/-- `credit_storage_counter` on `storage_audit_chain_events`. -/
def creditAuditEvents (core : Core) (events : Nat) : Core :=
  { core with storageAuditChainEvents := core.storageAuditChainEvents - events }

/-- `saturating_sub` followed by `saturating_add`. -/
def adjustCounter (used subtract add : Nat) : Nat := min (used - subtract + add) usizeMax

/-- `adjust_counter` on `storage_current_body_bytes`. -/
def adjustCurrentBody (core : Core) (subtract add : Nat) : Core :=
  { core with storageCurrentBodyBytes := adjustCounter core.storageCurrentBodyBytes subtract add }

/-- `adjust_counter` on `storage_retained_cas_body_bytes`. -/
def adjustRetainedCas (core : Core) (subtract add : Nat) : Core :=
  { core with storageRetainedCasBodyBytes := adjustCounter core.storageRetainedCasBodyBytes subtract add }

/-- `open_existing_path`: the database of a world after the check of its shape. -/
def openExisting (core : Core) (world : ValidatedWorldPath) : SqlResult (Option Database) :=
  match core.database world with
  | none => pure none
  | some db => do
    verifyOpenShape db
    pure (some db)

/-- `read_world_with_etag`. The read cache only keeps connections open, so it is not part of the state. -/
def readWorldWithEtag [HashSuite] (config : Config) (core : Core) (world : ValidatedWorldPath) :
    AuditResult (Option (Stage × String)) :=
  if isMemoryWorld world then
    pure ((core.mem.readWithHash world).map fun (stage, hash) => (stage, "sha256-" ++ hash))
  else do
    match ← liftSql (core.openExisting world) with
    | none => pure none
    | some db =>
      let (stage, hmac) ← readWithHmac config.hmacKey world db
      pure (some (stage, (hmac.map hmacEtag).getD (bodyEtag stage.body)))

end Core

end AuditeDB
