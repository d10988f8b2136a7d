import Mathlib
import AuditeDB.Library.Interleaving
import AuditeDB.Engine.Core

/-!
# Opening the database of a world

A missing database is created by statements that commit one by one, so a failure leaves what was done before
it. Opened writer connections are cached with the way in which they were opened.
-/

namespace AuditeDB

open Results Interleaving

/-- A failure that the storage layer may report, or none. -/
def storageFault {ε : Type} : Option ε → Except ε Unit
  | some error => .error error
  | none => .ok ()

/-- What happens outside the engine while it opens a database: the random generation, and the failures of the
directory, of the connection, of its configuration, of one creation statement and of the checks. -/
structure OpenEnv where
  mint : SqlResult WorldGeneration
  createDir : Option SqlError
  connect : Option SqlError
  configure : Option SqlError
  statement : Option (Nat × SqlError)
  shape : Option SqlError
  indexes : Option SqlError

/-- Nothing fails while a database is opened. -/
def OpenEnv.quiet (generation : WorldGeneration) : OpenEnv := ⟨.ok generation, none, none, none, none, none, none⟩

/-- The error of a connection whose file is not there. -/
def missingFileError : SqlError := .sqliteFailure .cantopen "unable to open database file"

/-- A statement that commits on its own. -/
def autocommit (world : ValidatedWorldPath) (fault : Option SqlError) (statement : Database → SqlResult Database) :
    Prog Core SqlError Unit :=
  .attempt fun core => do
    storageFault fault
    let db ← requireSome missingFileError (core.database world)
    let db ← statement db
    pure ((), core.setDir world (.database db))

/-- `world_schema::create`, with the statement at which it stops. -/
def runCreate (world : ValidatedWorldPath) (stop : Option (Nat × SqlError)) :
    Nat → List (Database → SqlResult Database) → Prog Core SqlError Unit
  | _, [] => .done ()
  | n, statement :: rest => do
    autocommit world (stop.bind fun (at_, error) => if at_ = n then some error else none) statement
    runCreate world stop (n + 1) rest

/-- `std::fs::create_dir_all` on the directory of a world. -/
def Core.createDirAll (core : Core) (world : ValidatedWorldPath) : Core :=
  match core.data.lookup world with
  | some _ => core
  | none => core.setDir world .empty

/-- The checks of an existing database before it is written. -/
def openExistingForWrite (env : OpenEnv) (world : ValidatedWorldPath) : Prog Core SqlError Unit := do
  Prog.lift (storageFault env.connect)
  Prog.lift (storageFault env.configure)
  autocommit world env.shape fun db => do
    verifyOpenShape db
    pure db
  autocommit world env.indexes ensureWriteIndexes

/-- The creation of a missing database. -/
def createForWrite (env : OpenEnv) (world : ValidatedWorldPath) (generation : WorldGeneration) :
    Prog Core SqlError Unit := do
  Prog.lift (storageFault env.createDir)
  Prog.modify fun core => core.createDirAll world
  Prog.lift (storageFault env.connect)
  Prog.modify fun core => { core.setDir world (.database .empty) with
    journal := core.journal ++ [.created world generation] }
  Prog.lift (storageFault env.configure)
  autocommit world env.shape fun db => do
    newWorld db
    pure db
  runCreate world env.statement 0 (createStatements generation)

/-- `open_world_paths_with_generation_minter_and_kind`. -/
def openWorldPaths (env : OpenEnv) (world : ValidatedWorldPath) : Prog Core SqlError OpenedWorldKind := do
  let existed ← Prog.atomically fun core => ((core.database world).isSome, core)
  if existed then do
    Prog.lift (storageFault env.createDir)
    openExistingForWrite env world
    pure .existing
  else do
    let generation ← Prog.lift env.mint
    createForWrite env world generation
    pure .created

/-- The lookup in `write_conns` with the check of the shape of a cached connection. -/
def cachedWriter (env : OpenEnv) (world : ValidatedWorldPath) : Prog Core SqlError (Option OpenedWorldKind) :=
  .attempt fun core =>
    match core.writeConns.lookup world with
    | none => pure (none, core)
    | some opened => do
      storageFault env.shape
      let db ← requireSome missingFileError (core.database world)
      verifyOpenShape db
      pure (some opened, core)

/-- The entry of a new connection in `write_conns`. An entry that is there already wins. -/
def cacheWriter (world : ValidatedWorldPath) (opened : OpenedWorldKind) : Prog Core SqlError OpenedWorldKind :=
  .atomically fun core =>
    match core.writeConns.lookup world with
    | some cached => (cached, core)
    | none => (opened, { core with writeConns := core.writeConns.insert world opened })

/-- `cached_write_conn`. -/
def cachedWriteConn (env : OpenEnv) (world : ValidatedWorldPath) : Prog Core SqlError OpenedWorldKind := do
  match ← cachedWriter env world with
  | some opened => pure opened
  | none =>
    let opened ← openWorldPaths env world
    cacheWriter world opened

/-- `cached_existing_write_conn`; nothing for a missing database. -/
def cachedExistingWriteConn (env : OpenEnv) (world : ValidatedWorldPath) :
    Prog Core SqlError (Option OpenedWorldKind) := do
  match ← cachedWriter env world with
  | some opened => pure (some opened)
  | none =>
    let existed ← Prog.atomically fun core => ((core.database world).isSome, core)
    if existed then do
      openExistingForWrite env world
      let opened ← cacheWriter world .existing
      pure (some opened)
    else pure none

end AuditeDB
