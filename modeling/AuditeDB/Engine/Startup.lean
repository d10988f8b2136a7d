import Mathlib
import AuditeDB.Engine.Balance
import AuditeDB.Engine.Listing
import AuditeDB.Engine.Genesis
import AuditeDB.Engine.Removal

/-!
# Starting an engine

An engine starts on the databases that an earlier process left on disk: it verifies the chain of every world, and
counts what the worlds take. Everything else that an engine keeps is empty at its start.
-/

namespace AuditeDB

open Results Totals

/-- What a failed startup tells about its storage. -/
inductive StartupFailure where
  | writerLock (error : SqlError)
  | verification (world : ValidatedWorldPath) (error : SqlError)
  | walk (error : ScanError)
  | list (error : ScanError)
  | usage (error : SqlError)
  | accounting (component : String)
deriving DecidableEq

/-- `EngineBuildError`. A configuration has a key, and the class of a driver error, by which some are reported as a
held lock, is left out. -/
inductive EngineBuildError where
  | dataRootIo
  | listenEpochEntropy
  | auditChainCorrupted (world : ValidatedWorldPath) (report : VerifyBreak)
  | storage (failure : StartupFailure)
deriving DecidableEq

/-- What happens outside the engine while it starts: whether its directory and its entropy are there, the lock of the
data root, the two scans of the data root, and the failures of the databases it reads. -/
structure StartupEnv where
  dataRoot : Bool
  lock : Option SqlError
  walk : List ScannedEntry
  verify : ValidatedWorldPath → Option SqlError
  list : List ScannedEntry
  usage : ValidatedWorldPath → Option SqlError
  entropy : Bool

/-- The error of a startup for a world that does not verify. -/
def EngineBuildError.ofAudit (world : ValidatedWorldPath) : AuditError → EngineBuildError
  | .chainBroken report => .auditChainCorrupted world report
  | .storage error => .storage (.verification world error)

/-- `checked_startup_usage_sum`. -/
def checkedStartupUsageSum (component : String) (values : List Nat) : Except EngineBuildError Nat :=
  values.foldlM (fun total value => requireSome (.storage (.accounting component)) (checkedAdd total value)) 0

/-- The data root with what an engine keeps about it at its start. -/
def Core.onDisk (data : AList fun _ : ValidatedWorldPath => WorldDir) : Core := { Core.fresh with data := data }

/-- The `Core` that `build` returns. -/
def Core.opened (core : Core) (verified : List ValidatedWorldPath)
    (usages : List (ValidatedWorldPath × StorageUsageSnapshot)) (body current retained events : Nat) : Core :=
  { core with
    storageBodyBytes := body
    storageCurrentBodyBytes := current
    storageRetainedCasBodyBytes := retained
    storageAuditChainEvents := events
    durableWorldCount := usages.length
    deleteLedgerCreated := usages.any fun (world, _) => world = deleteLedgerWorld
    verifiedAuditWorlds := verified.toFinset }

section

variable [HashSuite] (key : AuditHmacKey) (env : StartupEnv) (core : Core)

/-- `verify_world_with_file_op` on the database of a world, if it exists. -/
def verifyStartupWorld (world : ValidatedWorldPath) : AuditResult (Option ValidatedWorldPath) :=
  match core.database world with
  | none => pure none
  | some db => do
    liftSql (storageFault (env.verify world))
    verifyWorldWithFileOp key world db
    pure (some world)

/-- The body of the loop of `try_for_each`, with the visit of `verify_all_worlds_with_names`. -/
def visitStartupEntry (entry : ScannedEntry) : Except EngineBuildError (Option ValidatedWorldPath) := do
  match ← (readEntry entry).mapError fun error => .storage (.walk error) with
  | none => pure none
  | some world => (verifyStartupWorld key env core world).mapError (.ofAudit world)

/-- `verify_all_worlds_with_names`. -/
def verifyAllWorldsWithNames : Except EngineBuildError (List ValidatedWorldPath) := do
  let visited ← env.walk.mapM (visitStartupEntry key env core)
  return visited.reduceOption

omit [HashSuite] in
/-- `storage_usage`. -/
def startupUsage (world : ValidatedWorldPath) :
    Except EngineBuildError (Option (ValidatedWorldPath × StorageUsageSnapshot)) :=
  Except.mapError (fun error => .storage (.usage error)) <| do
    storageFault (env.usage world)
    match ← core.openExisting world with
    | none => pure none
    | some db => do
      let usage ← storageUsage db
      pure (some (world, usage))

/-- `usages`. -/
def usages : Except EngineBuildError (List (ValidatedWorldPath × StorageUsageSnapshot)) := do
  let worlds ← (listMatching env.list fun _ => true).mapError fun error => .storage (.list error)
  let found ← worlds.mapM (startupUsage env core)
  return found.reduceOption

/-- `EngineBuilder::build` on the databases below the data root. -/
def build (data : AList fun _ : ValidatedWorldPath => WorldDir) : Except EngineBuildError Core := do
  rejectIf (!env.dataRoot) .dataRootIo
  (storageFault env.lock).mapError fun error => .storage (.writerLock error)
  let verified ← verifyAllWorldsWithNames key env (.onDisk data)
  let usages ← usages env (.onDisk data)
  let current ← checkedStartupUsageSum "current body" (usages.map fun (_, usage) => usage.currentBodyBytes)
  let retained ← checkedStartupUsageSum "retained CAS body" (usages.map fun (_, usage) => usage.retainedCasBodyBytes)
  let events ← checkedStartupUsageSum "audit event" (usages.map fun (_, usage) => usage.auditChainEvents)
  let body ← checkedStartupUsageSum "total body" [current, retained]
  rejectIf (!env.entropy) .listenEpochEntropy
  return (Core.onDisk data).opened verified usages body current retained events

end

/-- The sum of a startup, when it fits. -/
theorem checkedStartupUsageSum_eq_ok {component : String} {values : List Nat} {total : Nat} :
    checkedStartupUsageSum component values = .ok total ↔ total = values.sum ∧ values.sum ≤ usizeMax := by
  have hfrom : ∀ start ≤ usizeMax, values.foldlM (fun total value =>
      requireSome (EngineBuildError.storage (.accounting component)) (checkedAdd total value)) start = .ok total ↔
        total = start + values.sum ∧ start + values.sum ≤ usizeMax := by
    induction values with
    | nil =>
      intro start hstart
      simp only [List.foldlM_nil, pure_eq_ok, List.sum_nil, Nat.add_zero]
      exact ⟨fun h => ⟨h.symm, hstart⟩, fun h => h.1.symm⟩
    | cons value rest ih =>
      intro start hstart
      rw [List.foldlM_cons, List.sum_cons, ← Nat.add_assoc]
      by_cases hfits : start + value ≤ usizeMax
      · rw [checkedAdd, if_pos hfits]
        exact ih _ hfits
      · rw [checkedAdd, if_neg hfits]
        refine ⟨fun h => (by cases h), fun h => ?_⟩
        have := h.2
        omega
  have hsum := hfrom 0 (Nat.zero_le _)
  rwa [Nat.zero_add] at hsum

/-- Both scans of a startup find the databases on disk. -/
structure StartupEnv.Scans (env : StartupEnv) (core : Core) : Prop where
  walk : ∃ entries, core.Scanned entries ∧ env.walk = entries.map .ok
  list : ∃ entries, core.Scanned entries ∧ env.list = entries.map .ok

section

variable [HashSuite] {key : AuditHmacKey} {env : StartupEnv} {core : Core} {world : ValidatedWorldPath}

/-- A database that a startup can read and that verifies. -/
def StartupEnv.Verifies (env : StartupEnv) (key : AuditHmacKey) (world : ValidatedWorldPath) (db : Database) : Prop :=
  env.verify world = none ∧ verifyWorldWithFileOp key world db = .ok ()

omit [HashSuite] in
/-- A failure that does not happen. -/
theorem storageFault_eq_ok {ε : Type} {fault : Option ε} {u : Unit} :
    storageFault fault = .ok u ↔ fault = none := by
  cases fault with
  | none => exact ⟨fun _ => rfl, fun _ => rfl⟩
  | some error => exact ⟨fun h => (by cases h), fun h => (by cases h)⟩

/-- A world passes when it has no database or one that verifies. -/
theorem verifyStartupWorld_eq_ok {found : Option ValidatedWorldPath} :
    verifyStartupWorld key env core world = .ok found ↔
      found = (core.database world).map (fun _ => world) ∧ ∀ db ∈ core.database world, env.Verifies key world db := by
  unfold verifyStartupWorld
  cases core.database world with
  | none => exact pure_eq_ok.trans ⟨fun h => ⟨h.symm, fun _ hnone => (by cases hnone)⟩, fun h => h.1.symm⟩
  | some db =>
    simp only [bind_eq_ok, liftSql_eq_ok, pure_eq_ok, storageFault_eq_ok, Option.map_some, Option.mem_some_iff,
      forall_eq', StartupEnv.Verifies]
    constructor
    · rintro ⟨_, hfault, _, hintact, rfl⟩
      exact ⟨rfl, hfault, hintact⟩
    · rintro ⟨rfl, hfault, hintact⟩
      exact ⟨(), hfault, (), hintact, rfl⟩

/-- The startup verification passes exactly when every database verifies. -/
theorem verifyAllWorldsWithNames_eq_ok (hscans : env.Scans core) {verified : List ValidatedWorldPath} :
    verifyAllWorldsWithNames key env core = .ok verified ↔
      verified = env.walk.filterMap foundWorld ∧
        ∀ world db, core.database world = some db → env.Verifies key world db := by
  obtain ⟨entries, hscan, hwalk⟩ := hscans.walk
  have hvisit : ∀ entry ∈ env.walk, ∀ found, visitStartupEntry key env core entry = .ok found ↔
      found = foundWorld entry ∧ ∀ world ∈ foundWorld entry, ∀ db ∈ core.database world, env.Verifies key world db := by
    intro entry hentry found
    have hread := hscan.reads entry (hwalk ▸ hentry)
    simp only [visitStartupEntry, bind_eq_ok, mapError_eq_ok, hread, Except.ok.injEq, exists_eq_left']
    cases hfound : foundWorld entry with
    | none => exact pure_eq_ok.trans ⟨fun h => ⟨h.symm, fun _ hnone => (by cases hnone)⟩, fun h => h.1.symm⟩
    | some world =>
      have hworld : world ∈ (entries.map Except.ok).filterMap foundWorld :=
        List.mem_filterMap.mpr ⟨entry, hwalk ▸ hentry, hfound⟩
      obtain ⟨db, hdb⟩ := Option.isSome_iff_exists.mp ((hscan.mem_found world).mp hworld)
      simp only [mapError_eq_ok, verifyStartupWorld_eq_ok, hdb, Option.mem_some_iff, forall_eq', Option.map_some]
  have hall : (∀ entry ∈ env.walk, visitStartupEntry key env core entry = .ok (foundWorld entry)) ↔
      ∀ world db, core.database world = some db → env.Verifies key world db := by
    constructor
    · intro h world db hdb
      have hworld := (hscan.mem_found world).mpr (Option.isSome_iff_exists.mpr ⟨db, hdb⟩)
      obtain ⟨entry, hentry, hfound⟩ := List.mem_filterMap.mp hworld
      have hentry : entry ∈ env.walk := hwalk ▸ hentry
      exact ((hvisit entry hentry _).mp (h entry hentry)).2 world hfound db hdb
    · exact fun h entry hentry => (hvisit entry hentry _).mpr ⟨rfl, fun world _ db hdb => h world db hdb⟩
  have hvisited : ∀ {visited}, env.walk.mapM (visitStartupEntry key env core) = .ok visited ↔
      visited = env.walk.map foundWorld ∧ ∀ entry ∈ env.walk, visitStartupEntry key env core entry = .ok (foundWorld entry) :=
    mapM_eq_ok_map fun entry hentry found hfound => ((hvisit entry hentry found).mp hfound).1
  have hworlds : (env.walk.map foundWorld).reduceOption = env.walk.filterMap foundWorld := by
    simp [List.reduceOption, List.filterMap_map]
  simp only [verifyAllWorldsWithNames, bind_eq_ok, pure_eq_ok, hvisited, hall]
  constructor
  · rintro ⟨_, ⟨rfl, hverifies⟩, rfl⟩
    exact ⟨hworlds, hverifies⟩
  · rintro ⟨rfl, hverifies⟩
    exact ⟨_, ⟨rfl, hverifies⟩, hworlds⟩

omit [HashSuite] in
/-- A database that a startup can read and count. -/
def StartupEnv.Measures (env : StartupEnv) (world : ValidatedWorldPath) (db : Database) : Prop :=
  env.usage world = none ∧ verifyOpenShape db = .ok () ∧ storageUsage db = .ok (usageOf db)

omit [HashSuite] in
/-- The usage of a world with a database. -/
theorem startupUsage_eq_ok {db : Database} (hdb : core.database world = some db)
    {found : Option (ValidatedWorldPath × StorageUsageSnapshot)} :
    startupUsage env core world = .ok found ↔ found = some (world, usageOf db) ∧ env.Measures world db := by
  simp only [startupUsage, mapError_eq_ok, bind_eq_ok, storageFault_eq_ok, Core.openExisting, hdb, pure_eq_ok,
    StartupEnv.Measures]
  constructor
  · rintro ⟨_, hfault, _, ⟨_, hshape, rfl⟩, hrest⟩
    simp only [bind_eq_ok, pure_eq_ok] at hrest
    obtain ⟨usage, husage, rfl⟩ := hrest
    have hsame : usageOf db = usage := by
      rw [usageOf, husage]
      rfl
    exact ⟨by rw [hsame], hfault, hshape, by rw [hsame, husage]⟩
  · rintro ⟨rfl, hfault, hshape, husage⟩
    refine ⟨(), hfault, some db, ⟨(), hshape, rfl⟩, ?_⟩
    simp only [bind_eq_ok, pure_eq_ok]
    exact ⟨_, husage, rfl⟩

/-- The worlds that a startup counts. -/
def StartupEnv.worlds (env : StartupEnv) : List ValidatedWorldPath := sortByName (env.list.filterMap foundWorld)

/-- The usage of a world. -/
def Core.usageAt (core : Core) (world : ValidatedWorldPath) : StorageUsageSnapshot :=
  ((core.database world).map usageOf).getD ⟨0, 0, 0⟩

omit [HashSuite] in
/-- A startup counts the worlds with a database. -/
theorem StartupEnv.Scans.mem_worlds (h : env.Scans core) (world : ValidatedWorldPath) :
    world ∈ env.worlds ↔ (core.database world).isSome = true := by
  obtain ⟨entries, hscan, hlist⟩ := h.list
  rw [StartupEnv.worlds, (sortByName_perm _).mem_iff, hlist, hscan.mem_found]

omit [HashSuite] in
/-- A startup counts a world once. -/
theorem StartupEnv.Scans.nodup_worlds (h : env.Scans core) : env.worlds.Nodup := by
  obtain ⟨entries, hscan, hlist⟩ := h.list
  rw [StartupEnv.worlds, (sortByName_perm _).nodup_iff, hlist]
  exact hscan.nodup_found

omit [HashSuite] in
/-- A startup counts the usage of every world with a database. -/
theorem usages_eq_ok (hscans : env.Scans core) {found : List (ValidatedWorldPath × StorageUsageSnapshot)} :
    usages env core = .ok found ↔ found = env.worlds.map (fun world => (world, core.usageAt world)) ∧
      ∀ world db, core.database world = some db → env.Measures world db := by
  obtain ⟨entries, hscan, hlist⟩ := hscans.list
  have hreads : listMatching env.list (fun _ => true) = .ok env.worlds := by
    rw [listMatching, scanMatching_eq (hlist ▸ hscan.reads), ok_bind, List.nil_append, List.filter_true]
    rfl
  have husage : ∀ world ∈ env.worlds, ∀ found, startupUsage env core world = .ok found ↔
      found = some (world, core.usageAt world) ∧ ∀ db ∈ core.database world, env.Measures world db := by
    intro world hworld found
    obtain ⟨db, hdb⟩ := Option.isSome_iff_exists.mp ((hscans.mem_worlds world).mp hworld)
    simp only [startupUsage_eq_ok hdb, Core.usageAt, hdb, Option.mem_some_iff, forall_eq', Option.map_some, Option.getD_some]
  have hall : (∀ world ∈ env.worlds, startupUsage env core world = .ok (some (world, core.usageAt world))) ↔
      ∀ world db, core.database world = some db → env.Measures world db := by
    constructor
    · intro h world db hdb
      have hworld := (hscans.mem_worlds world).mpr (Option.isSome_iff_exists.mpr ⟨db, hdb⟩)
      exact ((husage world hworld _).mp (h world hworld)).2 db hdb
    · exact fun h world hworld => (husage world hworld _).mpr ⟨rfl, fun db hdb => h world db hdb⟩
  have hmeasured : ∀ {measured}, env.worlds.mapM (startupUsage env core) = .ok measured ↔
      measured = env.worlds.map (fun world => some (world, core.usageAt world)) ∧
        ∀ world ∈ env.worlds, startupUsage env core world = .ok (some (world, core.usageAt world)) :=
    mapM_eq_ok_map fun world hworld found hfound => ((husage world hworld found).mp hfound).1
  have hsome : (env.worlds.map fun world => some (world, core.usageAt world)).reduceOption =
      env.worlds.map fun world => (world, core.usageAt world) := by
    simp [List.reduceOption, List.filterMap_map]
  simp only [usages, bind_eq_ok, mapError_eq_ok, hreads, Except.ok.injEq, exists_eq_left', pure_eq_ok, hmeasured, hall]
  constructor
  · rintro ⟨_, ⟨rfl, hmeasures⟩, rfl⟩
    exact ⟨hsome, hmeasures⟩
  · rintro ⟨rfl, hmeasures⟩
    exact ⟨_, ⟨rfl, hmeasures⟩, hsome⟩

omit [HashSuite] in
/-- The sum of one part of all usages is what the databases take of it. -/
theorem sum_usageAt (hscans : env.Scans core) (hmeasures : ∀ world db, core.database world = some db → env.Measures world db)
    (g : Gauge) {part : StorageUsageSnapshot → Nat}
    (hpart : ∀ db usage, storageUsage db = .ok usage → part usage = db.charge.get g) :
    (env.worlds.map fun world => part (core.usageAt world)).sum = core.stored g := by
  have hcharge : ∀ world ∈ env.worlds, part (core.usageAt world) = (chargeOf (core.data.lookup world)).get g := by
    intro world hworld
    obtain ⟨db, hdb⟩ := Option.isSome_iff_exists.mp ((hscans.mem_worlds world).mp hworld)
    have hdir : core.data.lookup world = some (.database db) := (core.database_eq_some world).mp hdb
    rw [Core.usageAt, hdb, hdir]
    exact hpart db _ (hmeasures world db hdb).2.2
  rw [List.map_congr_left hcharge]
  refine (Tallies.of_nodup hscans.nodup_worlds fun world hworld => ?_).unique (core.tallies_stored g)
  have hnone : core.database world = none := by
    rw [← Option.not_isSome_iff_eq_none]
    exact fun hsome => hworld ((hscans.mem_worlds world).mpr hsome)
  unfold Core.database at hnone
  cases hdir : core.data.lookup world with
  | none => cases g <;> rfl
  | some dir =>
    cases dir with
    | empty => cases g <;> rfl
    | database db =>
      rw [hdir] at hnone
      cases hnone

/-- The engine that starts on the databases on disk. -/
def StartupEnv.started (env : StartupEnv) (core : Core) : Core :=
  core.opened (env.walk.filterMap foundWorld) (env.worlds.map fun world => (world, core.usageAt world))
    (core.stored .body) (core.stored .current) (core.stored .retained) (core.stored .events)

variable (env key core) in
/-- What a startup needs: nothing fails, every database verifies and can be counted, and the counters fit. -/
structure StartupEnv.Accepts : Prop where
  dataRoot : env.dataRoot = true
  lock : env.lock = none
  entropy : env.entropy = true
  verifies : ∀ world db, core.database world = some db → env.Verifies key world db
  measures : ∀ world db, core.database world = some db → env.Measures world db
  body : core.stored .body ≤ usizeMax
  events : core.stored .events ≤ usizeMax

/-- A startup succeeds exactly when nothing stands against it, with the counters of the databases. -/
theorem build_eq_ok {data : AList fun _ : ValidatedWorldPath => WorldDir} (hscans : env.Scans (.onDisk data)) :
    build key env data = .ok core ↔ env.Accepts key (.onDisk data) ∧ core = env.started (.onDisk data) := by
  have hsum : ∀ g (part : StorageUsageSnapshot → Nat),
      (∀ db usage, storageUsage db = .ok usage → part usage = db.charge.get g) →
      (∀ world db, (Core.onDisk data).database world = some db → env.Measures world db) →
      ((env.worlds.map fun world => (world, (Core.onDisk data).usageAt world)).map fun (_, usage) => part usage).sum =
        (Core.onDisk data).stored g := by
    intro g part hpart hmeasures
    rw [List.map_map]
    exact sum_usageAt hscans hmeasures g hpart
  have hcurrent := hsum .current (·.currentBodyBytes) fun _ _ h => (storageUsage_eq_ok h).2.1
  have hretained := hsum .retained (·.retainedCasBodyBytes) fun _ _ h => (storageUsage_eq_ok h).2.2.1
  have hevents := hsum .events (·.auditChainEvents) fun _ _ h => (storageUsage_eq_ok h).2.2.2
  have hbody := (Core.onDisk data).stored_body
  have htwo : [(Core.onDisk data).stored .current, (Core.onDisk data).stored .retained].sum =
      (Core.onDisk data).stored .body := by
    rw [hbody]
    simp
  simp only [build, bind_eq_ok, rejectIf_eq_ok, mapError_eq_ok, storageFault_eq_ok, verifyAllWorldsWithNames_eq_ok hscans,
    usages_eq_ok hscans, checkedStartupUsageSum_eq_ok, pure_eq_ok, Bool.not_eq_true', Bool.not_eq_false]
  constructor
  · rintro ⟨_, hroot, _, hlock, _, ⟨rfl, hverifies⟩, _, ⟨rfl, hmeasures⟩, _, ⟨rfl, -⟩, _, ⟨rfl, -⟩, _, ⟨rfl, hfits⟩, _,
      ⟨rfl, htotal⟩, _, hentropy, rfl⟩
    rw [hcurrent hmeasures, hretained hmeasures] at htotal
    rw [hevents hmeasures] at hfits
    refine ⟨⟨hroot, hlock, hentropy, hverifies, hmeasures, htwo ▸ htotal, hfits⟩, ?_⟩
    rw [hcurrent hmeasures, hretained hmeasures, hevents hmeasures, htwo]
    rfl
  · rintro ⟨⟨hroot, hlock, hentropy, hverifies, hmeasures, htotal, hfits⟩, rfl⟩
    refine ⟨⟨⟩, hroot, (), hlock, _, ⟨rfl, hverifies⟩, _, ⟨rfl, hmeasures⟩, (Core.onDisk data).stored .current,
      ⟨(hcurrent hmeasures).symm, ?_⟩, (Core.onDisk data).stored .retained, ⟨(hretained hmeasures).symm, ?_⟩,
      (Core.onDisk data).stored .events, ⟨(hevents hmeasures).symm, ?_⟩, (Core.onDisk data).stored .body,
      ⟨htwo.symm, htwo.trans_le htotal⟩, ⟨⟩, hentropy, rfl⟩
    · rw [hcurrent hmeasures]
      omega
    · rw [hretained hmeasures]
      omega
    · rwa [hevents hmeasures]

/-- A database without events does not verify. -/
theorem verifyWorldWithFileOp_ne_nil {db : Database} (h : verifyWorldWithFileOp key world db = .ok ()) :
    db.events ≠ [] := by
  intro hnil
  have hrows : db.auditSelect = [] := by
    have hasc : db.eventsAsc = [] := by simp [Database.eventsAsc, hnil]
    simp [Database.auditSelect, hasc]
  simp only [verifyWorldWithFileOp, requireWorldIntact, requireStatementIntact, bind_eq_ok, liftSql_eq_ok] at h
  obtain ⟨_, -, generation, -, retention, -, _, ⟨report, hreport, hvalid⟩, -⟩ := h
  cases report with
  | broken report => cases hvalid
  | valid ok head stamp =>
    unfold verifyStatementCapture at hreport
    rw [hrows] at hreport
    split at hreport
    · next hwalk =>
      simp only [walkRows, finishEvent, bind_eq_ok, pure_eq_ok, finishWalk, rejectIf_eq_ok] at hwalk
      obtain ⟨state, rfl, _, -, _, hevents, -⟩ := hwalk
      exact hevents rfl
    · cases hreport
    · cases hreport

/-- A stored history takes its bodies, and they can be counted when they fit. -/
theorem Represents.usage_eq {log : WorldLog} {db : Database} (h : Represents key world log db)
    (hbody : db.charge.body ≤ i64Max) : storageUsage db = .ok (usageOf db) := by
  have hparts : db.liveBytes + db.retainedBytes ≤ i64Max := hbody
  have hlive := h.liveBytes_eq
  have husage := h.storageUsage_eq (by omega) (show db.retainedBytes ≤ i64Max by omega)
  rw [usageOf, husage]
  rfl

variable (env) in
/-- A startup in which nothing fails, and whose scans find the databases on disk. -/
structure StartupEnv.Quiet (core : Core) : Prop where
  scans : env.Scans core
  dataRoot : env.dataRoot = true
  lock : env.lock = none
  entropy : env.entropy = true
  verify : ∀ world, env.verify world = none
  usage : ∀ world, env.usage world = none

/-- The databases on disk, as calls leave them. -/
structure Core.Left (key : AuditHmacKey) (quota : Nat) (core : Core) : Prop where
  sound : core.Sound key
  durable : core.view.OnlyDurable
  quota : core.stored .body ≤ quota
  events : core.stored .events ≤ usizeMax

/-- A startup on what calls left accepts it exactly when every database has an event. -/
theorem Core.Left.accepts_iff {quota : Nat} (h : core.Left key quota) (hquota : quota ≤ i64Max) (henv : env.Quiet core) :
    env.Accepts key core ↔ ∀ world db, core.database world = some db → db.events ≠ [] := by
  constructor
  · exact fun haccepts world db hdb => verifyWorldWithFileOp_ne_nil (haccepts.verifies world db hdb).2
  · intro hevents
    -- A database with events stores a history, so it verifies; it is one of those that the quota covers.
    have hstored : ∀ world db, core.database world = some db → ∃ log, Represents key world log db ∧ log.entries ≠ [] ∧
        db.charge.body ≤ i64Max := by
      intro world db hdb
      have hdir : core.data.lookup world = some (.database db) := (core.database_eq_some world).mp hdb
      have hdurable : isMemoryWorld world = false := by
        rw [← Bool.not_eq_true]
        exact fun hmemory => h.durable world hmemory db hdir
      obtain ⟨state, hshows⟩ := h.sound world hdurable
      rw [hdir] at hshows
      obtain ⟨log, -, hrep, -⟩ := hshows.live_of_events (hevents world db hdb)
      have hcharge := (core.tallies_stored .body).charge_le world
      rw [hdir] at hcharge
      exact ⟨log, hrep, mt hrep.events_eq_nil.mpr (hevents world db hdb), hcharge.trans (h.quota.trans hquota)⟩
    have hmax : i64Max ≤ usizeMax := by decide
    refine ⟨henv.dataRoot, henv.lock, henv.entropy, fun world db hdb => ?_, fun world db hdb => ?_,
      h.quota.trans (hquota.trans hmax), h.events⟩
    · obtain ⟨log, hrep, hne, -⟩ := hstored world db hdb
      exact ⟨henv.verify world, hrep.verifyWorldWithFileOp_eq hne⟩
    · obtain ⟨log, hrep, -, hbody⟩ := hstored world db hdb
      exact ⟨henv.usage world, hrep.verifyOpenShape_eq, hrep.usage_eq hbody⟩

/-- An engine that started on what calls left is ready. -/
theorem Core.Left.ready {quota : Nat} {data : AList fun _ : ValidatedWorldPath => WorldDir}
    (h : (Core.onDisk data).Left key quota) (hscans : env.Scans (.onDisk data)) (hbuild : build key env data = .ok core) :
    core.Ready key quota := by
  obtain ⟨-, rfl⟩ := (build_eq_ok hscans).mp hbuild
  exact ⟨h.sound, h.durable, rfl, rfl, fun g => by cases g <;> rfl, h.quota, h.events⟩

end

end AuditeDB
