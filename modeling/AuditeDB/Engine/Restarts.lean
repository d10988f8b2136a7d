import Mathlib
import AuditeDB.Engine.Startup
import AuditeDB.Engine.Reading

/-!
# Restarts

A process may stop at any step of its calls, and the next one starts on the databases it left. Over any number of
restarts the bytes of all bodies on disk stay within the quota, and the counters are what the databases take whenever
no lock is held. A restart is refused exactly when some database on disk has no event yet.
-/

namespace AuditeDB

open Results Interleaving Bookkeeping Totals

section

variable [HashSuite]

/-- An engine at its start: on an empty data root, or on what the calls of an earlier process left. -/
inductive Started (key : AuditHmacKey) (quota : Nat) : Core → Prop where
  | fresh : Started key quota .fresh
  | restart {n : Nat} {calls : Calls n} {core core' : Core} {pool : Pool (Fin n) Core CallError Reply}
      {env : StartupEnv} (hstarted : Started key quota core) (hkey : calls.key = key)
      (hquota : ∀ i, (calls.config i).storageQuota ≤ quota) (hreach : calls.Reaches core pool)
      (hscans : env.Scans (.onDisk pool.shared.data)) (hbuild : build key env pool.shared.data = .ok core') :
      Started key quota core'

variable {n : Nat} {calls : Calls n} {key : AuditHmacKey} {quota : Nat} {core : Core} {env : StartupEnv}

/-- What calls leave on disk when their process stops. -/
theorem Calls.Balanced.left {start : Point} {room : Prop} {locals : Fin n → Local × Account}
    (h : calls.Balanced start quota room core locals) : (Core.onDisk core.data).Left calls.key quota where
  sound path hdurable := by
    obtain ⟨_, state, -, -, hstate⟩ := h.consistent.history path hdurable
    exact ⟨state, hstate.shows⟩
  durable := h.durable
  quota := (h.stored_le (g := .body) (.inl rfl)).1.trans (h.stored_le (.inl rfl)).2
  events := (h.stored_le (g := .events) (.inr rfl)).1.trans (h.stored_le (.inr rfl)).2

/-- Every started engine is ready. -/
theorem Started.ready (h : Started key quota core) : core.Ready key quota := by
  induction h with
  | fresh => exact Core.fresh_ready
  | restart hstarted hkey hquota hreach hscans hbuild ih =>
    subst hkey
    obtain ⟨start, locals, hbalanced⟩ := ih.balanced hquota hreach
    exact hbalanced.left.ready hscans hbuild

end

namespace Sample

/-- A replace of an absent durable world under a quota. -/
def storing : Calls 1 where
  key := key
  config _ := { config with maxStorageBytes := some 64 }
  call _ := ⟨world, .write, .replace quiet ⟨[97, 98], "text/plain", [], ⟨[], []⟩⟩⟩
  hmacKey _ := rfl

end Sample

section

variable [HashSuite] {n : Nat}

end

/-- A world with a database has a directory. -/
theorem Core.mem_keys_of_database (core : Core) {world : ValidatedWorldPath}
    (h : (core.database world).isSome = true) : world ∈ core.data.keys := by
  obtain ⟨db, hdb⟩ := Option.isSome_iff_exists.mp h
  have hdir : core.data.lookup world = some (.database db) := (core.database_eq_some world).mp hdb
  rw [← AList.mem_keys, ← AList.lookup_isSome, hdir]
  rfl

/-- The entries of a data root with only directories of worlds. -/
def Core.scan (core : Core) : List DirEntry :=
  (core.data.keys.filter fun world => (core.database world).isSome).map fun world =>
    ⟨.unicode (diskName world.name), true⟩

/-- A scan of a data root finds its databases. -/
theorem Core.scanned_scan (core : Core) : core.Scanned core.scan where
  distinct := by
    rw [scan, List.map_map]
    refine (core.data.keys_nodup.filter _).map fun world other hname => ?_
    exact ValidatedWorldPath.ext (Percent.encode_injective diskEncode (FileName.unicode.inj hname))
  sound entry hentry _ := by
    obtain ⟨world, hworld, rfl⟩ := List.mem_map.mp hentry
    exact ⟨world, (List.mem_filter.mp hworld).2, rfl⟩
  complete world hworld := by
    exact List.mem_map.mpr ⟨world, List.mem_filter.mpr ⟨core.mem_keys_of_database hworld, hworld⟩, rfl⟩

/-- A startup in which nothing fails. -/
def StartupEnv.quiet (core : Core) : StartupEnv :=
  ⟨true, none, core.scan.map .ok, fun _ => none, core.scan.map .ok, fun _ => none, true⟩

/-- Every data root has a startup in which nothing fails. -/
theorem StartupEnv.quiet_quiet (core : Core) : (StartupEnv.quiet core).Quiet core :=
  ⟨⟨⟨_, core.scanned_scan, rfl⟩, ⟨_, core.scanned_scan, rfl⟩⟩, rfl, rfl, rfl, fun _ => rfl, fun _ => rfl⟩

section

variable [HashSuite] {n : Nat}

/-- When a process stopped at any step of its calls, the next one starts exactly when every database on disk has an
event: a world that was created but not written yet keeps the engine from starting. -/
theorem startup_accepts_iff (calls : Calls n) {quota : Nat} {core : Core} {pool : Pool (Fin n) Core CallError Reply}
    {env : StartupEnv} (hstarted : Started calls.key quota core) (hquota : ∀ i, (calls.config i).storageQuota ≤ quota)
    (hmax : quota ≤ i64Max) (hreach : calls.Reaches core pool) (henv : env.Quiet (.onDisk pool.shared.data)) :
    (∃ core', build calls.key env pool.shared.data = .ok core') ↔
      ∀ world db, pool.shared.database world = some db → db.events ≠ [] := by
  obtain ⟨start, locals, hbalanced⟩ := hstarted.ready.balanced hquota hreach
  have hiff := hbalanced.left.accepts_iff hmax henv
  constructor
  · rintro ⟨core', hbuild⟩
    exact hiff.mp ((build_eq_ok henv.scans).mp hbuild).1
  · exact fun hevents => ⟨_, (build_eq_ok henv.scans).mpr ⟨hiff.mpr hevents, rfl⟩⟩

end

/-- A process that stops while it creates a world keeps the next one from starting. -/
theorem startup_accepts_iff_creating :
    letI := Sample.checksumSuite
    ∃ pool, Sample.storing.Reaches .fresh pool ∧ ((pool.shared.database Sample.world).map Database.events = some []) ∧
      ¬ ∃ core', build Sample.storing.key (.quiet (.onDisk pool.shared.data)) pool.shared.data = .ok core' := by
  let _ := Sample.checksumSuite
  obtain ⟨pool, hreach, hpool⟩ := Pool.reaches_of_schedule Environment (List.replicate 20 0)
    (show ((List.replicate 20 0).foldlM Pool.next (Sample.storing.pool .fresh)).any (fun pool =>
      (pool.shared.database Sample.world).map Database.events = some []) = true by decide +kernel)
  have hevents := of_decide_eq_true hpool
  refine ⟨pool, hreach, hevents, fun hstarts => ?_⟩
  obtain ⟨db, hdb, hnil⟩ := Option.map_eq_some_iff.mp hevents
  have hiff := startup_accepts_iff Sample.storing .fresh (fun _ => le_rfl) (show 64 ≤ i64Max by decide) hreach
    (StartupEnv.quiet_quiet _)
  exact hiff.mp hstarts Sample.world db hdb hnil

section

variable [HashSuite]

/-- A startup that succeeds has verified every database on disk, keeps the data root as it is, and has counted its
databases, the ledger among them, and what they take. -/
theorem startup_establishes {key : AuditHmacKey} {env : StartupEnv} {core : Core}
    {data : AList fun _ : ValidatedWorldPath => WorldDir} (hscans : env.Scans (.onDisk data))
    (hbuild : build key env data = .ok core) :
    core.data = data ∧
      (∀ world db, core.database world = some db →
        world ∈ core.verifiedAuditWorlds ∧ verifyWorldWithFileOp key world db = .ok ()) ∧
      core.durableWorldCount = (data.keys.toFinset.filter fun world => (core.database world).isSome).card ∧
      core.deleteLedgerCreated = (core.database deleteLedgerWorld).isSome ∧
      core.storageBodyBytes = core.stored .body ∧ core.storageCurrentBodyBytes = core.stored .current ∧
      core.storageRetainedCasBodyBytes = core.stored .retained ∧ core.storageAuditChainEvents = core.stored .events := by
  obtain ⟨haccepts, rfl⟩ := (build_eq_ok hscans).mp hbuild
  have hdatabase : ∀ world, (env.started (.onDisk data)).database world = (Core.onDisk data).database world := fun _ => rfl
  refine ⟨rfl, fun world db hdb => ⟨?_, (haccepts.verifies world db hdb).2⟩, ?_, ?_, rfl, rfl, rfl, rfl⟩
  · obtain ⟨entries, hscan, hwalk⟩ := hscans.walk
    show world ∈ (env.walk.filterMap foundWorld).toFinset
    rw [List.mem_toFinset, hwalk, hscan.mem_found]
    exact Option.isSome_iff_exists.mpr ⟨db, hdb⟩
  · show (env.worlds.map _).length = _
    rw [List.length_map, ← List.toFinset_card_of_nodup hscans.nodup_worlds]
    congr 1
    ext world
    rw [List.mem_toFinset, hscans.mem_worlds, Finset.mem_filter, List.mem_toFinset, hdatabase]
    exact ⟨fun h => ⟨(Core.onDisk data).mem_keys_of_database h, h⟩, fun h => h.2⟩
  · rw [hdatabase, Bool.eq_iff_iff, ← hscans.mem_worlds]
    show (env.worlds.map _).any _ = true ↔ _
    simp [List.any_map, List.any_eq_true]

end

/-- The startup after a replace counts one world with two events. -/
theorem startup_establishes_storing :
    letI := Sample.checksumSuite
    ∃ pool core, Sample.storing.Reaches .fresh pool ∧
      build Sample.storing.key (.quiet (.onDisk pool.shared.data)) pool.shared.data = .ok core ∧
      core.durableWorldCount = 1 ∧ core.storageAuditChainEvents = 2 := by
  let _ := Sample.checksumSuite
  obtain ⟨pool, hreach, hpool⟩ := Pool.reaches_of_schedule Environment (List.replicate 40 0)
    (show ((List.replicate 40 0).foldlM Pool.next (Sample.storing.pool .fresh)).any (fun pool =>
      pool.shared.data.keys = [Sample.world] ∧ pool.shared.stored .events = 2 ∧
        (pool.shared.database Sample.world).isSome = true ∧
        (pool.shared.database Sample.world).map Database.events ≠ some []) = true by decide +kernel)
  obtain ⟨hkeys, hstored, hsome, hevents⟩ := of_decide_eq_true hpool
  have hall : ∀ world db, (Core.onDisk pool.shared.data).database world = some db → db.events ≠ [] := by
    intro world db hdb hnil
    have hmem := pool.shared.mem_keys_of_database (Option.isSome_iff_exists.mpr ⟨db, hdb⟩)
    rw [hkeys, List.mem_singleton] at hmem
    subst hmem
    exact hevents (Option.map_eq_some_iff.mpr ⟨db, hdb, hnil⟩)
  have hquiet := StartupEnv.quiet_quiet (.onDisk pool.shared.data)
  obtain ⟨start, locals, hbalanced⟩ :=
    (show Started Sample.storing.key 64 .fresh from .fresh).ready.balanced (fun _ => le_rfl) hreach
  have hbuild := (build_eq_ok hquiet.scans).mpr
    ⟨(hbalanced.left.accepts_iff (show 64 ≤ i64Max by decide) hquiet).mpr hall, rfl⟩
  obtain ⟨-, -, hcount, -, -, -, -, hcounted⟩ := startup_establishes hquiet.scans hbuild
  refine ⟨pool, _, hreach, hbuild, ?_, hcounted.trans hstored⟩
  rw [hcount, hkeys, List.toFinset_cons, List.toFinset_nil, Finset.filter_true_of_mem]
  · rfl
  · intro world hworld
    obtain rfl : world = Sample.world := by simpa using hworld
    exact hsome

end AuditeDB
