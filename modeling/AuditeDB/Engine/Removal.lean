import Mathlib
import AuditeDB.World.Committed
import AuditeDB.World.Usage
import AuditeDB.Engine.System

/-!
# Removal of the files of a world

The committed content of a database is its main file with the transactions of its write-ahead log on top. A delete
checkpoints the log, removes the log file whether or not the checkpoint worked, and then tries to remove the
directory. When every attempt fails, the world goes on with what the main file holds alone.
-/

namespace AuditeDB

open Results Interleaving

/-- The files of a world: what the main file holds, and the content after each transaction of the log, oldest
first. -/
structure WorldFiles where
  file : Database
  wal : List Database

/-- The committed content of the files. -/
def WorldFiles.content (files : WorldFiles) : Database := files.wal.getLast?.getD files.file

/-- The outcome of the checkpoint in `release_wal_files`: no connection, all transactions copied and the log
truncated, or stopped after some of them with the log left in place. -/
inductive Checkpoint where
  | skipped
  | completed
  | stopped (copied : Nat)
deriving DecidableEq

/-- `PRAGMA wal_checkpoint(TRUNCATE)`. -/
def WorldFiles.checkpoint (files : WorldFiles) : Checkpoint → WorldFiles
  | .skipped => files
  | .completed => ⟨files.content, []⟩
  | .stopped copied => { files with file := (files.wal.take copied).getLast?.getD files.file }

/-- What happens outside the engine while the files of a world are removed: the checkpoint, whether `-wal` can be
removed, and whether the directory is gone after each of the attempts. -/
structure RemovalEnv where
  checkpoint : Checkpoint
  walRemoved : Bool
  attempts : Fin 20 → Bool

/-- `release_wal_files`. -/
def WorldFiles.release (files : WorldFiles) (env : RemovalEnv) : WorldFiles :=
  let files := files.checkpoint env.checkpoint
  if env.walRemoved then { files with wal := [] } else files

/-- `files::delete` for the files of a world below the data root. -/
def Core.deleteFiles (core : Core) (world : ValidatedWorldPath) (files : WorldFiles) (env : RemovalEnv) :
    Bool × Core :=
  if ∃ i, env.attempts i then (true, { core with data := core.data.erase world })
  else (false, core.setDir world (.database (files.release env).content))

/-- The databases below the data root. -/
def Core.databases (core : Core) : List Database :=
  core.data.entries.filterMap fun entry =>
    match entry.2 with
    | .empty => none
    | .database db => some db

/-- The storage usage of a database that can be read. -/
def usageOf (db : Database) : StorageUsageSnapshot := ((storageUsage db).toOption).getD ⟨0, 0, 0⟩

/-- The storage counters are the sums over all databases. -/
structure Core.CountersExact (core : Core) : Prop where
  readable : ∀ db ∈ core.databases, ∃ usage, storageUsage db = .ok usage
  body : core.storageBodyBytes = (core.databases.map fun db => (usageOf db).totalBodyBytes).sum
  current : core.storageCurrentBodyBytes = (core.databases.map fun db => (usageOf db).currentBodyBytes).sum
  retained : core.storageRetainedCasBodyBytes = (core.databases.map fun db => (usageOf db).retainedCasBodyBytes).sum
  events : core.storageAuditChainEvents = (core.databases.map fun db => (usageOf db).auditChainEvents).sum

/-- A checkpoint does not change the committed content. -/
theorem WorldFiles.content_checkpoint (files : WorldFiles) (outcome : Checkpoint) :
    (files.checkpoint outcome).content = files.content := by
  cases outcome with
  | skipped => rfl
  | completed => rfl
  | stopped copied =>
    unfold WorldFiles.content WorldFiles.checkpoint
    cases hlast : files.wal.getLast? with
    | none => simp [List.getLast?_eq_none_iff.mp hlast]
    | some db => simp

/-- After a checkpoint the main file holds one of the committed states. -/
theorem WorldFiles.file_checkpoint_mem (files : WorldFiles) (outcome : Checkpoint) :
    (files.checkpoint outcome).file ∈ files.wal.reverse ++ [files.file] := by
  have hmem : ∀ l : List Database, (∀ db ∈ l, db ∈ files.wal) →
      l.getLast?.getD files.file ∈ files.wal.reverse ++ [files.file] := by
    intro l hl
    cases hlast : l.getLast? with
    | none => simp
    | some db => simp [hl db (List.mem_of_getLast? hlast)]
  cases outcome with
  | skipped => simp [WorldFiles.checkpoint]
  | completed => exact hmem files.wal fun _ h => h
  | stopped copied => exact hmem _ fun _ h => List.mem_of_mem_take h

/-- The committed content is the newest state. -/
theorem WorldFiles.content_eq_head {files : WorldFiles} {db : Database} {before older : List Database}
    (h : files.wal.reverse ++ files.file :: before = db :: older) : files.content = db := by
  unfold WorldFiles.content
  rw [← List.head?_reverse]
  cases hwal : files.wal.reverse with
  | nil =>
    rw [hwal] at h
    exact (List.cons.inj h).1
  | cons first rest =>
    rw [hwal] at h
    exact (List.cons.inj h).1

/-- The other databases below the data root. -/
def Core.otherDatabases (core : Core) (world : ValidatedWorldPath) : List Database :=
  Core.databases { core with data := core.data.erase world }

/-- The databases after one of them was put in place. -/
theorem Core.databases_setDir (core : Core) (world : ValidatedWorldPath) (db : Database) :
    (core.setDir world (.database db)).databases = db :: core.otherDatabases world := by
  simp [databases, setDir, otherDatabases, AList.entries_insert, AList.erase]

/-- The databases of a core, one of them first. -/
theorem Core.databases_perm {core : Core} {world : ValidatedWorldPath} {db : Database}
    (h : core.data.lookup world = some (.database db)) :
    core.databases.Perm (db :: core.otherDatabases world) := by
  rw [← core.databases_setDir world db]
  refine List.Perm.filterMap _ (List.lookup_ext core.data.nodupKeys (AList.nodupKeys _) fun path dir => ?_)
  have hlookup : (core.data.insert world (.database db)).lookup path = core.data.lookup path := by
    by_cases hpath : path = world
    · subst hpath
      rw [AList.lookup_insert, h]
    · rw [AList.lookup_insert_ne hpath]
  exact iff_of_eq (congrArg (dir ∈ ·) hlookup.symm)

/-- The usage of a database that can be read counts its events. -/
theorem usageOf_auditChainEvents {db : Database} (h : ∃ usage, storageUsage db = .ok usage) :
    (usageOf db).auditChainEvents = db.events.length := by
  obtain ⟨usage, h⟩ := h
  have husage : usageOf db = usage := by rw [usageOf, h]; rfl
  simp only [storageUsage, bind_eq_ok, pure_eq_ok] at h
  obtain ⟨current, -, total, -, retained, -, _, -, events, hevents, rfl⟩ := h
  rw [husage]
  unfold nonnegativeUsize at hevents
  split_ifs at hevents
  cases hevents
  simp

/-- A sum over the databases of a core, one of them first. -/
theorem Core.sum_databases {core : Core} {world : ValidatedWorldPath} {db : Database}
    (h : core.data.lookup world = some (.database db)) (f : StorageUsageSnapshot → Nat) :
    (core.databases.map fun db => f (usageOf db)).sum =
      f (usageOf db) + ((core.otherDatabases world).map fun db => f (usageOf db)).sum := by
  rw [((core.databases_perm h).map _).sum_eq, List.map_cons, List.sum_cons]

/-- Exact counters stay exact when a database is replaced by one with the same usage. -/
theorem Core.CountersExact.setDir {core : Core} {world : ValidatedWorldPath} {db db' : Database}
    (hcore : core.CountersExact) (hdir : core.data.lookup world = some (.database db))
    (husage : storageUsage db' = storageUsage db) : (core.setDir world (.database db')).CountersExact := by
  have hmem : ∀ d ∈ db :: core.otherDatabases world, ∃ usage, storageUsage d = .ok usage :=
    fun d hd => hcore.readable d ((core.databases_perm hdir).mem_iff.mpr hd)
  have hsame : usageOf db' = usageOf db := by rw [usageOf, husage, usageOf]
  have hsum (f : StorageUsageSnapshot → Nat) :
      (core.databases.map fun db => f (usageOf db)).sum =
        ((core.setDir world (.database db')).databases.map fun db => f (usageOf db)).sum := by
    rw [core.sum_databases hdir, core.databases_setDir, List.map_cons, List.sum_cons, hsame]
  refine ⟨fun d hd => ?_, hcore.body.trans (hsum _), hcore.current.trans (hsum _),
    hcore.retained.trans (hsum _), hcore.events.trans (hsum _)⟩
  rw [core.databases_setDir] at hd
  rcases List.mem_cons.mp hd with rfl | hd
  · rw [husage]
    exact hmem db (List.mem_cons_self ..)
  · exact hmem d (List.mem_cons_of_mem _ hd)

/-- Exact counters are not exact any more when a database is replaced by one with fewer events. -/
theorem Core.CountersExact.not_setDir {core : Core} {world : ValidatedWorldPath} {db db' : Database}
    (hcore : core.CountersExact) (hdir : core.data.lookup world = some (.database db))
    (hless : db'.events.length < db.events.length) : ¬ (core.setDir world (.database db')).CountersExact := by
  intro hcore'
  have hdb := usageOf_auditChainEvents (hcore.readable db
    ((core.databases_perm hdir).mem_iff.mpr (List.mem_cons_self ..)))
  have hdb' := usageOf_auditChainEvents (hcore'.readable db' (by simp [core.databases_setDir]))
  have hsum := hcore.events
  rw [core.sum_databases hdir] at hsum
  have hsum' := hcore'.events
  rw [core.databases_setDir, List.map_cons, List.sum_cons] at hsum'
  have hcounter : (core.setDir world (.database db')).storageAuditChainEvents = core.storageAuditChainEvents := rfl
  omega

section

variable [HashSuite] {key : AuditHmacKey} {world : ValidatedWorldPath}

/-- What the main file holds after a checkpoint is the content, has fewer events, or misses only the index. -/
theorem WorldFiles.file_behind {files : WorldFiles} {before : List Database} (outcome : Checkpoint)
    (h : Committed key world (files.wal.reverse ++ files.file :: before)) (hne : files.content.events ≠ []) :
    ∃ log, Represents key world log files.content ∧
      ((files.checkpoint outcome).file.events.length < files.content.events.length ∨
        Represents key world log (files.checkpoint outcome).file ∧
          { (files.checkpoint outcome).file with schema := files.content.schema } = files.content) := by
  obtain ⟨db, older, log, hstates, hrep, holder⟩ := h.behind
  have hcontent := files.content_eq_head hstates
  rw [hcontent] at hne ⊢
  refine ⟨log, hrep, ?_⟩
  have hmem : (files.checkpoint outcome).file ∈ db :: older := by
    rw [← hstates]
    rcases List.mem_append.mp (files.file_checkpoint_mem outcome) with hwal | hfile
    · exact List.mem_append_left _ hwal
    · exact List.mem_append_right _ (by simp [List.mem_singleton.mp hfile])
  rcases List.mem_cons.mp hmem with heq | hd
  · exact .inr ⟨heq ▸ hrep, by rw [heq]⟩
  · rcases holder _ hd with hlt | hempty | hsame
    · exact .inl hlt
    · exact .inl (by rw [hempty]; exact List.length_pos_iff.mpr hne)
    · exact .inr hsame

variable {config : Config} {core : Core} {files : WorldFiles} {before : List Database} {env : RemovalEnv}

/-- A read of a durable world returns the representation that its database stores. -/
theorem Core.readWorldWithEtag_eq (config : Config) {core : Core} {log : WorldLog} {db : Database} {headers : Headers}
    (hdurable : isMemoryWorld world = false) (hdir : core.data.lookup world = some (.database db))
    (hrep : Represents config.hmacKey world log db) (hne : log.entries ≠ [])
    (hheaders : readMetaHeaders db = .ok headers) :
    core.readWorldWithEtag config world = .ok (some (⟨bodyAfter log.entries, log.contentType, headers⟩,
      hmacEtag (chainHead config.hmacKey world log.generation log.entries))) := by
  have hdatabase : core.database world = some db := by rw [Core.database, hdir]
  simp only [Core.readWorldWithEtag, hdurable, Core.openExisting, hdatabase, hrep.verifyOpenShape_eq,
    hrep.readWithHmac_of_headers hne hheaders, liftSql, Except.mapError, ok_bind, pure, Except.pure,
    Bool.false_eq_true, if_false]
  rfl

/-- After a delete that could not remove the directory, a read returns the same as before and the storage counters
are exact, exactly when the log file is still there or the main file holds all events. -/
theorem failed_delete_keeps_iff (hdurable : isMemoryWorld world = false)
    (hhistory : Committed config.hmacKey world (files.wal.reverse ++ files.file :: before))
    (hdir : core.data.lookup world = some (.database files.content)) (hevents : files.content.events ≠ [])
    (hcounters : core.CountersExact) (hattempts : ∀ i, env.attempts i = false) :
    (core.deleteFiles world files env).1 = false ∧
      (((core.deleteFiles world files env).2.readWorldWithEtag config world =
          core.readWorldWithEtag config world ∧
        (core.deleteFiles world files env).2.CountersExact) ↔
          env.walRemoved = false ∨
            (files.checkpoint env.checkpoint).file.events.length = files.content.events.length) := by
  have hdelete : core.deleteFiles world files env =
      (false, core.setDir world (.database (files.release env).content)) := by
    rw [Core.deleteFiles, if_neg]
    rintro ⟨i, hi⟩
    rw [hattempts i] at hi
    cases hi
  have hread : ∀ (log : WorldLog) (db : Database), Represents config.hmacKey world log files.content →
      Represents config.hmacKey world log db → { db with schema := files.content.schema } = files.content →
      (core.setDir world (.database db)).readWorldWithEtag config world = core.readWorldWithEtag config world := by
    intro log db hrep hrep' hsame
    have hne : log.entries ≠ [] := fun hnil => hevents (List.length_eq_zero_iff.mp (by
      rw [hrep.length_events, hnil]
      rfl))
    obtain ⟨headers, hheaders⟩ := hrep.readMetaHeaders_ok
    have hheaders' : readMetaHeaders db = .ok headers := by rw [← hheaders, ← hsame]; rfl
    rw [Core.readWorldWithEtag_eq config hdurable hdir hrep hne hheaders]
    exact Core.readWorldWithEtag_eq config hdurable (AList.lookup_insert _) hrep' hne hheaders'
  rw [hdelete]
  refine ⟨rfl, ?_⟩
  -- The content is unchanged, or it is what the main file held after the checkpoint.
  cases hremoved : env.walRemoved with
  | false =>
    have hcontent : (files.release env).content = files.content := by
      simp [WorldFiles.release, hremoved, files.content_checkpoint]
    rw [hcontent]
    refine iff_of_true ⟨?_, hcounters.setDir hdir rfl⟩ (.inl rfl)
    obtain ⟨log, hrep, -⟩ := files.file_behind env.checkpoint hhistory hevents
    exact hread log _ hrep hrep rfl
  | true =>
    have hcontent : (files.release env).content = (files.checkpoint env.checkpoint).file := by
      simp [WorldFiles.release, hremoved, WorldFiles.content]
    rw [hcontent]
    obtain ⟨log, hrep, hless | ⟨hrep', hsame⟩⟩ := files.file_behind env.checkpoint hhistory hevents
    · refine iff_of_false (fun h => hcounters.not_setDir hdir hless h.2) ?_
      simpa using hless.ne
    · refine iff_of_true ⟨?_, hcounters.setDir hdir ?_⟩ (.inr ?_)
      · exact hread log _ hrep hrep' hsame
      · rw [← hsame]
        rfl
      · rw [← hsame]

end

namespace Sample

/-- An engine whose only database is that of the world. -/
def coreOf (db : Database) : Core :=
  { Core.fresh with
    data := AList.singleton world (.database db)
    storageBodyBytes := (usageOf db).totalBodyBytes
    storageCurrentBodyBytes := (usageOf db).currentBodyBytes
    storageRetainedCasBodyBytes := (usageOf db).retainedCasBodyBytes
    storageAuditChainEvents := (usageOf db).auditChainEvents }

/-- Its database. -/
theorem lookup_coreOf (db : Database) : (coreOf db).data.lookup world = some (.database db) := by
  rw [coreOf, ← AList.insert_empty, AList.lookup_insert]

/-- Its counters are exact. -/
theorem countersExact_coreOf {db : Database} (h : ∃ usage, storageUsage db = .ok usage) :
    (coreOf db).CountersExact := by
  have hdatabases : (coreOf db).databases = [db] := rfl
  refine ⟨fun d hd => ?_, ?_, ?_, ?_, ?_⟩
  · rw [hdatabases] at hd
    rwa [List.mem_singleton.mp hd]
  all_goals
    rw [hdatabases, List.map_singleton, List.sum_singleton]
    rfl

/-- A blocked checkpoint, a log file that can be removed, and a directory that cannot. -/
def blocked : RemovalEnv := ⟨.stopped 0, true, fun _ => false⟩

/-- Two replaces of a new world. -/
theorem replaced_twice [HashSuite] :
    ∃ first second log log', Committed key world [second, first, createdDatabase generation] ∧
      (Represents key world log first ∧ log.entries ≠ [] ∧ bodyAfter log.entries = [104, 105]) ∧
      (Represents key world log' second ∧ log'.entries ≠ [] ∧ bodyAfter log'.entries = [104, 111]) ∧
      ∃ usage, storageUsage second = .ok usage := by
  have hcreated := represents_created key world generation
  have hsmall : Small 0 (WorldLog.created generation).entries := ⟨le_rfl, fun _ h => (by cases h)⟩
  obtain ⟨_, first, log, hfirst, hrep, hsmall, hcommits, -⟩ :=
    hsmall.replace hcreated (by decide) false .created (.inl rfl) (show [104, 105].length = 2 from rfl)
  obtain ⟨_, second, log', hsecond, hrep', hsmall', hcommits', -⟩ :=
    hsmall.replace hrep (by decide) false .existing (.inr (.inl hcommits.ne_nil)) (show [104, 111].length = 2 from rfl)
  exact ⟨first, second, log, log', .written (.written (.created generation true (fun _ h => (by cases h))) hfirst)
    hsecond, ⟨hrep, hcommits.ne_nil, hcommits.bodyAfter_eq⟩, ⟨hrep', hcommits'.ne_nil, hcommits'.bodyAfter_eq⟩,
    hsmall'.exists_storageUsage hrep' (by decide)⟩

end Sample

/-- A completed checkpoint keeps a world whose directory could not be removed. -/
theorem failed_delete_keeps_completed :
    letI := sha2Suite
    ∃ files : WorldFiles, files.wal ≠ [] ∧
      ((Sample.coreOf files.content).deleteFiles Sample.world files ⟨.completed, true, fun _ => false⟩).2.CountersExact
        := by
  let _ := sha2Suite
  obtain ⟨first, second, log, log', hhistory, -, ⟨hrep', hne', -⟩, husage⟩ := Sample.replaced_twice
  have hevents : second.events ≠ [] := fun hnil => hne' (List.length_eq_zero_iff.mp (by
    rw [← hrep'.length_events, hnil]
    rfl))
  refine ⟨⟨first, [second]⟩, List.cons_ne_nil _ _, ?_⟩
  have hkeeps := @failed_delete_keeps_iff _ Sample.world Sample.config (Sample.coreOf second) ⟨first, [second]⟩
    [createdDatabase Sample.generation] ⟨.completed, true, fun _ => false⟩
    (show isMemoryWorld Sample.world = false by decide +kernel) hhistory (Sample.lookup_coreOf second) hevents
    (Sample.countersExact_coreOf husage) fun _ => rfl
  exact (hkeeps.2.mpr (.inr rfl)).2

/-- A blocked checkpoint loses the second of two replaces: the failed delete brings the first body back. -/
theorem failed_delete_loses_write :
    letI := sha2Suite
    ∃ (files : WorldFiles) (before : List Database) (stage stage' : Stage) (etag etag' : String),
      Committed Sample.key Sample.world (files.wal.reverse ++ files.file :: before) ∧
      (Sample.coreOf files.content).CountersExact ∧
      (Sample.coreOf files.content).readWorldWithEtag Sample.config Sample.world = .ok (some (stage, etag)) ∧
      stage.body = [104, 111] ∧
      ((Sample.coreOf files.content).deleteFiles Sample.world files Sample.blocked).1 = false ∧
      ((Sample.coreOf files.content).deleteFiles Sample.world files Sample.blocked).2.readWorldWithEtag
        Sample.config Sample.world = .ok (some (stage', etag')) ∧ stage'.body = [104, 105] := by
  let _ := sha2Suite
  obtain ⟨first, second, log, log', hhistory, ⟨hrep, hne, hbody⟩, ⟨hrep', hne', hbody'⟩, husage⟩ :=
    Sample.replaced_twice
  obtain ⟨headers, hheaders⟩ := hrep.readMetaHeaders_ok
  obtain ⟨headers', hheaders'⟩ := hrep'.readMetaHeaders_ok
  have hdurable : isMemoryWorld Sample.world = false := by decide +kernel
  have hread := Core.readWorldWithEtag_eq Sample.config hdurable (Sample.lookup_coreOf second) hrep' hne' hheaders'
  have hread' := Core.readWorldWithEtag_eq Sample.config hdurable
    (show ((Sample.coreOf second).setDir Sample.world (.database first)).data.lookup Sample.world = _ from
      AList.lookup_insert _) hrep hne hheaders
  exact ⟨⟨first, [second]⟩, [createdDatabase Sample.generation], _, _, _, _, hhistory,
    Sample.countersExact_coreOf husage, hread, hbody', rfl, hread', hbody⟩

end AuditeDB
