import Mathlib
import AuditeDB.Library.Traces
import AuditeDB.World.Live
import AuditeDB.Engine.DeleteSteps

/-!
# The history of a world in a run

What a durable world is for its clients: it is absent, or it has a history. The entries of the journal move it from
one state to the next, and the directory of the world shows its state at any time, up to a creation that is not
complete.
-/

namespace AuditeDB

open Results Interleaving

/-- The entries of a journal that concern one world. -/
def journalOf (path : ValidatedWorldPath) (journal : List JournalEntry) : List JournalEntry :=
  journal.filter fun entry => entry.path = path

@[simp] theorem journalOf_append (path : ValidatedWorldPath) (journal more : List JournalEntry) :
    journalOf path (journal ++ more) = journalOf path journal ++ journalOf path more :=
  List.filter_append ..

@[simp] theorem mem_journalOf {path : ValidatedWorldPath} {journal : List JournalEntry} {entry : JournalEntry} :
    entry ∈ journalOf path journal ↔ entry ∈ journal ∧ entry.path = path := by
  simp [journalOf]

section

variable [HashSuite] (key : AuditHmacKey)

/-- The ledger row of a delete as an event of a history. -/
def ledgerEntry (timestamp : AuditTimestamp) (job : AuditAppendJob) : LogEntry :=
  newEntry timestamp job.eventType job.target job.bodySha256 0 job.contentType job.headers.toStoragePairs none

/-- What a committed ledger row did to the history of the ledger. -/
structure Logs (job : AuditAppendJob) (event : AppendedLedgerEvent) (log log' : WorldLog) : Prop where
  entries : ∃ opening timestamp row,
    Opening key deleteLedgerWorld log.generation log.entries event.formatEvent opening ∧
      log' = { log with entries := log.entries ++ opening ++ [ledgerEntry timestamp job] } ∧
      event = job.appended event.formatEvent row ∧
      row.Records key deleteLedgerWorld log.generation (log.entries ++ opening) (ledgerEntry timestamp job)

/-- What a committed operation did to the history of its world. -/
def Operation.Writes (world : ValidatedWorldPath) (result : WriteAuditResult) (log log' : WorldLog) :
    Operation → Prop
  | .replace _ request =>
    Written key world .put request.body request.contentType request.headers result log log' ∧
      log'.contentType = request.contentType ∧ log'.headers = request.headers ∧
      (request.headers.map Prod.fst).Nodup
  | .append _ request => ∃ contentType headers,
    Written key world .append (bodyAfter log.entries ++ request.body) contentType headers result log log' ∧
      log'.contentType = log.contentType ∧ log'.headers = log.headers
  | .delete _ _ => False

/-- The tag of a history is the given one. -/
def WorldLog.Tagged (log : WorldLog) (world : ValidatedWorldPath) (tag : String) : Prop :=
  log.entries ≠ [] ∧ tag = hmacEtag (chainHead key world log.generation log.entries)

/-- An operation that requires a tag found it. -/
def Operation.Matched (world : ValidatedWorldPath) (log : WorldLog) (operation : Operation) : Prop :=
  ∀ tag, operation.preconditions.requiredTag = some tag → log.Tagged key world tag

/-- The moves of a durable world. The relation `did` says which operation a caller runs on the world. -/
inductive LogStep (did : Nat → Operation → Prop) (world : ValidatedWorldPath) :
    Option WorldLog → JournalEntry → Option WorldLog → Prop where
  | created (generation : WorldGeneration) :
      LogStep did world none (.created world generation) (some (.created generation))
  | wrote {caller : Nat} {operation : Operation} {opened : OpenedWorldKind} {result : WriteAuditResult}
      {before db : Database} {log log' : WorldLog} (hworld : world ≠ deleteLedgerWorld)
      (hdid : did caller operation) (hmatched : operation.Matched key world log)
      (hbefore : Represents key world log before) (hlive : log.Live world)
      (hrun : operation.Transaction key world opened before result db)
      (hwrites : operation.Writes key world result log log') (hafter : Represents key world log' db) :
      LogStep did world (some log) (.wrote caller world (operation.treats opened) before result db) (some log')
  | logged {caller : Nat} {job : AuditAppendJob} {event : AppendedLedgerEvent} {log log' : WorldLog}
      (hworld : world = deleteLedgerWorld) (hjob : DeleteJob job.target job) (hlogs : Logs key job event log log') :
      LogStep did world (some log) (.logged caller event) (some log')
  | removed {caller : Nat} {operation : Operation} {log : WorldLog} (hworld : world ≠ deleteLedgerWorld)
      (hdid : did caller operation) (hmatched : operation.Matched key world log)
      (hdelete : operation.isWrite = false) : LogStep did world (some log) (.removed caller world) none

/-- The moves of a world in memory. -/
inductive MemStep (did : Nat → Operation → Prop) (world : ValidatedWorldPath) :
    Option MemEntry → JournalEntry → Option MemEntry → Prop where
  | stored {caller : Nat} {operation : Operation} {old : Option MemEntry} {entry : MemEntry}
      (hdid : did caller operation) (hstores : operation.Stores old entry) :
      MemStep did world old (.stored caller world entry) (some entry)
  | removed (caller : Nat) (old : Option MemEntry) : MemStep did world old (.removed caller world) none

/-- A directory shows the state of its world. -/
inductive Shows (world : ValidatedWorldPath) : Option WorldLog → Option WorldDir → Prop where
  | absent {dir : Option WorldDir} (hdir : ∀ db, dir ≠ some (.database db)) : Shows world none dir
  | creating (generation : WorldGeneration) {k : Nat} (hk : k < 10) :
      Shows world (some (.created generation)) (some (.database (createdUpTo generation k)))
  | live {log : WorldLog} {db : Database} (hrep : Represents key world log db) (hlive : log.Live world) :
      Shows world (some log) (some (.database db))

/-- A world with a database that stores its history. -/
def IsLive (world : ValidatedWorldPath) (state : Option WorldLog) (dir : Option WorldDir) : Prop :=
  ∃ log db, state = some log ∧ dir = some (.database db) ∧ Represents key world log db ∧ log.Live world

/-- What the holder of a world knows about its state. -/
def Knows (world : ValidatedWorldPath) : Status → Option WorldLog → Option WorldDir → Prop
  | .unknown, state, dir => Shows key world state dir
  | .missing, state, dir => state = none ∧ ∀ db, dir ≠ some (.database db)
  | .creating generation k, state, dir =>
    state = some (.created generation) ∧ dir = some (.database (createdUpTo generation k)) ∧ k ≤ 10
  | .ready _, state, dir => IsLive key world state dir

end

section

variable [HashSuite] {key : AuditHmacKey} {did : Nat → Operation → Prop} {world : ValidatedWorldPath}
  {state : Option WorldLog} {dir : Option WorldDir}

/-- A live world shows its state. -/
theorem IsLive.shows (h : IsLive key world state dir) : Shows key world state dir := by
  obtain ⟨log, db, rfl, rfl, hrep, hlive⟩ := h
  exact .live hrep hlive

/-- A database in creation shows its state. -/
theorem shows_createdUpTo (key : AuditHmacKey) (world : ValidatedWorldPath) (generation : WorldGeneration) {k : Nat}
    (hk : k ≤ 11) : Shows key world (some (.created generation)) (some (.database (createdUpTo generation k))) := by
  by_cases hlt : k < 10
  · exact .creating generation hlt
  · exact .live (represents_createdUpTo key world (by omega)) (WorldLog.live_created generation world)

/-- Whatever is known about a world, its directory shows its state. -/
theorem Knows.shows {status : Status} (h : Knows key world status state dir) : Shows key world state dir := by
  cases status with
  | unknown => exact h
  | missing =>
    obtain ⟨rfl, hdir⟩ := h
    exact .absent hdir
  | creating generation k =>
    obtain ⟨rfl, rfl, hk⟩ := h
    exact shows_createdUpTo key world generation (by omega)
  | ready opened => exact IsLive.shows h

/-- A database that passes the check of its shape is live. -/
theorem Shows.live_of_shape {db : Database} (h : Shows key world state (some (.database db)))
    (hshape : verifyOpenShape db = .ok ()) : IsLive key world state (some (.database db)) := by
  cases h with
  | absent hdir => exact absurd rfl (hdir db)
  | creating generation hk => exact absurd hshape (verifyOpenShape_createdUpTo hk)
  | live hrep hlive => exact ⟨_, _, rfl, rfl, hrep, hlive⟩

/-- A world without a database is absent. -/
theorem Shows.eq_none (h : Shows key world state dir) (hdir : ∀ db, dir ≠ some (.database db)) : state = none := by
  cases h with
  | absent => rfl
  | creating generation => exact absurd rfl (hdir _)
  | live => exact absurd rfl (hdir _)

/-- A read of a durable world returns the representation that its history leaves. -/
theorem Shows.read {db : Database} {stage : Stage} {hmac : Option String}
    (h : Shows key world state (some (.database db))) (hshape : verifyOpenShape db = .ok ())
    (hread : readWithHmac key world db = .ok (stage, hmac)) :
    ∃ log, state = some log ∧ log.entries ≠ [] ∧ stage = log.stage ∧
      hmac = some (chainHead key world log.generation log.entries) := by
  obtain ⟨log, _, rfl, hdb, hrep, -⟩ := h.live_of_shape hshape
  cases hdb
  have hne := hrep.ne_nil_of_read hread
  rw [hrep.readWithHmac_stage hne] at hread
  cases hread
  exact ⟨log, rfl, hne, rfl, rfl⟩

/-- The tag that a read of a durable world returns is the one of its history. -/
theorem Shows.tagged {v : View} {tag : String} (h : Shows key world state (v.dir world))
    (htag : v.HasTag key world tag) : ∃ log, state = some log ∧ log.Tagged key world tag := by
  obtain ⟨db, stage, hmac, hdir, hshape, hread, rfl⟩ := htag
  rw [hdir] at h
  obtain ⟨log, rfl, hne, -, rfl⟩ := h.read hshape hread
  exact ⟨log, rfl, hne, rfl⟩

omit [HashSuite] in
/-- A ledger row gives the subject of its job back. -/
theorem DeleteJob.read {job : AuditAppendJob} (hjob : DeleteJob job.target job) :
    deleteSubjectProofFromHeaders job.target job.bodySha256 (canonicalHeaders job.headers.toStoragePairs) =
      .ok job.headers.deleteSubject := by
  cases hmemory : isMemoryWorld job.target with
  | true =>
    have hnone := hjob.memory hmemory
    rw [hnone]
    exact job.headers.read_none hnone hmemory (List.Perm.refl _)
  | false =>
    obtain ⟨subject, hsubject, hverified, hdigest⟩ := hjob.durable hmemory
    rw [Option.mem_def.mp hsubject, ← hdigest]
    exact job.headers.read_some hsubject hverified (List.Perm.refl _)

/-- A ledger row may be recorded. -/
theorem DeleteJob.valid {job : AuditAppendJob} (hjob : DeleteJob job.target job) (timestamp : AuditTimestamp) :
    (ledgerEntry timestamp job).Valid deleteLedgerWorld := by
  have hkind := hjob.kind
  refine ⟨?_, ?_, ?_, nofun, fun _ => ⟨_, hjob.read⟩⟩
  · intro h
    simp only [ledgerEntry, newEntry] at h
    cases hevent : job.eventType <;> simp_all [AuditEventKind.isDelete, AuditEventKind.bodyBearing]
  · intro h
    simp only [ledgerEntry, newEntry] at h
    rw [h] at hkind
    cases hkind
  · simp only [ledgerEntry, newEntry]
    cases hevent : job.eventType <;> simp_all [AuditEventKind.isDelete, AuditEventKind.bodyBearing]

/-- A row of the ledger behind a history that was opened for it. -/
theorem appendLedgerRow_logs {log : WorldLog} {opening : List LogEntry} {formatEvent : Option AppendedAuditRow}
    {opened db' : Database} {clock : String} {job : AuditAppendJob} {row : AppendedAuditRow}
    (hopening : Opening key deleteLedgerWorld log.generation log.entries formatEvent opening)
    (hopened : Represents key deleteLedgerWorld { log with entries := log.entries ++ opening } opened)
    (hjob : DeleteJob job.target job)
    (h : appendTxInner ⟨key, deleteLedgerWorld, log.generation⟩ clock job.eventType job.target job.bodySha256 0
      job.contentType job.headers.toStoragePairs opened = .ok (row, db')) :
    ∃ log', Represents key deleteLedgerWorld log' db' ∧ Logs key job (job.appended formatEvent row) log log' := by
  obtain ⟨timestamp, hchain, hsame, hseq, hrow⟩ := appendTxInner_spec hopened.chain h none
  exact ⟨_, hopened.push (hjob.valid timestamp) rfl hchain hsame,
    ⟨opening, timestamp, row, hopening, rfl, rfl, ⟨hseq, hrow⟩⟩⟩

/-- A committed transaction of the ledger extends its history by the row of the job. -/
theorem ledgerTransaction_logs {log : WorldLog} {db db' : Database} {config : Config} {clock : TxClock}
    {job : AuditAppendJob} {isEmpty : Bool} {event : AppendedLedgerEvent}
    (hrep : Represents config.hmacKey deleteLedgerWorld log db) (hjob : DeleteJob job.target job)
    (h : ledgerTransaction config clock job isEmpty db = .ok (event, db')) :
    ∃ log', Represents config.hmacKey deleteLedgerWorld log' db' ∧ Logs config.hmacKey job event log log' := by
  unfold ledgerTransaction at h
  split at h
  · simp only [bind_eq_ok, pure_eq_ok, Prod.exists, Prod.mk.injEq] at h
    obtain ⟨format, row, _, hgenesis, rfl, rfl⟩ := h
    unfold appendGenesisRow at hgenesis
    simp only [bind_eq_ok, liftSql_eq_ok, pure_eq_ok, Prod.exists, Prod.mk.injEq] at hgenesis
    obtain ⟨audit, hgate, formatRow, opened, hformat, _, _, hinner, ⟨rfl, rfl⟩, rfl⟩ := hgenesis
    obtain rfl := verifyAppendableFull_eq_ok hgate hrep.generation_eq
    obtain ⟨-, opening, hopening, hopened⟩ := appendFormatTxRow_spec hrep hformat
    exact appendLedgerRow_logs hopening hopened hjob hinner
  · simp only [bind_eq_ok, pure_eq_ok, Prod.exists, Prod.mk.injEq] at h
    obtain ⟨row, _, hexisting, rfl, rfl⟩ := h
    unfold appendExistingRow at hexisting
    simp only [bind_eq_ok, liftSql_eq_ok] at hexisting
    obtain ⟨audit, hgate, hinner⟩ := hexisting
    obtain rfl := verifyAppendableFull_eq_ok hgate hrep.generation_eq
    exact appendLedgerRow_logs .existing (by simpa using hrep) hjob hinner

/-- The ledger keeps the default representation. -/
theorem Logs.live {job : AuditAppendJob} {event : AppendedLedgerEvent} {log log' : WorldLog}
    (h : Logs key job event log log') (hjob : DeleteJob job.target job) (hlive : log.Live deleteLedgerWorld) :
    log'.Live deleteLedgerWorld := by
  obtain ⟨opening, timestamp, row, hopening, rfl, -, -⟩ := h.entries
  have hkind := hjob.kind
  have hput : job.eventType ≠ .put := by
    intro hput
    rw [hput] at hkind
    cases hkind
  have hsame : liveMetadata (log.entries ++ opening ++ [ledgerEntry timestamp job]) = liveMetadata log.entries := by
    simp [liveMetadata, List.filter_append, hopening.filter_put, ledgerEntry, newEntry, hput]
  refine ⟨?_, ?_, hlive.names, fun hne => absurd rfl hne⟩
  · rw [hsame]
    exact hlive.contentType
  · rw [hsame]
    exact hlive.headers

/-- A committed transaction of a call extends the history of its world. -/
theorem Operation.Transaction.writes {operation : Operation} {opened : OpenedWorldKind} {db db' : Database}
    {result : WriteAuditResult} {log : WorldLog} (hrun : operation.Transaction key world opened db result db')
    (hrep : Represents key world log db) (hlive : log.Live world) :
    ∃ log', Represents key world log' db' ∧ operation.Writes key world result log log' ∧ log'.Live world := by
  cases operation with
  | replace env request =>
    obtain ⟨verified, retained, hwrite⟩ := hrun
    obtain ⟨log', hrep', hwritten, hcontentType, hheaders, hnames⟩ := writeWithAudit_written hrep hwrite
    exact ⟨log', hrep', ⟨hwritten, hcontentType, hheaders, hnames⟩, hwritten.live_put hcontentType hheaders hnames⟩
  | append env request =>
    obtain ⟨verified, contentType, headers, retained, happend⟩ := hrun
    obtain ⟨log', hrep', hwritten, hcontentType, hheaders⟩ := appendWithAudit_written hrep happend
    exact ⟨log', hrep', ⟨contentType, headers, hwritten, hcontentType, hheaders⟩,
      hwritten.live_append hlive hcontentType hheaders⟩
  | delete => exact hrun.elim

/-- Opening a live database keeps its history. -/
theorem IsLive.ensureWriteIndexes {db db' : Database} (h : IsLive key world state (some (.database db)))
    (hindexes : ensureWriteIndexes db = .ok db') : IsLive key world state (some (.database db')) := by
  obtain ⟨log, _, rfl, hdb, hrep, hlive⟩ := h
  cases hdb
  obtain rfl := hrep.ensureWriteIndexes_eq hindexes
  exact ⟨log, _, rfl, rfl, hrep.withSchema (.inr rfl), hlive⟩

end

end AuditeDB
