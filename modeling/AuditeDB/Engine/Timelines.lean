import Mathlib
import AuditeDB.World.Replay
import AuditeDB.Engine.ReadBack

/-!
# The timeline of a world in a run

The rows that were committed to a durable world since it was created, each with what was reported about it and with
the bytes that were current right after it. Coordinates and replays of the world are answered from these rows, whatever
was pruned meanwhile.
-/

namespace AuditeDB

open Results Interleaving Traces

/-- A committed row with the body that it left behind. -/
structure TimelineRow extends CommittedRow where
  bytes : Option Bytes
deriving DecidableEq

/-- The row of a format event, if there is one. -/
def formatRows (formatEvent : Option AppendedAuditRow) : List TimelineRow :=
  formatEvent.toList.map fun row => ⟨⟨row, none⟩, none⟩

/-- The row that a ledger event reports. -/
def AppendedLedgerEvent.row (event : AppendedLedgerEvent) : AppendedAuditRow :=
  ⟨event.eventId.world, event.eventId.seq, event.hmac, event.eventId.generation, event.eventType, event.target,
    event.bodySha256, event.size, event.contentType⟩

/-- What a journal entry adds to the timeline of its world. -/
def JournalEntry.extendTimeline (rows : List TimelineRow) : JournalEntry → List TimelineRow
  | .created _ _ | .removed _ _ => []
  | .wrote _ _ _ _ result db =>
    rows ++ formatRows result.formatEvent ++ [⟨⟨result.bodyEvent, none⟩, (liveBody db).toOption⟩]
  | .logged _ event =>
    rows ++ formatRows event.formatEvent ++ [⟨⟨event.row, event.deleteSubject⟩, none⟩]
  | .stored _ _ _ => rows

/-- The timeline of a world. -/
def timelineOf (world : ValidatedWorldPath) (journal : List JournalEntry) : List TimelineRow :=
  (journalOf world journal).foldl JournalEntry.extendTimeline []

/-- The bytes that were current right after the row with an id was written. -/
def bytesAfter (rows : List TimelineRow) (seq : TimelineSeq) : Option Bytes :=
  (rows.find? fun r => r.row.id = seq).bind TimelineRow.bytes

section Moves

variable [HashSuite] {key : AuditHmacKey} {did : Nat → Operation → Prop} {world : ValidatedWorldPath}
  {rows : List TimelineRow} {log log' : WorldLog}

variable (key world) in
/-- A timeline tells the history of its world. -/
structure Tells (rows : List TimelineRow) (generation : WorldGeneration) (entries : List LogEntry) : Prop where
  reported : ReportedRows key world generation (rows.map TimelineRow.toCommittedRow) entries
  bytes : rows.map TimelineRow.bytes = entries.map LogEntry.content

/-- One more row tells one more event. -/
theorem Tells.snoc {generation : WorldGeneration} {entries : List LogEntry} {r : TimelineRow} {e : LogEntry}
    (h : Tells key world rows generation entries) (hr : r.Reports key world generation entries e)
    (hbytes : r.bytes = e.content) : Tells key world (rows ++ [r]) generation (entries ++ [e]) := by
  refine ⟨?_, ?_⟩
  · rw [List.map_append]
    exact .snoc h.reported hr
  · simp [h.bytes, hbytes]

/-- The row of a format event tells it. -/
theorem Tells.opening {generation : WorldGeneration} {entries opening : List LogEntry}
    {formatEvent : Option AppendedAuditRow} (h : Tells key world rows generation entries)
    (hopening : Opening key world generation entries formatEvent opening) :
    Tells key world (rows ++ formatRows formatEvent) generation (entries ++ opening) := by
  cases hopening with
  | existing => simpa [formatRows] using h
  | format hkind hcontent hrecords hsize =>
    refine h.snoc ⟨hrecords, hsize, ?_⟩ hcontent.symm
    rw [hkind]
    rfl

/-- A body event and the row that it reports. -/
theorem Tells.written {kind : AuditEventKind} {body : Bytes} {contentType : String} {headers : Headers}
    {result : WriteAuditResult} {db : Database} (h : Tells key world rows log.generation log.entries)
    (hkind : kind.bodyBearing = true)
    (hwritten : Written key world kind body contentType headers result log log')
    (hafter : Represents key world log' db) :
    Tells key world
      (rows ++ formatRows result.formatEvent ++ [⟨⟨result.bodyEvent, none⟩, (liveBody db).toOption⟩])
      log'.generation log'.entries := by
  obtain ⟨opening, timestamp, hopening, hentries, hrecords⟩ := hwritten.entries
  have hbody := hwritten.bodyAfter_eq
  rw [hwritten.generation, hentries]
  refine (h.opening hopening).snoc ⟨hrecords, Int.natCast_nonneg _, ?_⟩ ?_
  · cases kind <;> first | rfl | cases hkind
  · rw [hafter.liveBody_eq, hbody]
    rfl

/-- The row of a ledger event tells it. -/
theorem Tells.logged {job : AuditAppendJob} {event : AppendedLedgerEvent}
    (h : Tells key deleteLedgerWorld rows log.generation log.entries) (hjob : DeleteJob job.target job)
    (hlogs : Logs key job event log log') :
    Tells key deleteLedgerWorld
      (rows ++ formatRows event.formatEvent ++ [⟨⟨event.row, event.deleteSubject⟩, none⟩])
      log'.generation log'.entries := by
  obtain ⟨opening, timestamp, row, hopening, rfl, hevent, hrecords⟩ := hlogs.entries
  have hrow : event.row = row := by
    rw [hevent]
    rfl
  refine (h.opening hopening).snoc ⟨hrow ▸ hrecords, le_rfl, ?_⟩ rfl
  have hdelete : (ledgerEntry timestamp job).kind.isDelete = true := hjob.kind
  rw [hdelete, if_pos rfl, hevent]
  exact hjob.read

/-- Every entry of the journal keeps the timeline of its world. -/
theorem LogStep.tells {state state' : Option WorldLog} {entry : JournalEntry}
    (h : LogStep key did world state entry state')
    (hbefore : ∀ log ∈ state, Tells key world rows log.generation log.entries) :
    ∀ log ∈ state', Tells key world (entry.extendTimeline rows) log.generation log.entries := by
  cases h with
  | created generation =>
    rintro _ ⟨⟩
    exact ⟨.nil, rfl⟩
  | @wrote _ operation _ _ _ _ log log' _ _ _ _ _ _ hwrites hafter =>
    rintro _ ⟨⟩
    have htells := hbefore log rfl
    cases operation with
    | replace => exact htells.written rfl hwrites.1 hafter
    | append =>
      obtain ⟨_, _, hwritten, -⟩ := hwrites
      exact htells.written rfl hwritten hafter
    | delete => exact hwrites.elim
  | @logged _ _ _ log log' hworld hjob hlogs =>
    rintro _ ⟨⟩
    subst hworld
    exact (hbefore log rfl).logged hjob hlogs
  | removed => exact nofun

/-- The timeline of a world tells its history. -/
theorem tells_of_trace {labels : List JournalEntry} {state : Option WorldLog}
    (h : Trace (LogStep key did world) none labels state) :
    ∀ log ∈ state, Tells key world (labels.foldl JournalEntry.extendTimeline []) log.generation log.entries := by
  induction h with
  | refl => exact nofun
  | snoc _ hstep ih =>
    rw [List.foldl_append]
    exact hstep.tells ih

/-- The rows of a timeline are numbered from one on. -/
theorem ReportedRows.id_eq {rows : List CommittedRow} {generation : WorldGeneration} {entries : List LogEntry}
    (h : ReportedRows key world generation rows entries) :
    rows.length = entries.length ∧ ∀ i (hi : i < rows.length), rows[i].row.id.get = i + 1 := by
  induction h with
  | nil => exact ⟨rfl, fun i hi => absurd hi (Nat.not_lt_zero i)⟩
  | @snoc rows entries r e _ hr ih =>
    obtain ⟨hlength, hids⟩ := ih
    refine ⟨by simp [hlength], fun i hi => ?_⟩
    rw [List.getElem_append]
    split
    · exact hids i _
    · next hlast =>
      simp only [List.length_append, List.length_singleton] at hi
      simp only [List.getElem_singleton, hr.records.seq]
      omega

/-- The bytes after a row are those that its event left behind. -/
theorem Tells.bytesAfter_eq (h : Tells key world rows log.generation log.entries) (seq : TimelineSeq) :
    bytesAfter rows seq = log.bytesAt seq := by
  obtain ⟨-, hids⟩ := h.reported.id_eq
  have hpositive := seq.positive
  have hid : ∀ i (hi : i < rows.length), rows[i].row.id = seq ↔ i = seq.get.toNat - 1 := by
    intro i hi
    have hget := hids i (by rwa [List.length_map])
    rw [List.getElem_map] at hget
    rw [TimelineSeq.ext_iff, hget]
    omega
  have hfind : (rows.find? fun r => r.row.id = seq) = rows[seq.get.toNat - 1]? := by
    by_cases hi : seq.get.toNat - 1 < rows.length
    · rw [List.getElem?_eq_getElem hi, List.find?_eq_some_iff_getElem]
      refine ⟨decide_eq_true ((hid _ hi).mpr rfl), _, hi, rfl, fun j hj => ?_⟩
      have hne : rows[j].row.id ≠ seq := fun hsame => hj.ne ((hid j (hj.trans hi)).mp hsame)
      simp [hne]
    · rw [List.getElem?_eq_none (not_lt.mp hi), List.find?_eq_none]
      intro r hr hsame
      obtain ⟨j, hj, rfl⟩ := List.mem_iff_getElem.mp hr
      exact hi ((hid j hj).mp (of_decide_eq_true hsame) ▸ hj)
  have hbytes := congrArg (fun l => (l[seq.get.toNat - 1]?).bind id) h.bytes
  rw [bytesAfter, WorldLog.bytesAt, hfind]
  simpa only [List.getElem?_map, Option.bind_map, Function.id_comp] using hbytes

/-- Every event of a history with a body has a row that left the body behind. -/
theorem Tells.exists_row (h : Tells key world rows log.generation log.entries) {e : LogEntry} (he : e ∈ log.entries)
    {body : Bytes} (hbody : e.content = some body) : ∃ r ∈ rows, r.bytes = some body := by
  have hmem : some body ∈ rows.map TimelineRow.bytes := by
    rw [h.bytes]
    exact List.mem_map.mpr ⟨e, he, hbody⟩
  obtain ⟨r, hr, hbytes⟩ := List.mem_map.mp hmem
  exact ⟨r, hr, hbytes⟩

/-- No event of a timeline has a negative size. -/
theorem ReportedRows.size_nonneg {rows : List CommittedRow} {generation : WorldGeneration} {entries : List LogEntry}
    (h : ReportedRows key world generation rows entries) : ∀ e ∈ entries, 0 ≤ e.size := by
  induction h with
  | nil => exact nofun
  | snoc _ hr ih => exact List.forall_mem_append.mpr ⟨ih, List.forall_mem_singleton.mpr hr.size⟩

end Moves

section Bodies

variable [HashSuite] {key : AuditHmacKey} {world : ValidatedWorldPath} {log : WorldLog} {db db' : Database}

/-- A write stores no body but its own. -/
theorem Extends.casBodies_subset {kind : AuditEventKind} {body : Bytes} {retained : RetainedBodyCount}
    {result : WriteAuditResult} {extended : WorldLog} {before : Database}
    (h : Extends key world kind body retained result log extended db before db') {row : CasBodyRow}
    (hrow : row ∈ db'.casBodies) : row ∈ db.casBodies ∨ row = casRow body := by
  have hstate : before.casState = [⟨1, .integer (log.floor.getD extended.entries.length : Nat)⟩] := by
    rw [h.represents.casState, h.floor]
    rfl
  have hbefore : row ∈ before.casBodies := by
    rcases pruneToCount_spec hstate h.pruned with ⟨-, rfl⟩ | ⟨e, -, -, rfl, -⟩
    · exact hrow
    · exact List.mem_of_mem_filter hrow
  rw [h.bodies, retainedRows] at hbefore
  split at hbefore
  · rcases List.mem_append.mp hbefore with hold | hnew
    · exact .inl hold
    · exact .inr (List.mem_singleton.mp hnew)
  · exact .inl hbefore

omit [HashSuite] in
/-- A signed row stores no body. -/
theorem Database.SameOutsideChain.casBodies (h : db.SameOutsideChain db') : db'.casBodies = db.casBodies := by
  rw [show db' = _ from h]

/-- A row of the ledger stores no body. -/
theorem ledgerTransaction_casBodies {config : Config} {clock : TxClock} {job : AuditAppendJob} {isEmpty : Bool}
    {event : AppendedLedgerEvent} (hrep : Represents config.hmacKey deleteLedgerWorld log db)
    (h : ledgerTransaction config clock job isEmpty db = .ok (event, db')) : db'.casBodies = db.casBodies := by
  unfold ledgerTransaction at h
  split at h
  · simp only [bind_eq_ok, pure_eq_ok, Prod.exists, Prod.mk.injEq] at h
    obtain ⟨format, row, _, hgenesis, rfl, rfl⟩ := h
    unfold appendGenesisRow at hgenesis
    simp only [bind_eq_ok, liftSql_eq_ok, pure_eq_ok, Prod.exists, Prod.mk.injEq] at hgenesis
    obtain ⟨audit, hgate, formatRow, opened, hformat, _, _, hinner, ⟨rfl, rfl⟩, rfl⟩ := hgenesis
    obtain rfl := verifyAppendableFull_eq_ok hgate hrep.generation_eq
    obtain ⟨hbodies, opening, -, hopened⟩ := appendFormatTxRow_spec hrep hformat
    obtain ⟨-, -, hsame, -⟩ := appendTxInner_spec hopened.chain hinner none
    exact hsame.casBodies.trans hbodies
  · simp only [bind_eq_ok, pure_eq_ok, Prod.exists, Prod.mk.injEq] at h
    obtain ⟨row, _, hexisting, rfl, rfl⟩ := h
    unfold appendExistingRow at hexisting
    simp only [bind_eq_ok, liftSql_eq_ok] at hexisting
    obtain ⟨audit, hgate, hinner⟩ := hexisting
    obtain rfl := verifyAppendableFull_eq_ok hgate hrep.generation_eq
    obtain ⟨-, -, hsame, -⟩ := appendTxInner_spec hrep.chain hinner none
    exact hsame.casBodies

omit [HashSuite] in
/-- A database in creation stores no body. -/
theorem createdUpTo_casBodies {generation : WorldGeneration} {k : Nat} (hk : k ≤ 11) :
    (createdUpTo generation k).casBodies = [] := by
  interval_cases k <;> rfl

/-- Every body that a directory stores was left behind by a row of the timeline. -/
def StoresWritten (dir : Option WorldDir) (rows : List TimelineRow) : Prop :=
  ∀ db, dir = some (.database db) → ∀ row ∈ db.casBodies, ∃ r ∈ rows, ∃ body ∈ r.bytes, row = casRow body

variable {n : Nat} {calls : Calls n} {pool : Pool (Fin n) Core CallError Reply}

/-- A write adds the row that left its body behind. -/
theorem Operation.Transaction.storesWritten {operation : Operation} {opened : OpenedWorldKind}
    {result : WriteAuditResult} {rows : List TimelineRow}
    (hrun : operation.Transaction key world opened db result db') (hrep : Represents key world log db)
    (hlive : log.Live world) (h : StoresWritten (some (.database db)) rows) :
    StoresWritten (some (.database db'))
      (rows ++ formatRows result.formatEvent ++ [⟨⟨result.bodyEvent, none⟩, (liveBody db').toOption⟩]) := by
  have hkept : ∀ body, (∀ row ∈ db'.casBodies, row ∈ db.casBodies ∨ row = casRow body) → liveBody db' = .ok body →
      StoresWritten (some (.database db'))
        (rows ++ formatRows result.formatEvent ++ [⟨⟨result.bodyEvent, none⟩, (liveBody db').toOption⟩]) := by
    rintro body hsubset hbody _ ⟨⟩ row hrow
    rcases hsubset row hrow with hold | rfl
    · obtain ⟨r, hr, hstored⟩ := h db rfl row hold
      exact ⟨r, by simp [hr], hstored⟩
    · exact ⟨_, List.mem_append_right _ (List.mem_singleton.mpr rfl), body, by rw [hbody]; rfl, rfl⟩
  obtain ⟨log', hrep', hwrites, -⟩ := hrun.writes hrep hlive
  cases operation with
  | replace env request =>
    obtain ⟨verified, retained, hwrite⟩ := hrun
    obtain ⟨extended, before, hextends, -⟩ := writeWithAudit_extends hrep hwrite
    refine hkept request.body (fun row => hextends.casBodies_subset) ?_
    rw [hrep'.liveBody_eq, hwrites.1.bodyAfter_eq]
  | append env request =>
    obtain ⟨verified, contentType, headers, retained, happend⟩ := hrun
    obtain ⟨extended, before, hextends, -⟩ := appendWithAudit_extends hrep happend
    obtain ⟨_, _, hwritten, -⟩ := hwrites
    refine hkept (bodyAfter log.entries ++ request.body) (fun row => hextends.casBodies_subset) ?_
    rw [hrep'.liveBody_eq, hwritten.bodyAfter_eq]
  | delete => exact hrun.elim

/-- No step stores a body that no row left behind. -/
theorem storesWritten_kept : KeptByEffects calls world
    fun dir journal => StoresWritten dir (journal.foldl JournalEntry.extendTimeline []) := by
  intro i connected checked state dir status entries dir' status' journal heffect hknows h
  rw [List.foldl_append]
  cases heffect with
  | quiet => exact h
  | missing => exact h
  | look => exact h
  | cache => exact h
  | reuseLedger => exact h
  | makeDir => exact nofun
  | create =>
    rintro _ ⟨⟩
    exact nofun
  | @statement generation k _ _ _ hstatement hrun =>
    obtain ⟨-, hdir, -⟩ := hknows
    cases hdir
    obtain rfl := createdUpTo_succ hstatement hrun
    have hk : k < 11 := (List.getElem?_eq_some_iff.mp hstatement).1
    rintro _ ⟨⟩ row hrow
    rw [createdUpTo_casBodies hk] at hrow
    cases hrow
  | indexes hrun =>
    obtain ⟨log, _, -, hdir, hrep, -⟩ := hknows
    cases hdir
    obtain rfl := hrep.ensureWriteIndexes_eq hrun
    have hbefore := h _ rfl
    rintro _ ⟨⟩
    exact hbefore
  | write hpath hmay hrun =>
    obtain ⟨log, _, -, hdir, hrep, hlive⟩ := hknows
    cases hdir
    exact hrun.storesWritten hrep hlive h
  | log hpath hkey hjob hrun =>
    subst hpath
    rw [← hkey] at hknows
    obtain ⟨log, _, -, hdir, hrep, -⟩ := hknows
    cases hdir
    rintro _ ⟨⟩ row hrow
    rw [ledgerTransaction_casBodies hrep hrun] at hrow
    obtain ⟨r, hr, hstored⟩ := h _ rfl row hrow
    exact ⟨r, by simp [JournalEntry.extendTimeline, hr], hstored⟩
  | remove => exact nofun

/-- No two bodies of a timeline share a digest. -/
def NoCollision (rows : List TimelineRow) : Prop :=
  ∀ r ∈ rows, ∀ r' ∈ rows, ∀ a ∈ r.bytes, ∀ b ∈ r'.bytes, BodySha256.forBody a = BodySha256.forBody b → a = b

/-- Without collisions the stored bodies are those of the events with their digests. -/
theorem StoresWritten.bodiesAgree {rows : List TimelineRow} (h : StoresWritten (some (.database db)) rows)
    (htells : Tells key world rows log.generation log.entries) (hcollision : NoCollision rows) :
    BodiesAgree log db := by
  intro row hrow e he body hbody hdigest
  obtain ⟨r, hr, stored, hstored, rfl⟩ := h db rfl row hrow
  obtain ⟨r', hr', hbytes⟩ := htells.exists_row he hbody
  rw [hcollision r hr r' hr' stored hstored body hbytes (BodySha256.ext (SqlValue.text.inj hdigest))]

end Bodies

section Runs

variable [HashSuite] {n : Nat} {calls : Calls n} {pool : Pool (Fin n) Core CallError Reply}
  {world : ValidatedWorldPath} {db : Database}

/-- The journal only grows. -/
theorem Calls.Reaches.journal_mono {later : Pool (Fin n) Core CallError Reply} (hreach : calls.Reaches .fresh pool)
    (hlater : pool.Reaches Environment later) : pool.shared.journal <+: later.shared.journal := by
  obtain ⟨now, hnow, -⟩ := hreach.consistent.now
  obtain ⟨locals, hconsistent, -⟩ := hnow.runs.reaches hlater
  have hsince := hconsistent.journal.since
  rw [hnow.journal] at hsince
  exact hsince

/-- A durable world with events stores the history that its timeline tells. -/
theorem Calls.Reaches.tells (hreach : calls.Reaches .fresh pool) (hdurable : isMemoryWorld world = false)
    (hdb : pool.shared.database world = some db) (hevents : db.events ≠ []) :
    ∃ log, Represents calls.key world log db ∧ log.entries ≠ [] ∧
      Tells calls.key world (timelineOf world pool.shared.journal) log.generation log.entries := by
  obtain ⟨state, htrace, hshows⟩ := hreach.history hdurable
  rw [(pool.shared.database_eq_some _).mp hdb] at hshows
  obtain ⟨log, rfl, hrep, -⟩ := hshows.live_of_events hevents
  exact ⟨log, hrep, mt hrep.events_eq_nil.mpr hevents, tells_of_trace htrace log rfl⟩

/-- In every state of a run, every coordinate of a durable world with events is resolved exactly: by its generation,
its row, the kind and the digest of the row, and the retention of the digest, with the bytes that were current right
after the row was written. -/
theorem dereference_exact (hreach : calls.Reaches .fresh pool) (hdurable : isMemoryWorld world = false)
    (hdb : pool.shared.database world = some db) (hevents : db.events ≠ [])
    (hcollision : NoCollision (timelineOf world pool.shared.journal)) (generation : WorldGeneration)
    (seq : TimelineSeq) (digest : BodySha256) :
    ∃ reply, dereferenceTimelineCoordinate calls.key ⟨world, generation, seq, digest⟩ db = .ok reply ∧
      reply.answer = db.answerTo (bytesAfter (timelineOf world pool.shared.journal) seq)
        ⟨world, generation, seq, digest⟩ := by
  obtain ⟨log, hrep, hne, htells⟩ := hreach.tells hdurable hdb hevents
  have hstores : StoresWritten (pool.shared.view.dir world) (timelineOf world pool.shared.journal) :=
    hreach.kept hdurable storesWritten_kept nofun
  rw [(pool.shared.database_eq_some _).mp hdb] at hstores
  rw [htells.bytesAfter_eq]
  exact hrep.dereference_answer (hstores.bodiesAgree htells hcollision) hne htells.reported.size_nonneg generation seq
    digest

end Runs

/-- The coordinate of the row of a replace resolves to its body. -/
theorem dereference_exact_created :
    letI := Sample.checksumSuite
    ∃ pool db reply, Sample.creating.Reaches .fresh pool ∧ pool.shared.database Sample.world = some db ∧
      dereferenceTimelineCoordinate Sample.key ⟨Sample.world, Sample.generation, ⟨2, by decide⟩, .forBody [97]⟩ db =
        .ok reply ∧ reply.answer = .body (some [97]) := by
  let _ := Sample.checksumSuite
  obtain ⟨pool, hreach, hpool⟩ := Pool.reaches_of_schedule Environment (List.replicate 40 0)
    (show ((List.replicate 40 0).foldlM Pool.next (Sample.creating.pool .fresh)).any
      (fun pool => (pool.shared.database Sample.world).any fun db => db.events ≠ [] ∧
        (timelineOf Sample.world pool.shared.journal).filterMap TimelineRow.bytes = [[97]] ∧
        db.answerTo (bytesAfter (timelineOf Sample.world pool.shared.journal) ⟨2, by decide⟩)
          ⟨Sample.world, Sample.generation, ⟨2, by decide⟩, .forBody [97]⟩ = .body (some [97])) = true by decide +kernel)
  obtain ⟨db, hdb, hrun⟩ := (Option.any_eq_true _ _).mp hpool
  obtain ⟨hevents, hbodies, hanswer⟩ := of_decide_eq_true hrun
  have hdurable : isMemoryWorld Sample.world = false := by decide +kernel
  have hcollision : NoCollision (timelineOf Sample.world pool.shared.journal) := by
    have honly : ∀ r ∈ timelineOf Sample.world pool.shared.journal, ∀ body ∈ r.bytes, body = [97] :=
      fun r hr body hbody => List.mem_singleton.mp (hbodies ▸ List.mem_filterMap.mpr ⟨r, hr, hbody⟩)
    intro r hr r' hr' a ha b hb _
    rw [honly r hr a ha, honly r' hr' b hb]
  obtain ⟨reply, hreply, hexact⟩ := dereference_exact hreach hdurable hdb hevents hcollision Sample.generation
    ⟨2, by decide⟩ (.forBody [97])
  exact ⟨pool, db, reply, hreach, hdb, hreply, hexact.trans hanswer⟩

section Runs

variable [HashSuite] {n : Nat} {calls : Calls n} {pool : Pool (Fin n) Core CallError Reply}
  {world : ValidatedWorldPath} {db : Database}

variable (calls world db) in
/-- Committed rows are those of the events table in the order of their ids, and every replay of the world returns the
ones behind its marker. -/
structure ReplaysExactly (rows : List CommittedRow) : Prop where
  ids : db.events.map EventRecord.id = rows.map fun r => r.row.id.get
  ascending : rows.Pairwise fun a b => a.row.id.get < b.row.id.get
  replay : ∃ actual, generation db = .ok actual ∧ ∀ requested after limit,
    verifiedReplayEventsAfter calls.key world requested after limit db =
      .ok (replayOf rows actual requested after limit)

/-- In every state of a run, the replays of a durable world return its committed rows exactly when the world has an
event. -/
theorem replay_exact_iff (hreach : calls.Reaches .fresh pool) (hdurable : isMemoryWorld world = false)
    (hdb : pool.shared.database world = some db) :
    ReplaysExactly calls world db ((timelineOf world pool.shared.journal).map TimelineRow.toCommittedRow) ↔
      db.events ≠ [] := by
  constructor
  · rintro ⟨-, -, actual, -, hexact⟩ hevents
    obtain ⟨error, herror⟩ := replay_nil hevents actual ⟨1, one_pos⟩ 0
    rw [hexact] at herror
    cases herror
  · intro hevents
    obtain ⟨log, hrep, hne, htells⟩ := hreach.tells hdurable hdb hevents
    have hids := htells.reported.ids hrep
    refine ⟨hids, ?_, log.generation, hrep.generation_eq, hrep.replay_eq hne htells.reported⟩
    have hascending := hrep.chain.ascending
    rw [← List.pairwise_map (f := EventRecord.id) (R := (· < ·)), hids, List.pairwise_map] at hascending
    exact hascending

end Runs

/-- The row of a replace is replayed behind the format row. -/
theorem replay_exact_iff_created :
    letI := Sample.checksumSuite
    ∃ pool db, Sample.creating.Reaches .fresh pool ∧ pool.shared.database Sample.world = some db ∧
      ReplaysExactly Sample.creating Sample.world db
        ((timelineOf Sample.world pool.shared.journal).map TimelineRow.toCommittedRow) := by
  let _ := Sample.checksumSuite
  obtain ⟨pool, hreach, hpool⟩ := Pool.reaches_of_schedule Environment (List.replicate 40 0)
    (show ((List.replicate 40 0).foldlM Pool.next (Sample.creating.pool .fresh)).any
      (fun pool => (pool.shared.database Sample.world).any fun db => db.events ≠ []) = true by decide +kernel)
  obtain ⟨db, hdb, hrun⟩ := (Option.any_eq_true _ _).mp hpool
  have hdurable : isMemoryWorld Sample.world = false := by decide +kernel
  exact ⟨pool, db, hreach, hdb, (replay_exact_iff hreach hdurable hdb).mpr (of_decide_eq_true hrun)⟩

/-- A replace that failed leaves a world without events, which is never replayed. -/
theorem replay_of_failed_creation :
    letI := Sample.checksumSuite
    ∃ pool db, Sample.reopening.Reaches .fresh pool ∧ pool.shared.database Sample.world = some db ∧
      ∀ requested after limit, ∃ error,
        verifiedReplayEventsAfter Sample.key Sample.world requested after limit db = .error error := by
  let _ := Sample.checksumSuite
  obtain ⟨pool, hreach, hpool⟩ := Pool.reaches_of_schedule Environment (List.replicate 28 0)
    (show ((List.replicate 28 0).foldlM Pool.next (Sample.reopening.pool .fresh)).any
      (fun pool => (pool.shared.database Sample.world).any fun db => db.events = []) = true by decide +kernel)
  obtain ⟨db, hdb, hrun⟩ := (Option.any_eq_true _ _).mp hpool
  exact ⟨pool, db, hreach, hdb, replay_nil (of_decide_eq_true hrun)⟩

end AuditeDB
