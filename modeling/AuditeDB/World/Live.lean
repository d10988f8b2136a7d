import Mathlib
import AuditeDB.World.Committed
import AuditeDB.World.TailGate

/-!
# The representation that a history leaves

The content type and the headers of a world are those of its newest replace, which makes the whole representation a
function of the history. A database whose creation stopped half way has no history yet.
-/

namespace AuditeDB

open Utf8 Results

/-- The database after the first statements of its creation. -/
def createdUpTo (generation : WorldGeneration) (statements : Nat) : Database :=
  match runStatements ((createStatements generation).take statements) .empty with
  | .ok db => db
  | .error _ => .empty

section Creation

variable {generation : WorldGeneration} {k : Nat}

/-- One more statement of the creation. -/
theorem createdUpTo_succ {statement : Database → SqlResult Database} {db : Database}
    (hstatement : (createStatements generation)[k]? = some statement)
    (hrun : statement (createdUpTo generation k) = .ok db) : db = createdUpTo generation (k + 1) := by
  have hk : k < 11 := (List.getElem?_eq_some_iff.mp hstatement).1
  interval_cases k <;> cases hstatement <;> cases hrun <;> rfl

/-- A creation that stopped before the last table has no audit tables. -/
theorem verifyOpenShape_createdUpTo (hk : k < 10) : verifyOpenShape (createdUpTo generation k) ≠ .ok () := by
  intro hshape
  have htables := forM_eq_ok.mp (bind_eq_ok.mp hshape).choose_spec.1 "event_headers" (by simp)
  rw [requireTable] at htables
  interval_cases k <;> cases htables

/-- A database in creation has no events. -/
theorem createdUpTo_events (hk : k ≤ 10) : (createdUpTo generation k).events = [] := by
  interval_cases k <;> rfl

/-- With all its tables a database stores the empty history. -/
theorem represents_createdUpTo [HashSuite] (key : AuditHmacKey) (world : ValidatedWorldPath) (hk : k = 10 ∨ k = 11) :
    Represents key world (.created generation) (createdUpTo generation k) := by
  rcases hk with rfl | rfl
  · exact (represents_created key world generation).withSchema (.inl rfl)
  · exact represents_created key world generation

end Creation

/-- The content type and the signed headers of the newest replace. -/
def liveMetadata (entries : List LogEntry) : String × Headers :=
  ((entries.filter fun e => e.kind = .put).getLast?.map fun e => (e.contentType, e.headers)).getD
    ("application/octet-stream", [])

/-- The representation metadata of a history is that of its newest replace, with unique header names, and a history
that is not the one of the ledger ends in a body event. -/
structure WorldLog.Live (log : WorldLog) (world : ValidatedWorldPath) : Prop where
  contentType : log.contentType = (liveMetadata log.entries).1
  headers : canonicalHeaders log.headers = (liveMetadata log.entries).2
  names : (log.headers.map Prod.fst).Nodup
  last : world ≠ deleteLedgerWorld → ∀ e ∈ log.entries.getLast?, e.kind.bodyBearing = true

/-- The order in which a read returns headers: by the bytes of their names. -/
def byName (a b : String × String) : Prop := SqlValue.octets (utf8Bytes a.1) ≤ SqlValue.octets (utf8Bytes b.1)

instance : DecidableRel byName := fun a b =>
  inferInstanceAs (Decidable (SqlValue.octets (utf8Bytes a.1) ≤ SqlValue.octets (utf8Bytes b.1)))

/-- The representation that a history leaves. -/
def WorldLog.stage (log : WorldLog) : Stage :=
  ⟨bodyAfter log.entries, log.contentType, log.headers.insertionSort byName⟩

/-- A created world has the default representation. -/
theorem WorldLog.live_created (generation : WorldGeneration) (world : ValidatedWorldPath) :
    (WorldLog.created generation).Live world where
  contentType := rfl
  headers := rfl
  names := List.nodup_nil
  last _ := nofun

/-- Headers that were inserted have unique names. -/
theorem foldlM_insertMetaHeader_nodup {headers : Headers} {db db' : Database}
    (h : headers.foldlM Database.insertMetaHeader db = .ok db') :
    (headers.map Prod.fst).Nodup ∧ ∀ name ∈ headers.map Prod.fst, ∀ row ∈ db.metaHeaders, row.name ≠ .text name := by
  induction headers generalizing db with
  | nil => exact ⟨List.nodup_nil, nofun⟩
  | cons first rest ih =>
    simp only [List.foldlM_cons, Database.insertMetaHeader, bind_eq_ok, rejectIf_eq_ok, pure_eq_ok] at h
    obtain ⟨_, ⟨-, hfresh, rfl⟩, h⟩ := h
    obtain ⟨hnodup, hrest⟩ := ih h
    rw [List.any_eq_true] at hfresh
    refine ⟨List.nodup_cons.mpr ⟨fun hmem => ?_, hnodup⟩, fun name hname row hrow => ?_⟩
    · exact hrest _ hmem ⟨.text first.1, .text first.2⟩ (by simp) rfl
    · rcases List.mem_cons.mp hname with rfl | hname
      · exact fun hsame => hfresh ⟨row, hrow, decide_eq_true hsame⟩
      · exact hrest name hname row (List.mem_append_left _ hrow)

section

variable [HashSuite] {key : AuditHmacKey} {world : ValidatedWorldPath} {log log' : WorldLog} {db db' : Database}

/-- What a committed body event with given metadata did to the history of a world. -/
structure Written (key : AuditHmacKey) (world : ValidatedWorldPath) (kind : AuditEventKind) (body : Bytes)
    (contentType : String) (headers : Headers) (result : WriteAuditResult) (log log' : WorldLog) : Prop where
  generation : log'.generation = log.generation
  entries : ∃ opening timestamp, Opening key world log.generation log.entries result.formatEvent opening ∧
    log'.entries = log.entries ++ opening ++ [bodyEntry timestamp kind world body contentType headers] ∧
    result.bodyEvent.Records key world log.generation (log.entries ++ opening)
      (bodyEntry timestamp kind world body contentType headers)
  hmac : result.hmac = chainHead key world log'.generation log'.entries

section Written

variable {kind : AuditEventKind} {body : Bytes} {contentType : String} {headers : Headers} {result : WriteAuditResult}

/-- A body event with its metadata is a committed write. -/
theorem Written.commits (h : Written key world kind body contentType headers result log log') :
    Commits key world kind body result log log' := by
  obtain ⟨opening, timestamp, hopening, hentries, hrecords⟩ := h.entries
  exact ⟨h.generation, ⟨opening, _, hopening, hentries, rfl, rfl, hrecords⟩, h.hmac⟩

/-- The transaction of a body after its chain was opened. -/
theorem commitBody_written {opening : List LogEntry} {opened : Database} {clock : TxClock}
    {formatEvent : Option AppendedAuditRow}
    (hopening : Opening key world log.generation log.entries formatEvent opening)
    (hopened : Represents key world { log with entries := log.entries ++ opening } opened)
    (hkind : kind.bodyBearing = true) {update : Database → SqlResult Database} {liveType : String}
    {liveHeaders : Headers}
    (hupdate : ∀ db₁ db₂, db₁.stageMeta = opened.stageMeta → db₁.metaHeaders = opened.metaHeaders →
      update db₁ = .ok db₂ → db₂ = { db₁ with
        stageMeta := [⟨1, .text log.generation.text, .blob body, .text liveType⟩]
        metaHeaders := liveHeaders.map fun h => ⟨.text h.1, .text h.2⟩ })
    {retained : RetainedBodyCount}
    (h : commitBody world clock ⟨key, world, log.generation⟩ formatEvent kind body update contentType headers
      retained opened = .ok (result, db')) :
    ∃ log', Represents key world log' db' ∧ Written key world kind body contentType headers result log log' ∧
      log'.contentType = liveType ∧ log'.headers = liveHeaders := by
  obtain ⟨timestamp, before, hbefore, -, hprune, -, hrecords, hhmac, rfl⟩ :=
    commitBody_steps hopened hkind hupdate h
  obtain ⟨floor, hrep⟩ := hbefore.prune rfl hprune
  refine ⟨_, hrep, ⟨rfl, ⟨opening, timestamp, hopening, rfl, hrecords⟩, ?_⟩, rfl, rfl⟩
  rw [hhmac, hrecords.fields]

/-- A committed replace and the event it appended. -/
theorem writeWithAudit_written (hrep : Represents key world log db) {clock : TxClock} {verified : Bool}
    {opened : OpenedWorldKind} {retained : RetainedBodyCount}
    (h : writeWithAudit key world clock verified opened body contentType headers retained db =
      .ok (result, db')) :
    ∃ log', Represents key world log' db' ∧ Written key world .put body contentType headers result log log' ∧
      log'.contentType = contentType ∧ log'.headers = headers ∧ (headers.map Prod.fst).Nodup := by
  unfold writeWithAudit at h
  simp only [bind_eq_ok, Prod.exists] at h
  obtain ⟨audit, formatEvent, db₁, hopen, h⟩ := h
  obtain ⟨rfl, hbodies, opening, hopening, hopened⟩ := openChain_spec hrep hopen
  have hupdate : ∀ db₂ db₃ : Database, db₂.stageMeta = db₁.stageMeta → db₂.metaHeaders = db₁.metaHeaders →
      replaceMetaHeaders headers (db₂.updateStage body contentType) = .ok db₃ → db₃ = { db₂ with
        stageMeta := [⟨1, .text log.generation.text, .blob body, .text contentType⟩]
        metaHeaders := headers.map fun h => ⟨.text h.1, .text h.2⟩ } := by
    intro db₂ db₃ hstage _ hreplace
    rw [replaceMetaHeaders_spec hreplace]
    simp [Database.updateStage, hstage, hopened.stage]
  obtain ⟨log', hrep', hwritten, hcontentType, hheaders⟩ := commitBody_written hopening hopened rfl hupdate h
  refine ⟨log', hrep', hwritten, hcontentType, hheaders, ?_⟩
  unfold commitBody at h
  simp only [bind_eq_ok, liftWrite, mapError_eq_ok, Prod.exists] at h
  obtain ⟨_, _, -, _, hinserted, -⟩ := h
  exact (foldlM_insertMetaHeader_nodup hinserted).1

/-- A committed append and the event it appended. -/
theorem appendWithAudit_written (hrep : Represents key world log db) {clock : TxClock} {verified : Bool}
    {retained : RetainedBodyCount}
    (h : appendWithAudit key world clock verified body contentType headers retained db = .ok (result, db')) :
    ∃ log', Represents key world log' db' ∧
      Written key world .append (bodyAfter log.entries ++ body) contentType headers result log log' ∧
      log'.contentType = log.contentType ∧ log'.headers = log.headers := by
  unfold appendWithAudit at h
  simp only [bind_eq_ok, Prod.exists, liftWrite, mapError_eq_ok] at h
  obtain ⟨audit, formatEvent, db₁, hopen, current, hcurrent, h⟩ := h
  obtain ⟨rfl, hbodies, opening, hopening, hopened⟩ := openChain_spec hrep hopen
  have hbody : current = bodyAfter (log.entries ++ opening) :=
    Except.ok.inj (hcurrent.symm.trans hopened.liveBody_eq)
  rw [hopening.bodyAfter_eq] at hbody
  subst hbody
  have hupdate : ∀ db₂ db₃ : Database, db₂.stageMeta = db₁.stageMeta → db₂.metaHeaders = db₁.metaHeaders →
      (pure (db₂.updateStageBody (bodyAfter log.entries ++ body)) : SqlResult Database) = .ok db₃ →
      db₃ = { db₂ with
        stageMeta := [⟨1, .text log.generation.text, .blob (bodyAfter log.entries ++ body),
          .text log.contentType⟩]
        metaHeaders := log.headers.map fun h => ⟨.text h.1, .text h.2⟩ } := by
    rintro db₂ _ hstage hheaders ⟨⟩
    rw [hopened.metaHeaders] at hheaders
    rw [hopened.stage] at hstage
    simp [Database.updateStageBody, hstage, ← hheaders]
  exact commitBody_written hopening hopened rfl hupdate h

end Written

/-- A format event is not a replace. -/
theorem Opening.filter_put {generation : WorldGeneration} {entries opening : List LogEntry}
    {formatEvent : Option AppendedAuditRow} (h : Opening key world generation entries formatEvent opening) :
    opening.filter (fun e => e.kind = .put) = [] := by
  refine List.filter_eq_nil_iff.mpr fun e he hput => ?_
  have hbearing := h.bodyBearing_eq e he
  rw [of_decide_eq_true hput] at hbearing
  cases hbearing

section Live

variable {body : Bytes} {contentType : String} {headers : Headers} {result : WriteAuditResult}

/-- A history ends in the body event that was written last. -/
theorem Written.last {kind : AuditEventKind} (h : Written key world kind body contentType headers result log log')
    (hkind : kind.bodyBearing = true) : ∀ e ∈ log'.entries.getLast?, e.kind.bodyBearing = true := by
  obtain ⟨opening, timestamp, -, hentries, -⟩ := h.entries
  rw [hentries, List.getLast?_concat]
  rintro e ⟨⟩
  exact hkind

/-- A replace leaves its own representation. -/
theorem Written.live_put (h : Written key world .put body contentType headers result log log')
    (hcontentType : log'.contentType = contentType) (hheaders : log'.headers = headers)
    (hnames : (headers.map Prod.fst).Nodup) : log'.Live world := by
  obtain ⟨opening, timestamp, -, hentries, -⟩ := h.entries
  have hlive : liveMetadata log'.entries = (contentType, canonicalHeaders headers) := by
    simp [liveMetadata, hentries, List.filter_append, bodyEntry, newEntry]
  refine ⟨?_, ?_, by rwa [hheaders], fun _ => h.last rfl⟩
  · rw [hlive, hcontentType]
  · rw [hlive, hheaders]

/-- An append leaves the content type and the headers alone. -/
theorem Written.live_append (h : Written key world .append body contentType headers result log log')
    (hlive : log.Live world) (hcontentType : log'.contentType = log.contentType)
    (hheaders : log'.headers = log.headers) : log'.Live world := by
  obtain ⟨opening, timestamp, hopening, hentries, -⟩ := h.entries
  have hsame : liveMetadata log'.entries = liveMetadata log.entries := by
    simp [liveMetadata, hentries, List.filter_append, hopening.filter_put, bodyEntry, newEntry]
  refine ⟨?_, ?_, by rw [hheaders]; exact hlive.names, fun _ => h.last rfl⟩
  · rw [hsame, hcontentType]
    exact hlive.contentType
  · rw [hsame, hheaders]
    exact hlive.headers

end Live

/-- The headers of a stored history are read in the order of their names. -/
theorem Represents.readMetaHeaders_eq (h : Represents key world log db) :
    readMetaHeaders db = .ok (log.headers.insertionSort byName) := by
  have hsorted : db.metaHeadersByName =
      (log.headers.insertionSort byName).map fun h => ⟨.text h.1, .text h.2⟩ := by
    rw [Database.metaHeadersByName, h.metaHeaders]
    symm
    refine List.map_insertionSort byName _ _ _ fun a _ b _ => ?_
    exact SqlValue.sortKey_text_le.symm
  rw [readMetaHeaders, hsorted]
  induction log.headers.insertionSort byName with
  | nil => rfl
  | cons first rest ih =>
    rw [List.map_cons, List.mapM_cons, ih]
    rfl

/-- A read of a stored history returns the representation it leaves with its newest HMAC. -/
theorem Represents.readWithHmac_stage (h : Represents key world log db) (hne : log.entries ≠ []) :
    readWithHmac key world db = .ok (log.stage, some (chainHead key world log.generation log.entries)) :=
  h.readWithHmac_of_headers hne h.readMetaHeaders_eq

/-- A stored history that can be read has an event. -/
theorem Represents.ne_nil_of_read (h : Represents key world log db) {stage : Stage} {hmac : Option String}
    (hread : readWithHmac key world db = .ok (stage, hmac)) : log.entries ≠ [] := by
  intro hnil
  have hevents : db.events = [] := by
    rw [h.chain.events, hnil]
    rfl
  simp only [readWithHmac, requireCurrentTailIntact, bind_eq_ok, liftSql_eq_ok, requireSome_eq_ok] at hread
  obtain ⟨_, ⟨_, -, tail, htail, event, rfl, -⟩, -⟩ := hread
  have hnone : latestEventWithHeaders db = .ok none := by
    simp [latestEventWithHeaders, Database.auditTailSelect, Database.eventsDesc, hevents, collectTail, pure,
      Except.pure]
  rw [hnone] at htail
  cases htail

end

end AuditeDB
