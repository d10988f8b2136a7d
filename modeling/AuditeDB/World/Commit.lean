import Mathlib
import AuditeDB.World.CasSpec

/-!
# Committed transactions extend the stored history

A committed write transaction appends the body event, after a format event when the chain starts with it, and
keeps the database a stored history.
-/

namespace AuditeDB

open Utf8 Results

variable [HashSuite] {key : AuditHmacKey} {world : ValidatedWorldPath} {log : WorldLog} {db db' : Database}

/-- An appended row that records an event after a history. -/
structure AppendedAuditRow.Records (row : AppendedAuditRow) (key : AuditHmacKey) (world : ValidatedWorldPath)
    (generation : WorldGeneration) (entries : List LogEntry) (e : LogEntry) : Prop where
  seq : row.id.get = entries.length + 1
  fields : row = ⟨world, row.id, chainHead key world generation (entries ++ [e]), generation, e.kind, e.target,
    e.bodySha256, e.size, e.contentType⟩

/-- The full gate reads the generation of the database. -/
theorem verifyAppendableFull_eq_ok {allowEmpty : Bool} {audit : VerifiedAuditTx}
    (h : verifyAppendableFull key world allowEmpty db = .ok audit) {generation : WorldGeneration}
    (hgeneration : AuditeDB.generation db = .ok generation) : audit = ⟨key, world, generation⟩ := by
  unfold verifyAppendableFull at h
  simp only [bind_eq_ok, hgeneration, liftSql_eq_ok, pure_eq_ok, Except.ok.injEq, exists_eq_left'] at h
  obtain ⟨-, -, -, -, -, -, -, -, rfl⟩ := h
  rfl

/-- The tail gate reads the generation of the database. -/
theorem verifyAppendableTailChecked_eq_ok {audit : VerifiedAuditTx}
    (h : verifyAppendableTailChecked key world db = .ok audit) {generation : WorldGeneration}
    (hgeneration : AuditeDB.generation db = .ok generation) : audit = ⟨key, world, generation⟩ := by
  unfold verifyAppendableTailChecked at h
  simp only [bind_eq_ok, hgeneration, liftSql_eq_ok, pure_eq_ok, Except.ok.injEq, exists_eq_left'] at h
  obtain ⟨-, -, -, -, rfl⟩ := h
  rfl

/-- An event without a body extends a stored history and leaves everything else alone. -/
theorem Represents.push (h : Represents key world log db) {e : LogEntry} (he : e.Valid world)
    (hcontent : e.content = none) (hchain : db'.HasChain key world log.generation (log.entries ++ [e]))
    (hsame : db.SameOutsideChain db') :
    Represents key world { log with entries := log.entries ++ [e] } db' := by
  have hbearing : e.kind.bodyBearing = false := by
    rw [← Bool.not_eq_true, he.bearing, hcontent]
    simp
  have hbody : bodyAfter (log.entries ++ [e]) = bodyAfter log.entries := by simp [bodyAfter, hcontent]
  have hretained : retainedEntries log.floor (log.entries ++ [e]) = retainedEntries log.floor log.entries := by
    cases hfloor : log.floor with
    | none => rfl
    | some f =>
      have hfits := h.floor
      rw [hfloor] at hfits
      obtain ⟨-, first, hat, -⟩ := hfits
      have hle : f - 1 ≤ log.entries.length := (List.getElem?_eq_some_iff.mp hat).1.le
      simp [retainedEntries, List.drop_append_of_le_length hle, List.filter_append, hbearing]
  have hfits : FloorFits log.floor (log.entries ++ [e]) := by
    have hfits := h.floor
    cases hfloor : log.floor with
    | none =>
      rw [hfloor] at hfits
      intro e' he'
      rcases List.mem_append.mp he' with he' | he'
      · exact hfits e' he'
      · rw [List.mem_singleton.mp he', hbearing]
    | some f =>
      rw [hfloor] at hfits
      obtain ⟨hpositive, first, hat, hfirst⟩ := hfits
      exact ⟨hpositive, first,
        by rw [List.getElem?_append_left (List.getElem?_eq_some_iff.mp hat).1, hat], hfirst⟩
  rw [Database.SameOutsideChain] at hsame
  refine ⟨?_, ?_, ?_, ?_, ?_, hchain, ?_, hfits, ?_⟩
  · rw [hsame]; exact h.schema
  · rw [hsame, hbody]; exact h.stage
  · rw [hsame]; exact h.format
  · rw [hsame]; exact h.casState
  · rw [hsame]; exact h.metaHeaders
  · exact List.forall_mem_append.mpr ⟨h.valid, by simpa using he⟩
  · rw [hsame]
    exact ⟨h.bodies.nodup, by simpa only [hretained] using h.bodies.stored,
      by simpa only [hretained] using h.bodies.keys⟩

/-- Pruning a stored history only moves its floor. -/
theorem Represents.prune (h : Represents key world log db) {f : Nat} (hfloor : log.floor = some f)
    {retained : RetainedBodyCount} {pruned : Nat} (hprune : pruneToCount retained db = .ok (pruned, db')) :
    ∃ floor, Represents key world { log with floor := floor } db' := by
  have hstate := h.casState
  rw [hfloor] at hstate
  rcases pruneToCount_spec hstate hprune with ⟨-, rfl⟩ | ⟨e, he, hlt, rfl, -⟩
  · exact ⟨log.floor, h⟩
  · obtain ⟨i, hi, hbearing, hid, -⟩ := h.chain.mem_bodyEvents he
    have hbodies := h.bodies
    rw [hfloor] at hbodies
    rw [hid] at hlt ⊢
    have hpruned := hbodies.prune h.chain (show f < i + 1 by omega)
    push_cast at hpruned
    exact ⟨some (i + 1), h.schema, h.stage, h.format, by simp, h.metaHeaders,
      ⟨h.chain.events, h.chain.headers, h.chain.sequence, h.chain.bounded⟩, h.valid,
      ⟨by omega, log.entries[i], by simp, hbearing⟩, hpruned⟩

/-- The database of a write after its body was retained and its live row was updated. -/
def staged (db : Database) (generation : WorldGeneration) (body : Bytes) (liveType : String)
    (liveHeaders : Headers) : Database :=
  { db with
    casBodies := retainedRows db body
    stageMeta := [⟨1, .text generation.text, .blob body, .text liveType⟩]
    metaHeaders := liveHeaders.map fun h => ⟨.text h.1, .text h.2⟩ }

/-- The event of a committed body. -/
def bodyEntry (timestamp : AuditTimestamp) (kind : AuditEventKind) (world : ValidatedWorldPath) (body : Bytes)
    (contentType : String) (headers : Headers) : LogEntry :=
  newEntry timestamp kind world (.forBody body) body.length contentType headers (some body)

/-- The event of a committed body may be recorded. -/
theorem bodyEntry_valid {timestamp : AuditTimestamp} {kind : AuditEventKind} (hkind : kind.bodyBearing = true)
    {body : Bytes} (hlength : body.length ≤ i64Max) {contentType : String} {headers : Headers} :
    (bodyEntry timestamp kind world body contentType headers).Valid world := by
  refine ⟨fun _ => rfl, ?_, by simp [bodyEntry, newEntry, hkind], ?_, ?_⟩
  · rintro rfl
    cases hkind
  · rintro _ ⟨⟩
    exact ⟨rfl, rfl, hlength⟩
  · intro hdelete
    cases kind <;> cases hkind <;> cases hdelete

/-- The database of a write before pruning stores the extended history. -/
theorem Represents.extend (hrep : Represents key world log db) {kind : AuditEventKind}
    (hkind : kind.bodyBearing = true) {body : Bytes} {liveType : String} {liveHeaders : Headers}
    {timestamp : AuditTimestamp} {contentType : String} {headers : Headers}
    (hchain : db'.HasChain key world log.generation
      (log.entries ++ [bodyEntry timestamp kind world body contentType headers]))
    (hsame : (staged db log.generation body liveType liveHeaders).SameOutsideChain db')
    (hlength : body.length ≤ i64Max)
    (hfound : ∀ row, db.casBody (BodySha256.forBody body).text = some row →
      row.body.blobLength = some body.length) :
    Represents key world
      ⟨log.generation, log.entries ++ [bodyEntry timestamp kind world body contentType headers], liveType,
        liveHeaders, some (log.floor.getD (log.entries.length + 1))⟩
      { db' with casState := [⟨1, .integer (log.floor.getD (log.entries.length + 1) : Nat)⟩] } := by
  rw [Database.SameOutsideChain] at hsame
  refine ⟨?_, ?_, ?_, rfl, ?_, ⟨hchain.events, hchain.headers, hchain.sequence, hchain.bounded⟩, ?_,
    floorFits_append hrep.floor hkind, ?_⟩
  · rw [hsame]; exact hrep.schema
  · rw [hsame]; simp [bodyAfter, bodyEntry, newEntry, staged]
  · rw [hsame]; exact hrep.format
  · rw [hsame]; rfl
  · exact List.forall_mem_append.mpr ⟨hrep.valid, by simpa using bodyEntry_valid hkind hlength⟩
  · rw [hsame]
    exact hrep.bodies.retain hrep.floor hlength hkind rfl rfl hfound

/-- A committed body event extends the stored history by the event of the new live body, before pruning moves the
floor. -/
theorem commitBody_steps (hrep : Represents key world log db) {clock : TxClock}
    {formatEvent : Option AppendedAuditRow} {kind : AuditEventKind} (hkind : kind.bodyBearing = true)
    {body : Bytes} {update : Database → SqlResult Database} {liveType : String} {liveHeaders : Headers}
    (hupdate : ∀ db₁ db₂, db₁.stageMeta = db.stageMeta → db₁.metaHeaders = db.metaHeaders →
      update db₁ = .ok db₂ → db₂ = { db₁ with
        stageMeta := [⟨1, .text log.generation.text, .blob body, .text liveType⟩]
        metaHeaders := liveHeaders.map fun h => ⟨.text h.1, .text h.2⟩ })
    {contentType : String} {headers : Headers} {retained : RetainedBodyCount} {result : WriteAuditResult}
    (h : commitBody world clock ⟨key, world, log.generation⟩ formatEvent kind body update contentType headers
      retained db = .ok (result, db')) :
    ∃ timestamp before,
      let e := bodyEntry timestamp kind world body contentType headers
      Represents key world ⟨log.generation, log.entries ++ [e], liveType, liveHeaders,
          some (log.floor.getD (log.entries.length + 1))⟩ before ∧
        before.casBodies = retainedRows db body ∧ pruneToCount retained before = .ok (result.prunedCas, db') ∧
        result.casBodyInserted = (db.casBody (BodySha256.forBody body).text).isNone ∧
        result.bodyEvent.Records key world log.generation log.entries e ∧
        result.hmac = result.bodyEvent.hmac ∧ result.formatEvent = formatEvent := by
  unfold commitBody at h
  simp only [bind_eq_ok, liftWrite, mapError_eq_ok, pure_eq_ok, Prod.exists, Prod.mk.injEq] at h
  obtain ⟨stored, db₁, hretain, db₂, hupdated, row, db₃, happend, db₄, hmark, pruned, _, hprune, rfl, rfl⟩ := h
  obtain ⟨rfl, rfl, hlength, hfound⟩ := retainBody_spec hretain
  obtain rfl := hupdate _ _ (by rfl) (by rfl) hupdated
  have hchain : (staged db log.generation body liveType liveHeaders).HasChain key world log.generation
      log.entries := ⟨hrep.chain.events, hrep.chain.headers, hrep.chain.sequence, hrep.chain.bounded⟩
  obtain ⟨timestamp, hchain, hsame, hseq, hrow⟩ := appendTxInner_spec hchain happend (some body)
  have hstate : db₃.casState = [⟨1, log.floor.elim .null fun f => .integer f⟩] := by
    rw [show db₃ = _ from hsame]
    exact hrep.casState
  have hbodies : db₃.casBodies = retainedRows db body := by
    rw [show db₃ = _ from hsame]
  have hposition : row.id.get = (log.entries.length + 1 : Nat) := by simpa using hseq
  obtain rfl := markRetentionStarted_spec hposition hstate hmark
  exact ⟨timestamp, _, hrep.extend hkind hchain hsame hlength hfound, hbodies, hprune, rfl, ⟨hseq, hrow⟩, rfl, rfl⟩

/-- How a write opens the chain: not at all, or with a format event. -/
inductive Opening (key : AuditHmacKey) (world : ValidatedWorldPath) (generation : WorldGeneration)
    (entries : List LogEntry) : Option AppendedAuditRow → List LogEntry → Prop
  | existing : Opening key world generation entries none []
  | format {row : AppendedAuditRow} {e : LogEntry} (kind : e.kind = .format) (content : e.content = none)
      (records : row.Records key world generation entries e) (size : 0 ≤ e.size) :
      Opening key world generation entries (some row) [e]

/-- A format event does not change the body. -/
theorem Opening.bodyAfter_eq {generation : WorldGeneration} {entries opening : List LogEntry}
    {formatEvent : Option AppendedAuditRow}
    (h : Opening key world generation entries formatEvent opening) :
    bodyAfter (entries ++ opening) = bodyAfter entries := by
  cases h with
  | existing => rw [List.append_nil]
  | format _ hcontent _ => simp [bodyAfter, hcontent]

/-- A format event has no body. -/
theorem Opening.bodyBearing_eq {generation : WorldGeneration} {entries opening : List LogEntry}
    {formatEvent : Option AppendedAuditRow} (h : Opening key world generation entries formatEvent opening) :
    ∀ e ∈ opening, e.kind.bodyBearing = false := by
  cases h with
  | existing => exact fun _ h => (by cases h)
  | format hkind => exact List.forall_mem_singleton.mpr (by rw [hkind]; rfl)

/-- A format row extends the stored history. -/
theorem appendFormatTxRow_spec (hrep : Represents key world log db) {clock : String} {row : AppendedAuditRow}
    (h : appendFormatTxRow ⟨key, world, log.generation⟩ clock db = .ok (row, db')) :
    db'.casBodies = db.casBodies ∧ ∃ opening,
      Opening key world log.generation log.entries (some row) opening ∧
        Represents key world { log with entries := log.entries ++ opening } db' := by
  obtain ⟨timestamp, hchain, hsame, hseq, hrow⟩ := appendTxInner_spec hrep.chain h none
  have hbodies : db'.casBodies = db.casBodies := by
    rw [show db' = _ from hsame]
  refine ⟨hbodies, _, .format rfl rfl ⟨hseq, hrow⟩ le_rfl,
    hrep.push ⟨fun _ => rfl, fun _ => rfl, ?_, ?_, ?_⟩ rfl hchain hsame⟩
  · simp [newEntry, AuditEventKind.bodyBearing]
  · simp [newEntry]
  · simp [newEntry, AuditEventKind.isDelete]

/-- The gate of a write keeps the stored history, apart from a format event. -/
theorem openChain_spec (hrep : Represents key world log db) {clock : TxClock} {verified : Bool}
    {opened : OpenedWorldKind} {audit : VerifiedAuditTx} {formatEvent : Option AppendedAuditRow}
    (h : openChain key world clock verified opened db = .ok (audit, formatEvent, db')) :
    audit = ⟨key, world, log.generation⟩ ∧ db'.casBodies = db.casBodies ∧ ∃ opening,
      Opening key world log.generation log.entries formatEvent opening ∧
        Represents key world { log with entries := log.entries ++ opening } db' := by
  unfold openChain verifyAppendableWorld at h
  simp only [bind_eq_ok, liftWrite, mapError_eq_ok, pure_eq_ok, Prod.exists, Prod.mk.injEq] at h
  obtain ⟨audit', genesis, ⟨genesis', -, verdict, hgate, rfl, rfl⟩, h⟩ := h
  have haudit : verdict = ⟨key, world, log.generation⟩ := by
    split_ifs at hgate
    · exact verifyAppendableFull_eq_ok hgate hrep.generation_eq
    · exact verifyAppendableTailChecked_eq_ok hgate hrep.generation_eq
    · exact verifyAppendableFull_eq_ok hgate hrep.generation_eq
  cases haudit
  split_ifs at h
  · simp only [bind_eq_ok, mapError_eq_ok, pure_eq_ok, Prod.exists, Prod.mk.injEq] at h
    obtain ⟨row, opened, hformat, rfl, rfl, rfl⟩ := h
    obtain ⟨hbodies, opening, hopening, hopened⟩ := appendFormatTxRow_spec hrep hformat
    exact ⟨rfl, hbodies, opening, hopening, hopened⟩
  · cases h
    exact ⟨rfl, rfl, [], .existing, by simpa using hrep⟩

/-- What a committed write did to the history of a world. -/
structure Commits (key : AuditHmacKey) (world : ValidatedWorldPath) (kind : AuditEventKind) (body : Bytes)
    (result : WriteAuditResult) (log log' : WorldLog) : Prop where
  generation : log'.generation = log.generation
  entries : ∃ opening e, Opening key world log.generation log.entries result.formatEvent opening ∧
    log'.entries = log.entries ++ opening ++ [e] ∧ e.kind = kind ∧ e.content = some body ∧
    result.bodyEvent.Records key world log.generation (log.entries ++ opening) e
  hmac : result.hmac = chainHead key world log'.generation log'.entries

/-- The body after a committed write is the written one. -/
theorem Commits.bodyAfter_eq {kind : AuditEventKind} {body : Bytes} {result : WriteAuditResult}
    {log log' : WorldLog} (h : Commits key world kind body result log log') : bodyAfter log'.entries = body := by
  obtain ⟨opening, e, -, hentries, -, hcontent, -⟩ := h.entries
  simp [bodyAfter, hentries, hcontent]

/-- A committed write adds an event. -/
theorem Commits.length_lt {kind : AuditEventKind} {body : Bytes} {result : WriteAuditResult}
    {log log' : WorldLog} (h : Commits key world kind body result log log') :
    log.entries.length < log'.entries.length := by
  obtain ⟨opening, e, -, hentries, -⟩ := h.entries
  rw [hentries]
  simp only [List.length_append, List.length_singleton]
  omega

/-- A history is not empty after a committed write. -/
theorem Commits.ne_nil {kind : AuditEventKind} {body : Bytes} {result : WriteAuditResult}
    {log log' : WorldLog} (h : Commits key world kind body result log log') : log'.entries ≠ [] :=
  List.ne_nil_of_length_pos (Nat.zero_lt_of_lt h.length_lt)

omit [HashSuite] in
/-- Inserted headers stand behind those that are there. -/
theorem foldlM_insertMetaHeader_spec {headers : Headers}
    (h : headers.foldlM Database.insertMetaHeader db = .ok db') :
    db' = { db with metaHeaders := db.metaHeaders ++ headers.map fun h => ⟨.text h.1, .text h.2⟩ } := by
  induction headers generalizing db with
  | nil =>
    cases h
    simp
  | cons first rest ih =>
    simp only [List.foldlM_cons, Database.insertMetaHeader, bind_eq_ok, rejectIf_eq_ok, pure_eq_ok] at h
    obtain ⟨_, ⟨-, -, rfl⟩, h⟩ := h
    rw [ih h]
    simp

omit [HashSuite] in
/-- Replacing the headers writes exactly the given ones. -/
theorem replaceMetaHeaders_spec {headers : Headers} (h : replaceMetaHeaders headers db = .ok db') :
    db' = { db with metaHeaders := headers.map fun h => ⟨.text h.1, .text h.2⟩ } := by
  simpa using foldlM_insertMetaHeader_spec h

/-- The transaction of a body: a format event when the chain starts with it, the body event with its retained body,
and pruning. -/
structure Extends (key : AuditHmacKey) (world : ValidatedWorldPath) (kind : AuditEventKind) (body : Bytes)
    (retained : RetainedBodyCount) (result : WriteAuditResult) (log extended : WorldLog)
    (db before db' : Database) : Prop where
  entries : ∃ opening e, Opening key world log.generation log.entries result.formatEvent opening ∧
    extended.entries = log.entries ++ opening ++ [e] ∧ e.kind = kind ∧ e.content = some body ∧
    result.bodyEvent.Records key world log.generation (log.entries ++ opening) e
  generation : extended.generation = log.generation
  floor : extended.floor = some (log.floor.getD extended.entries.length)
  represents : Represents key world extended before
  bodies : before.casBodies = retainedRows db body
  inserted : result.casBodyInserted = (db.casBody (BodySha256.forBody body).text).isNone
  pruned : pruneToCount retained before = .ok (result.prunedCas, db')
  hmac : result.hmac = result.bodyEvent.hmac

/-- The committed database stores the extended history with a floor of its own. -/
theorem Extends.commits {kind : AuditEventKind} {body : Bytes} {retained : RetainedBodyCount}
    {result : WriteAuditResult} {extended : WorldLog} {before : Database}
    (h : Extends key world kind body retained result log extended db before db') :
    ∃ floor, Represents key world { extended with floor := floor } db' ∧
      Commits key world kind body result log { extended with floor := floor } := by
  obtain ⟨floor, hrep⟩ := h.represents.prune h.floor h.pruned
  obtain ⟨opening, e, hopening, hentries, hkind, hcontent, hrecords⟩ := h.entries
  refine ⟨floor, hrep, h.generation, ⟨opening, e, hopening, hentries, hkind, hcontent, hrecords⟩, ?_⟩
  rw [h.hmac, hrecords.fields, h.generation, hentries]

/-- The transaction of a body after its chain was opened. -/
theorem commitBody_extends {opening : List LogEntry} {opened : Database}
    {clock : TxClock} {formatEvent : Option AppendedAuditRow}
    (hopening : Opening key world log.generation log.entries formatEvent opening)
    (hopened : Represents key world { log with entries := log.entries ++ opening } opened)
    (hbodies : opened.casBodies = db.casBodies) {kind : AuditEventKind} (hkind : kind.bodyBearing = true)
    {body : Bytes} {update : Database → SqlResult Database} {liveType : String} {liveHeaders : Headers}
    (hupdate : ∀ db₁ db₂, db₁.stageMeta = opened.stageMeta → db₁.metaHeaders = opened.metaHeaders →
      update db₁ = .ok db₂ → db₂ = { db₁ with
        stageMeta := [⟨1, .text log.generation.text, .blob body, .text liveType⟩]
        metaHeaders := liveHeaders.map fun h => ⟨.text h.1, .text h.2⟩ })
    {contentType : String} {headers : Headers} {retained : RetainedBodyCount} {result : WriteAuditResult}
    (h : commitBody world clock ⟨key, world, log.generation⟩ formatEvent kind body update contentType headers
      retained opened = .ok (result, db')) :
    ∃ extended before, Extends key world kind body retained result log extended db before db' ∧
      extended.contentType = liveType ∧ extended.headers = liveHeaders := by
  obtain ⟨timestamp, before, hbefore, hrows, hprune, hinserted, hrecords, hhmac, rfl⟩ :=
    commitBody_steps hopened hkind hupdate h
  have hsame : ∀ digest, opened.casBody digest = db.casBody digest := fun digest => by
    rw [Database.casBody, Database.casBody, hbodies]
  refine ⟨⟨log.generation, log.entries ++ opening ++ [bodyEntry timestamp kind world body contentType headers],
    liveType, liveHeaders, some (log.floor.getD ((log.entries ++ opening).length + 1))⟩, before,
    ⟨⟨opening, _, hopening, rfl, rfl, rfl, hrecords⟩, rfl, ?_, hbefore, ?_, ?_, hprune, hhmac⟩, rfl, rfl⟩
  · simp only [List.length_append, List.length_singleton]
  · rw [hrows, retainedRows, retainedRows, hsame, hbodies]
  · rw [hinserted, hsame]

/-- The transaction of a replace extends the history by the replaced body. -/
theorem writeWithAudit_extends (hrep : Represents key world log db) {clock : TxClock} {verified : Bool}
    {opened : OpenedWorldKind} {body : Bytes} {contentType : String} {headers : Headers}
    {retained : RetainedBodyCount} {result : WriteAuditResult}
    (h : writeWithAudit key world clock verified opened body contentType headers retained db =
      .ok (result, db')) :
    ∃ extended before, Extends key world .put body retained result log extended db before db' ∧
      extended.contentType = contentType ∧ extended.headers = headers := by
  unfold writeWithAudit at h
  simp only [bind_eq_ok, Prod.exists] at h
  obtain ⟨audit, formatEvent, db₁, hopen, h⟩ := h
  obtain ⟨rfl, hbodies, opening, hopening, hopened⟩ := openChain_spec hrep hopen
  have hupdate : ∀ db₂ db₃ : Database, db₂.stageMeta = db₁.stageMeta → db₂.metaHeaders = db₁.metaHeaders →
      replaceMetaHeaders headers (db₂.updateStage body contentType) = .ok db₃ → db₃ = { db₂ with
        stageMeta := [⟨1, .text log.generation.text, .blob body, .text contentType⟩]
        metaHeaders := headers.map fun h => ⟨.text h.1, .text h.2⟩ } := by
    intro db₂ db₃ hstage _ hreplace
    rw [replaceMetaHeaders_spec hreplace]
    simp [Database.updateStage, hstage, hopened.stage]
  exact commitBody_extends hopening hopened hbodies rfl hupdate h

/-- The transaction of an append extends the history by the old body with the new bytes behind it. -/
theorem appendWithAudit_extends (hrep : Represents key world log db) {clock : TxClock} {verified : Bool}
    {body : Bytes} {contentType : String} {headers : Headers} {retained : RetainedBodyCount}
    {result : WriteAuditResult}
    (h : appendWithAudit key world clock verified body contentType headers retained db = .ok (result, db')) :
    ∃ extended before, Extends key world .append (bodyAfter log.entries ++ body) retained result log extended db
        before db' ∧ extended.contentType = log.contentType ∧ extended.headers = log.headers := by
  unfold appendWithAudit at h
  simp only [bind_eq_ok, Prod.exists, liftWrite, mapError_eq_ok] at h
  obtain ⟨audit, formatEvent, db₁, hopen, current, hcurrent, h⟩ := h
  obtain ⟨rfl, hbodies, opening, hopening, hopened⟩ := openChain_spec hrep hopen
  have hbody : current = bodyAfter (log.entries ++ opening) :=
    Except.ok.inj (hcurrent.symm.trans hopened.liveBody_eq)
  rw [hopening.bodyAfter_eq] at hbody
  subst hbody
  have hupdate : ∀ db₂ db₃ : Database, db₂.stageMeta = db₁.stageMeta → db₂.metaHeaders = db₁.metaHeaders →
      (pure (db₂.updateStageBody (bodyAfter log.entries ++ body)) : SqlResult Database) = .ok db₃ →
      db₃ = { db₂ with
        stageMeta := [⟨1, .text log.generation.text, .blob (bodyAfter log.entries ++ body),
          .text log.contentType⟩]
        metaHeaders := log.headers.map fun h => ⟨.text h.1, .text h.2⟩ } := by
    rintro db₂ _ hstage hheaders ⟨⟩
    rw [hopened.metaHeaders] at hheaders
    rw [hopened.stage] at hstage
    simp [Database.updateStageBody, hstage, ← hheaders]
  exact commitBody_extends hopening hopened hbodies rfl hupdate h

/-- A committed replace extends the history by the replaced body. -/
theorem writeWithAudit_spec (hrep : Represents key world log db) {clock : TxClock} {verified : Bool}
    {opened : OpenedWorldKind} {body : Bytes} {contentType : String} {headers : Headers}
    {retained : RetainedBodyCount} {result : WriteAuditResult}
    (h : writeWithAudit key world clock verified opened body contentType headers retained db =
      .ok (result, db')) :
    ∃ log', Represents key world log' db' ∧ Commits key world .put body result log log' ∧
      log'.contentType = contentType ∧ log'.headers = headers := by
  obtain ⟨extended, before, hextends, hcontentType, hheaders⟩ := writeWithAudit_extends hrep h
  obtain ⟨floor, hrep', hcommits⟩ := hextends.commits
  exact ⟨_, hrep', hcommits, hcontentType, hheaders⟩

/-- A committed append extends the history by the old body with the new bytes behind it. -/
theorem appendWithAudit_spec (hrep : Represents key world log db) {clock : TxClock} {verified : Bool}
    {body : Bytes} {contentType : String} {headers : Headers} {retained : RetainedBodyCount}
    {result : WriteAuditResult}
    (h : appendWithAudit key world clock verified body contentType headers retained db = .ok (result, db')) :
    ∃ log', Represents key world log' db' ∧
      Commits key world .append (bodyAfter log.entries ++ body) result log log' ∧
      log'.contentType = log.contentType ∧ log'.headers = log.headers := by
  obtain ⟨extended, before, hextends, hcontentType, hheaders⟩ := appendWithAudit_extends hrep h
  obtain ⟨floor, hrep', hcommits⟩ := hextends.commits
  exact ⟨_, hrep', hcommits, hcontentType, hheaders⟩

end AuditeDB
