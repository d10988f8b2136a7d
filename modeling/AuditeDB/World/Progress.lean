import Mathlib
import AuditeDB.World.Commit
import AuditeDB.World.TailGate

/-!
# Writes that succeed

A write to a stored history succeeds when the clock gives canonical texts, the row ids and lengths fit their
types, no other retained body has its digest, and the headers have distinct names.
-/

namespace AuditeDB

open Utf8 Results HashChain

variable [HashSuite] {key : AuditHmacKey} {world : ValidatedWorldPath} {log : WorldLog} {db db' : Database}

/-- The two ways of loading agree on rows that hold what their digests say. -/
theorem loadBodyIndex_casRow (bodies : RetainedBodies) {body : Bytes} (hlength : body.length ≤ i64Max) :
    loadBodyIndex bodies (casRow body) = loadHashedBody bodies (casRow body) := by
  simp [loadBodyIndex, loadHashedBody, casRow, SqlValue.getString, SqlValue.getBytes, SqlValue.length,
    requireSome, Except.mapError, not_lt.mpr hlength, bind, Except.bind, pure, Except.pure]

/-- The gate of a write loads the same retention state as the full verification when the bodies are what their
digests say. -/
theorem CasRetentionState.loadForAppend_of_stored
    (hstored : ∀ row ∈ db.casBodies, ∃ body, row = casRow body ∧ body.length ≤ i64Max) :
    loadForAppend db = load db := by
  have hfold : ∀ (rows : List CasBodyRow) (bodies : RetainedBodies),
      (∀ row ∈ rows, ∃ body, row = casRow body ∧ body.length ≤ i64Max) →
        rows.foldlM loadBodyIndex bodies = rows.foldlM loadHashedBody bodies := by
    intro rows
    induction rows with
    | nil => exact fun _ _ => rfl
    | cons row rest ih =>
      intro bodies hrows
      obtain ⟨⟨body, rfl, hlength⟩, hrest⟩ := List.forall_mem_cons.mp hrows
      rw [List.foldlM_cons, List.foldlM_cons, loadBodyIndex_casRow bodies hlength]
      congr 1
      exact funext fun next => ih next hrest
  rw [loadForAppend, load, loadRetention, loadRetention, hfold db.casBodies ∅ hstored]

/-- The gate of a write loads the retention state of a stored history. -/
theorem Represents.loadForAppend_eq (h : Represents key world log db) :
    CasRetentionState.loadForAppend db = CasRetentionState.load db := by
  refine CasRetentionState.loadForAppend_of_stored fun row hrow => ?_
  obtain ⟨body, hbody, hlength, -⟩ := h.bodies.stored row hrow
  exact ⟨body, hbody, hlength⟩

/-- The check of the newest body passes on a stored history. -/
theorem Represents.verifyCurrentTailBody_eq (h : Represents key world log db) :
    verifyCurrentTailBody db = .ok none := by
  rcases List.eq_nil_or_concat' log.entries with hnil | ⟨entries, e, hentries⟩
  · have hevents : db.events = [] := by rw [h.chain.events, hnil]; rfl
    have hlatest : latestEventWithHeaders db = .ok none := by
      simp [latestEventWithHeaders, Database.auditTailSelect, Database.eventsDesc, hevents, collectTail, pure,
        Except.pure]
    rw [verifyCurrentTailBody, hlatest]
    rfl
  · have hchain := h.chain
    rw [hentries] at hchain
    simp only [verifyCurrentTailBody, hchain.latestEventWithHeaders_eq, ok_bind, h.verifyTailBody_eq hentries]

/-- The full gate of a write accepts a stored history. -/
theorem Represents.verifyAppendableFull_eq (h : Represents key world log db) {allowEmpty : Bool}
    (hempty : log.entries ≠ [] ∨ allowEmpty = true) :
    verifyAppendableFull key world allowEmpty db = .ok ⟨key, world, log.generation⟩ := by
  obtain ⟨retention, hload, hlists⟩ := h.load_eq
  obtain ⟨ok, head, read, hvalid⟩ := h.verifyStatementCapture_eq hlists hempty none
  rw [verifyAppendableFull, h.generation_eq, h.loadForAppend_eq, hload, h.verifyCurrentTailBody_eq,
    h.verifyLiveBody_eq]
  simp only [liftSql, Except.mapError, ok_bind, requireStatementIntact, hvalid]
  rfl

/-- The tail gate of a write accepts a stored history with at least one event. -/
theorem Represents.verifyAppendableTailChecked_eq (h : Represents key world log db) (hne : log.entries ≠ []) :
    verifyAppendableTailChecked key world db = .ok ⟨key, world, log.generation⟩ := by
  obtain ⟨retention, hload, -⟩ := h.load_eq
  rw [verifyAppendableTailChecked, h.generation_eq, h.loadForAppend_eq, hload, h.requireCurrentTailIntact_eq hne]
  rfl

/-- A row is appended when the clock is canonical and the row ids have room. -/
theorem appendTxInner_ok {entries : List LogEntry} {generation : WorldGeneration}
    (hchain : db.HasChain key world generation entries) (clock : AuditTimestamp)
    (hroom : entries.length + 1 ≤ i64Max) (kind : AuditEventKind) (target : ValidatedWorldPath)
    (bodySha256 : BodySha256) (size : Int) (contentType : String) (headers : Headers) :
    ∃ row db', appendTxInner ⟨key, world, generation⟩ clock.text kind target bodySha256 size contentType headers
      db = .ok (row, db') := by
  have hbound : ¬ ((i64Max : Int) < db.nextEventId) := by
    rw [hchain.nextEventId_eq]
    omega
  have hpositive : 0 < db.nextEventId := by
    rw [hchain.nextEventId_eq]
    omega
  simp only [appendTxInner, AuditTimestamp.now, AuditTimestamp.fromStorage_text, Except.mapError, ok_bind,
    hchain.latestHmac_eq, Database.insertEvent, rejectIf, if_neg hbound, pure, Except.pure, TimelineSeq.new,
    dif_pos hpositive]
  exact ⟨_, _, rfl⟩

/-- Retention starts or goes on with a new body event. -/
theorem markRetentionStarted_ok {entries : List LogEntry} {e : LogEntry} {generation : WorldGeneration}
    (hchain : db.HasChain key world generation (entries ++ [e])) (hbearing : e.kind.bodyBearing = true)
    {floor : Option Nat} (hfits : FloorFits floor entries)
    (hstate : db.casState = [⟨1, floor.elim .null fun f => .integer f⟩]) {seq : TimelineSeq}
    (hseq : seq.get = entries.length + 1) : ∃ db', markRetentionStarted seq db = .ok db' := by
  have hrow : db.casStateRow = some ⟨1, floor.elim .null fun f => .integer f⟩ := by
    rw [Database.casStateRow, hstate]
    rfl
  cases floor with
  | none =>
    have hread : readFloorForWrite db = .ok none := by
      rw [readFloorForWrite, hrow]
      rfl
    have hfirst : db.bodyEventsAsc.head? =
        some (Database.HasChain.lastRow key world generation entries e).1.record := by
      have hbefore : ((render key world generation entries).map fun event => event.1.record).filter
          (fun e => AuditEventKind.isBodyType e.eventType) = [] := by
        rw [List.filter_eq_nil_iff]
        intro row hrow
        obtain ⟨event, hevent, rfl⟩ := List.mem_map.mp hrow
        obtain ⟨i, hi, prev, rfl⟩ := mem_render hevent
        simp [LogEntry.row, EventRow.record, hfits _ (List.getElem_mem hi)]
      rw [Database.bodyEventsAsc, hchain.eventsAsc_eq, hchain.events_append, List.filter_append, hbefore]
      simp [Database.HasChain.lastRow, LogEntry.row, EventRow.record, hbearing]
    have hid : (Database.HasChain.lastRow key world generation entries e).1.record.id = seq.get := hseq.symm
    have hset : ∃ db', setFloor seq db = .ok db' := by
      rw [setFloor, hstate]
      exact ⟨_, rfl⟩
    obtain ⟨db', hset⟩ := hset
    refine ⟨db', ?_⟩
    simp [markRetentionStarted, hread, firstBodyEventSeq, hfirst, requireSome, liftWrite, Except.mapError, hid,
      hset, bind, Except.bind]
  | some f =>
    obtain ⟨hpositive, first, hat, hfirst⟩ := hfits
    have hlt := (List.getElem?_eq_some_iff.mp hat).1
    have hpos : 0 < (f : Int) := by omega
    have hread : readFloorForWrite db = .ok (some ⟨f, hpos⟩) := by
      rw [readFloorForWrite, hrow]
      exact TimelineSeq.newOption_get _ (some ⟨f, hpos⟩)
    have hexists : bodyEventExists db ⟨f, hpos⟩ = true := by
      have hi : f - 1 < (entries ++ [e]).length := by simp; omega
      have hget : (entries ++ [e])[f - 1] = first := by
        rw [List.getElem_append_left hlt]
        exact (List.getElem?_eq_some_iff.mp hat).2
      obtain ⟨row, hmem, hid, -⟩ := hchain.exists_bodyEvent hi (by rw [hget, hfirst])
      rw [bodyEventExists, List.any_eq_true]
      refine ⟨row, hmem, decide_eq_true (show row.id = (f : Int) from ?_)⟩
      omega
    have hahead : ¬ (seq.get < (f : Int)) := by omega
    refine ⟨db, ?_⟩
    simp [markRetentionStarted, hread, hexists, hahead, bind, Except.bind, pure, Except.pure]

/-- The stored body events are those of the history. -/
theorem length_bodyEvents {entries : List LogEntry} {generation : WorldGeneration}
    (hchain : db.HasChain key world generation entries) :
    db.bodyEvents.length = (entries.filter fun e => e.kind.bodyBearing).length := by
  rw [Database.bodyEvents, hchain.events]
  clear hchain
  induction entries using List.reverseRecOn with
  | nil => rfl
  | append_singleton entries e ih =>
    rw [render_append, List.map_append, List.filter_append, List.length_append, ih, List.filter_append,
      List.length_append]
    cases hbearing : e.kind.bodyBearing <;>
      simp [LogEntry.row, EventRow.record, hbearing]

/-- The body events are stored in ascending order. -/
theorem Database.HasChain.bodyEventsDesc_eq {entries : List LogEntry} {generation : WorldGeneration}
    (hchain : db.HasChain key world generation entries) : db.bodyEventsDesc = db.bodyEvents.reverse := by
  rw [Database.bodyEventsDesc, hchain.eventsDesc_eq, List.filter_reverse]
  rfl

/-- Nothing is pruned while the body events are within the count. -/
theorem Represents.pruneToCount_eq (h : Represents key world log db) {f : Nat} (hfloor : log.floor = some f)
    {retained : RetainedBodyCount} (hfew : db.bodyEvents.length ≤ retained.count) :
    pruneToCount retained db = .ok (0, db) := by
  have hfits := h.floor
  rw [hfloor] at hfits
  obtain ⟨hpositive, first, hat, hfirst⟩ := hfits
  have hlt := (List.getElem?_eq_some_iff.mp hat).1
  obtain ⟨row, hrow, hid, -⟩ := h.chain.exists_bodyEvent hlt
    (by rw [(List.getElem?_eq_some_iff.mp hat).2, hfirst])
  have hdesc := h.chain.bodyEventsDesc_eq
  have hasc : db.bodyEvents.Pairwise fun a b => a.id < b.id := h.chain.ascending.filter _
  obtain ⟨oldest, rest, hcons⟩ := List.exists_cons_of_ne_nil (List.ne_nil_of_mem hrow)
  have holdest : oldest.id ≤ row.id := by
    rw [hcons] at hrow hasc
    rcases List.mem_cons.mp hrow with rfl | hrow
    · exact le_rfl
    · exact ((List.pairwise_cons.mp hasc).1 row hrow).le
  have hlimit : db.floorForLimit retained.count = some oldest.id := by
    rw [Database.floorForLimit, hdesc, List.take_of_length_le (by simpa using hfew), List.getLast?_reverse, hcons]
    rfl
  have hpos : 0 < oldest.id := by
    obtain ⟨i, hi, -, hid, -⟩ := h.chain.mem_bodyEvents (hcons ▸ List.mem_cons_self ..)
    omega
  have hnew : retainedFloorForCount retained db = .ok (some ⟨oldest.id, hpos⟩) := by
    rw [retainedFloorForCount, hlimit]
    exact TimelineSeq.newOption_get _ (some ⟨oldest.id, hpos⟩)
  have hcurrent : ∃ seq : TimelineSeq, readFloorForWrite db = .ok (some seq) ∧ seq.get = f := by
    have hfpos : 0 < (f : Int) := by omega
    have hstate : db.casStateRow = some ⟨1, .integer f⟩ := by
      rw [Database.casStateRow, h.casState, hfloor]
      rfl
    refine ⟨⟨f, hfpos⟩, ?_, rfl⟩
    rw [readFloorForWrite, hstate]
    exact TimelineSeq.newOption_get _ (some ⟨f, hfpos⟩)
  obtain ⟨seq, hread, hseq⟩ := hcurrent
  have hle : oldest.id ≤ seq.get := by omega
  simp [pruneToCount, hnew, hread, hle, bind, Except.bind, pure, Except.pure]

/-- What committing a body to a history needs: room for a number of rows, no other body with its digest, and
few enough body events. -/
structure CanCommit (entries : List LogEntry) (rows : Nat) (body : Bytes) (retained : RetainedBodyCount) :
    Prop where
  room : entries.length + rows ≤ i64Max
  length : body.length ≤ i64Max
  unambiguous : ∀ e ∈ entries, e.bodySha256 = .forBody body → e.kind.bodyBearing = true → e.size = body.length
  few : (entries.filter fun e => e.kind.bodyBearing).length + 1 ≤ retained.count

/-- A body is retained when no other retained body has its digest. -/
theorem retainBody_ok {body : Bytes} (hlength : body.length ≤ i64Max)
    (hunambiguous : ∀ row, db.casBody (BodySha256.forBody body).text = some row →
      row.body.blobLength = some body.length) :
    retainBody body db = .ok (⟨.forBody body, body.length,
      (db.casBody (BodySha256.forBody body).text).isNone⟩, { db with casBodies := retainedRows db body }) := by
  have hinsert : db.insertCasBody (.forBody body) body = { db with casBodies := retainedRows db body } := by
    unfold Database.insertCasBody retainedRows
    cases db.casBody (BodySha256.forBody body).text <;> rfl
  have hstored : ∃ row, Database.casBody { db with casBodies := retainedRows db body }
      (BodySha256.forBody body).text = some row ∧ row.body.blobLength = some body.length := by
    cases hfound : db.casBody (BodySha256.forBody body).text with
    | none =>
      refine ⟨casRow body, ?_, rfl⟩
      rw [retainedRows, hfound, Option.isNone_none, if_pos rfl, Database.casBody, List.find?_append,
        show db.casBodies.find? _ = none from hfound]
      simp [casRow]
    | some row =>
      refine ⟨row, ?_, hunambiguous row hfound⟩
      rw [retainedRows, hfound, Option.isNone_some, if_neg Bool.false_ne_true]
      exact hfound
  obtain ⟨row, hrow, hblob⟩ := hstored
  simp [retainBody, hinsert, hrow, hblob, not_lt.mpr hlength, requireSome, liftWrite, Except.mapError, bind,
    Except.bind, pure, Except.pure]

/-- A stored row with the digest of a body has its length. -/
theorem CanCommit.found {rows : Nat} {body : Bytes} {retained : RetainedBodyCount}
    (hcan : CanCommit log.entries rows body retained) (hrep : Represents key world log db) (row : CasBodyRow)
    (hrow : db.casBody (BodySha256.forBody body).text = some row) : row.body.blobLength = some body.length := by
  have hmem := List.mem_of_find?_eq_some hrow
  have hfound := List.find?_some hrow
  have hkey : row.bodySha256 = .text (BodySha256.forBody body).text := of_decide_eq_true hfound
  obtain ⟨body', rfl, -, hsizes⟩ := hrep.bodies.stored row hmem
  obtain ⟨e, he, hdigest⟩ := (hrep.bodies.keys (.forBody body)).mp ⟨_, hmem, hkey⟩
  have hsame : BodySha256.forBody body' = .forBody body := BodySha256.ext (SqlValue.text.inj hkey)
  obtain ⟨f, -, i, hi, -, rfl, hbearing⟩ := mem_retainedEntries.mp he
  have hsize := hsizes _ he (hdigest.trans hsame.symm)
  rw [hcan.unambiguous _ (List.getElem_mem hi) hdigest hbearing, Nat.cast_inj] at hsize
  rw [casRow, SqlValue.blobLength, hsize]

/-- A format event leaves room for one row less and changes nothing else. -/
theorem CanCommit.opening {entries opening : List LogEntry} {rows : Nat} {body : Bytes}
    {retained : RetainedBodyCount} (hcan : CanCommit entries (rows + 1) body retained)
    {generation : WorldGeneration} {formatEvent : Option AppendedAuditRow}
    (hopening : Opening key world generation entries formatEvent opening) :
    CanCommit (entries ++ opening) rows body retained := by
  have hroom := hcan.room
  cases hopening with
  | existing => exact ⟨by simp; omega, hcan.length, by simpa using hcan.unambiguous, by simpa using hcan.few⟩
  | @format row e hkind =>
    have hbearing : e.kind.bodyBearing = false := by rw [hkind]; rfl
    refine ⟨by simp; omega, hcan.length, fun e' he' hdigest hbody => ?_, by simpa [hbearing] using hcan.few⟩
    rcases List.mem_append.mp he' with he' | he'
    · exact hcan.unambiguous e' he' hdigest hbody
    · rw [List.mem_singleton.mp he', hbearing] at hbody
      cases hbody

/-- The event of a body is committed to a stored history. -/
theorem commitBody_ok (hrep : Represents key world log db) {body : Bytes} {retained : RetainedBodyCount}
    (hcan : CanCommit log.entries 1 body retained) (formatClock bodyClock : AuditTimestamp)
    (formatEvent : Option AppendedAuditRow) (kind : AuditEventKind) (hkind : kind.bodyBearing = true)
    {update : Database → SqlResult Database} {liveType : String} {liveHeaders : Headers}
    (hupdate : ∀ db₁ : Database, db₁.stageMeta = db.stageMeta → db₁.metaHeaders = db.metaHeaders →
      update db₁ = .ok { db₁ with
        stageMeta := [⟨1, .text log.generation.text, .blob body, .text liveType⟩]
        metaHeaders := liveHeaders.map fun h => ⟨.text h.1, .text h.2⟩ })
    (contentType : String) (headers : Headers) :
    ∃ result db', commitBody world ⟨formatClock.text, bodyClock.text⟩ ⟨key, world, log.generation⟩ formatEvent
      kind body update contentType headers retained db = .ok (result, db') ∧ result.formatEvent = formatEvent := by
  have hfound := hcan.found hrep
  have hretain := retainBody_ok hcan.length hfound
  have hstaged : update { db with casBodies := retainedRows db body } =
      .ok (staged db log.generation body liveType liveHeaders) := hupdate _ rfl rfl
  have hchain : (staged db log.generation body liveType liveHeaders).HasChain key world log.generation
      log.entries := ⟨hrep.chain.events, hrep.chain.headers, hrep.chain.sequence, hrep.chain.bounded⟩
  obtain ⟨row, db₃, happend⟩ := appendTxInner_ok hchain bodyClock hcan.room kind
    world (.forBody body) body.length contentType headers
  obtain ⟨timestamp, hchain, hsame, hseq, hrow⟩ := appendTxInner_spec hchain happend (some body)
  have hstate : db₃.casState = [⟨1, log.floor.elim .null fun f => .integer f⟩] := by
    rw [show db₃ = _ from hsame]
    exact hrep.casState
  obtain ⟨db₄, hmark⟩ := markRetentionStarted_ok hchain hkind hrep.floor hstate hseq
  have hposition : row.id.get = (log.entries.length + 1 : Nat) := by simpa using hseq
  obtain rfl := markRetentionStarted_spec hposition hstate hmark
  have hextended := hrep.extend hkind hchain hsame hcan.length hfound
  have hfew : ((log.entries ++ [bodyEntry timestamp kind world body contentType headers]).filter
      fun e => e.kind.bodyBearing).length ≤ retained.count := by
    rw [List.filter_append, List.length_append]
    exact le_trans (Nat.add_le_add_left (List.length_filter_le _ _) _) hcan.few
  have hprune := hextended.pruneToCount_eq rfl ((length_bodyEvents hextended.chain).trans_le hfew)
  simp only [commitBody, hretain, hstaged, happend, hmark, hprune, liftWrite, Except.mapError, ok_bind]
  exact ⟨_, _, rfl, rfl⟩

omit [HashSuite] in
/-- Headers with distinct names are inserted. -/
theorem foldlM_insertMetaHeader_ok {headers : Headers} (hnodup : (headers.map Prod.fst).Nodup)
    (hfresh : ∀ row ∈ db.metaHeaders, ∀ h ∈ headers, row.name ≠ .text h.1) :
    ∃ db', headers.foldlM Database.insertMetaHeader db = .ok db' := by
  induction headers generalizing db with
  | nil => exact ⟨db, rfl⟩
  | cons first rest ih =>
    obtain ⟨hfirst, hnodup⟩ := List.nodup_cons.mp hnodup
    have hinsert : db.insertMetaHeader first =
        .ok { db with metaHeaders := db.metaHeaders ++ [⟨.text first.1, .text first.2⟩] } := by
      have hnone : ¬ (db.metaHeaders.any (·.name = .text first.1) = true) := by
        simpa using fun row hrow => hfresh row hrow first (List.mem_cons_self ..)
      simp only [Database.insertMetaHeader, rejectIf, if_neg hnone, ok_bind, pure, Except.pure]
    rw [List.foldlM_cons, hinsert, ok_bind]
    refine ih hnodup fun row hrow h hh => ?_
    rcases List.mem_append.mp hrow with hrow | hrow
    · exact hfresh row hrow h (List.mem_cons_of_mem _ hh)
    · rw [List.mem_singleton.mp hrow]
      intro hsame
      exact hfirst (List.mem_map.mpr ⟨h, hh, (SqlValue.text.inj hsame).symm⟩)

/-- How the gate of a write may treat a stored history: as one that starts, or as one with events. -/
def Openable (log : WorldLog) (opened : OpenedWorldKind) : Prop :=
  opened = .created ∨ log.entries ≠ [] ∨ log.headers = []

/-- A stored history is an empty bootstrap when it has neither events nor headers. -/
theorem Represents.isEmptyBootstrap_eq (h : Represents key world log db) :
    isEmptyBootstrap db = .ok (log.entries.isEmpty && log.headers.isEmpty) := by
  have hevents : db.events.isEmpty = log.entries.isEmpty := by
    rw [h.chain.events, List.isEmpty_map, Bool.eq_iff_iff, List.isEmpty_iff, List.isEmpty_iff,
      ← List.length_eq_zero_iff, length_render, List.length_eq_zero_iff]
  have hheaders : db.metaHeaders.isEmpty = log.headers.isEmpty := by rw [h.metaHeaders, List.isEmpty_map]
  simp only [isEmptyBootstrap, h.stageMetaRow_eq, requireSome, ok_bind, hevents, hheaders, SqlValue.blobLength,
    pure, Except.pure]
  cases hnil : log.entries with
  | nil =>
    have hstored : db.eventHeaders = [] := by rw [h.chain.headers, hnil]; rfl
    simp [hstored, bodyAfter]
  | cons e rest => rfl

/-- The gate of a write passes a stored history. It starts the chain in a fresh database and on a connection
that created the database. -/
theorem openChain_ok (hrep : Represents key world log db) {opened : OpenedWorldKind}
    (hopen : Openable log opened) (hroom : log.entries.length + 1 ≤ i64Max) (verified : Bool)
    (formatClock bodyClock : AuditTimestamp) :
    ∃ formatEvent db', openChain key world ⟨formatClock.text, bodyClock.text⟩ verified opened db =
      .ok (⟨key, world, log.generation⟩, formatEvent, db') ∧
      (formatEvent.isSome = true ↔ opened = .created ∨ log.entries = [] ∧ log.headers = []) := by
  have hbootstrap : ∃ genesis, auditChainOpening opened db = .ok genesis ∧
      (genesis = true ↔ opened = .created ∨ log.entries = [] ∧ log.headers = []) := by
    cases opened with
    | created => exact ⟨true, rfl, by simp⟩
    | existing => exact ⟨_, hrep.isEmptyBootstrap_eq, by simp⟩
  obtain ⟨genesis, hgenesis, hiff⟩ := hbootstrap
  cases genesis with
  | true =>
    obtain ⟨row, db', hformat⟩ := appendTxInner_ok hrep.chain formatClock hroom .format world
      (.forBody []) 0 "" [(worldFormatVersionHeader, toString currentWorldFormatVersion)]
    refine ⟨some row, db', ?_, by simpa using hiff⟩
    simp only [openChain, verifyAppendableWorld, hgenesis, liftWrite, Except.mapError, ok_bind, if_true,
      hrep.verifyAppendableFull_eq (.inr rfl), pure, Except.pure, appendFormatTxRow, hformat]
  | false =>
    have hne : log.entries ≠ [] := by
      have hnot : ¬ (opened = .created ∨ log.entries = [] ∧ log.headers = []) := by simpa using hiff
      rcases hopen with hcreated | hne | hheaders
      · exact absurd (.inl hcreated) hnot
      · exact hne
      · exact fun hnil => hnot (.inr ⟨hnil, hheaders⟩)
    refine ⟨none, db, ?_, by simpa using hiff⟩
    simp only [openChain, verifyAppendableWorld, hgenesis, liftWrite, Except.mapError, ok_bind,
      Bool.false_eq_true, if_false, hrep.verifyAppendableFull_eq (.inl hne),
      hrep.verifyAppendableTailChecked_eq hne, ite_self, pure, Except.pure]

/-- A replace of a stored history succeeds. -/
theorem writeWithAudit_ok (hrep : Represents key world log db) {opened : OpenedWorldKind}
    (hopen : Openable log opened) {body : Bytes} {retained : RetainedBodyCount}
    (hcan : CanCommit log.entries 2 body retained) {headers : Headers} (hheaders : (headers.map Prod.fst).Nodup)
    (verified : Bool) (formatClock bodyClock : AuditTimestamp) (contentType : String) :
    ∃ result db', writeWithAudit key world ⟨formatClock.text, bodyClock.text⟩ verified opened body contentType
      headers retained db = .ok (result, db') ∧
      (result.formatEvent.isSome = true ↔ opened = .created ∨ log.entries = [] ∧ log.headers = []) := by
  have hroom := hcan.room
  obtain ⟨formatEvent, db₁, hopened, hformat⟩ :=
    openChain_ok hrep hopen (by omega) verified formatClock bodyClock
  obtain ⟨-, -, opening, hopening, hrep₁⟩ := openChain_spec hrep hopened
  have hupdate : ∀ db₂ : Database, db₂.stageMeta = db₁.stageMeta → db₂.metaHeaders = db₁.metaHeaders →
      replaceMetaHeaders headers (db₂.updateStage body contentType) = .ok { db₂ with
        stageMeta := [⟨1, .text log.generation.text, .blob body, .text contentType⟩]
        metaHeaders := headers.map fun h => ⟨.text h.1, .text h.2⟩ } := by
    intro db₂ hstage _
    obtain ⟨db₃, hreplace⟩ : ∃ db₃, replaceMetaHeaders headers (db₂.updateStage body contentType) = .ok db₃ :=
      foldlM_insertMetaHeader_ok hheaders (by simp)
    rw [hreplace, replaceMetaHeaders_spec hreplace]
    simp [Database.updateStage, hstage, hrep₁.stage]
  obtain ⟨result, db', hcommit, hresult⟩ := commitBody_ok hrep₁ (hcan.opening hopening) formatClock bodyClock
    formatEvent .put rfl hupdate contentType headers
  refine ⟨result, db', ?_, hresult ▸ hformat⟩
  rw [writeWithAudit, hopened, ok_bind]
  exact hcommit

/-- An append to a stored history succeeds. It starts the chain in a fresh database only. -/
theorem appendWithAudit_ok (hrep : Represents key world log db) (hopen : Openable log .existing) {body : Bytes}
    {retained : RetainedBodyCount} (hcan : CanCommit log.entries 2 (bodyAfter log.entries ++ body) retained)
    (verified : Bool) (formatClock bodyClock : AuditTimestamp) (contentType : String) (headers : Headers) :
    ∃ result db', appendWithAudit key world ⟨formatClock.text, bodyClock.text⟩ verified body contentType headers
      retained db = .ok (result, db') ∧
      (result.formatEvent.isSome = true ↔ log.entries = [] ∧ log.headers = []) := by
  have hroom := hcan.room
  obtain ⟨formatEvent, db₁, hopened, hformat⟩ :=
    openChain_ok hrep hopen (by omega) verified formatClock bodyClock
  obtain ⟨-, -, opening, hopening, hrep₁⟩ := openChain_spec hrep hopened
  have hlive : liveBody db₁ = .ok (bodyAfter log.entries) := hrep₁.liveBody_eq.trans (by rw [hopening.bodyAfter_eq])
  have hupdate : ∀ db₂ : Database, db₂.stageMeta = db₁.stageMeta → db₂.metaHeaders = db₁.metaHeaders →
      (pure (db₂.updateStageBody (bodyAfter log.entries ++ body)) : SqlResult Database) = .ok { db₂ with
        stageMeta := [⟨1, .text log.generation.text, .blob (bodyAfter log.entries ++ body),
          .text log.contentType⟩]
        metaHeaders := log.headers.map fun h => ⟨.text h.1, .text h.2⟩ } := by
    intro db₂ hstage hheaders
    rw [hrep₁.metaHeaders] at hheaders
    rw [hrep₁.stage] at hstage
    simp [Database.updateStageBody, hstage, ← hheaders, pure, Except.pure]
  obtain ⟨result, db', hcommit, hresult⟩ := commitBody_ok hrep₁ (hcan.opening hopening) formatClock bodyClock
    formatEvent .append rfl hupdate contentType headers
  refine ⟨result, db', ?_, by simpa [hresult] using hformat⟩
  rw [appendWithAudit, hopened, ok_bind]
  simp only [hlive, liftWrite, Except.mapError, ok_bind]
  exact hcommit

end AuditeDB
