import Mathlib
import AuditeDB.World.Commit
import AuditeDB.World.Resolution

/-!
# Replay of a chain

A subscription that resumes after an event reads the events behind it from the verified chain. On a stored history
the replay returns the committed rows behind the marker, each as it was reported when it was committed.
-/

namespace AuditeDB

open Utf8 Results HashChain

/-- `VerifiedReplayPayload`. -/
structure VerifiedReplayPayload where
  bodySha256 : BodySha256
  size : Int
  contentType : String
deriving DecidableEq

/-- `VerifiedReplayEvent`. -/
inductive VerifiedReplayEvent where
  | body (world : ValidatedWorldPath) (generation : WorldGeneration) (seq : TimelineSeq) (kind : AuditEventKind)
      (address : TimelineAddress) (payload : VerifiedReplayPayload) (hmac : String)
  | nonBody (world : ValidatedWorldPath) (generation : WorldGeneration) (seq : TimelineSeq) (kind : AuditEventKind)
      (eventTarget : ValidatedWorldPath) (payload : VerifiedReplayPayload)
      (deleteSubject : Option DeleteSubjectProof) (hmac : String)
deriving DecidableEq

/-- `VerifiedReplayAfter`. -/
inductive VerifiedReplayAfter where
  | events (events : List VerifiedReplayEvent)
  | generationMismatch
  | missingMarker
  | replayLimitExceeded
deriving DecidableEq

/-- `load_event_identity`. -/
def loadEventIdentity (db : Database) (seq : TimelineSeq) : SqlResult (Option TimelineEventIdentity) :=
  match db.events.find? (·.id = seq.get) with
  | none => pure none
  | some e => do
    let identity ← e.identity
    pure (some identity)

/-- `name LIKE pattern` on a stored name. Behind a verified chain every name is a text or `NULL`. -/
def SqlValue.like (pattern : String) : SqlValue → Bool
  | .text name => sqlLike pattern.toList name.toList
  | _ => false

/-- The query of `delete_subject_proof_for_replay_event`. -/
def Database.deleteSubjectRows (db : Database) (seq : TimelineSeq) : List EventHeaderRow :=
  (db.eventHeaders.filter fun row => row.eventId = .integer seq.get && row.name.like deleteSubjectPattern).insertionSort
    fun a b => toLex (a.name.sortKey, a.value.sortKey) ≤ toLex (b.name.sortKey, b.value.sortKey)

/-- `delete_subject_proof_for_replay_event`. -/
def deleteSubjectProofForReplayEvent (db : Database) (seq : TimelineSeq) (kind : AuditEventKind)
    (target : ValidatedWorldPath) (bodySha256 : BodySha256) : SqlResult (Option DeleteSubjectProof) :=
  if !kind.isDelete then pure none
  else do
    let headers ← (db.deleteSubjectRows seq).mapM fun row => do
      let name ← row.name.getString
      let value ← row.value.getString
      pure (name, value)
    (deleteSubjectProofFromHeaders target bodySha256 headers).mapError fun _ =>
      corruptError "delete subject proof is invalid"

/-- One row in the loop of `verified_replay_events_after_via_conn`. Every kind is subscribable. -/
def replayRow (world : ValidatedWorldPath) (generation : WorldGeneration) (db : Database) (e : EventRecord) :
    SqlResult VerifiedReplayEvent := do
  let seq ← (TimelineSeq.new e.id).mapError fun _ => corruptError "events.id is not positive"
  let eventType ← e.eventType.getString
  let kind ← requireSome (corruptError "events.event_type is not a known audit event")
    (AuditEventKind.fromStorage eventType)
  let target ← e.target.getString
  let rawBodySha256 ← e.bodySha256.getString
  let size ← e.size.getI64
  rejectIf (size < 0) (corruptError "events.size is negative")
  let contentType ← e.contentType.getString
  let hmac ← e.hmac.getString
  let bodySha256 ← (BodySha256.new rawBodySha256).mapError fun error =>
    corruptError ("events.body_sha256 is invalid: " ++ error)
  if kind.bodyBearing then do
    rejectIf (target ≠ world.name) (corruptError "events.target does not match requested world")
    pure (.body world generation seq kind ⟨world, generation, seq, bodySha256⟩ ⟨bodySha256, size, contentType⟩ hmac)
  else
    match ValidatedWorldPath.fromCanonical target with
    | .error _ => throw (corruptError "events.target is not a canonical world")
    | .ok eventTarget => do
      let deleteSubject ← deleteSubjectProofForReplayEvent db seq kind eventTarget bodySha256
      pure (.nonBody world generation seq kind eventTarget ⟨bodySha256, size, contentType⟩ deleteSubject hmac)

/-- The loop of `verified_replay_events_after_via_conn`: read rows until the limit is reached and say whether a row
was left. -/
def collectUpTo {α β : Type} (read : α → SqlResult β) (limit : Nat) : List α → List β → SqlResult (List β × Bool)
  | [], events => pure (events, false)
  | row :: rows, events =>
    if limit ≤ events.length then pure (events, true)
    else do
      let event ← read row
      collectUpTo read limit rows (events ++ [event])

/-- `i64::try_from(limit.saturating_add(1)).unwrap_or(i64::MAX)`. -/
def replayQueryLimit (limit : Nat) : Nat := min (min (limit + 1) usizeMax) i64Max

/-- `verified_replay_events_after_via_conn`. -/
def verifiedReplayEventsAfter [HashSuite] (key : AuditHmacKey) (world : ValidatedWorldPath)
    (requested : WorldGeneration) (after : TimelineSeq) (limit : Nat) (db : Database) :
    AuditResult VerifiedReplayAfter := do
  requireWorldIntact key world db
  let actual ← liftSql (generation db)
  if actual ≠ requested then pure .generationMismatch
  else
    match ← liftSql (loadEventIdentity db after) with
    | none => pure .missingMarker
    | some marker =>
      let kind ← liftSql marker.kindOrCorrupt
      rejectIf (kind.bodyBearing && !marker.targetMatches world)
        (.storage (corruptError "events.target does not match requested world"))
      let rows := (db.eventsAsc.filter fun e => after.get < e.id).take (replayQueryLimit limit)
      let (events, overLimit) ← liftSql (collectUpTo (replayRow world actual db) limit rows [])
      pure (if overLimit then .replayLimitExceeded else .events events)

/-- A committed row as it was reported, with the delete subject that was signed into it. -/
structure CommittedRow where
  row : AppendedAuditRow
  deleteSubject : Option DeleteSubjectProof
deriving DecidableEq

/-- The event that a replay returns for a committed row. -/
def CommittedRow.replayEvent (r : CommittedRow) : VerifiedReplayEvent :=
  if r.row.eventType.bodyBearing then
    .body r.row.world r.row.generation r.row.id r.row.eventType
      ⟨r.row.world, r.row.generation, r.row.id, r.row.bodySha256⟩ ⟨r.row.bodySha256, r.row.size, r.row.contentType⟩
      r.row.hmac
  else
    .nonBody r.row.world r.row.generation r.row.id r.row.eventType r.row.target
      ⟨r.row.bodySha256, r.row.size, r.row.contentType⟩ r.deleteSubject r.row.hmac

/-- The rows behind a marker. -/
def rowsAfter (rows : List CommittedRow) (after : TimelineSeq) : List CommittedRow :=
  rows.filter fun r => after.get < r.row.id.get

/-- What a replay of committed rows returns. -/
def replayOf (rows : List CommittedRow) (actual requested : WorldGeneration) (after : TimelineSeq) (limit : Nat) :
    VerifiedReplayAfter :=
  if actual ≠ requested then .generationMismatch
  else if ∀ r ∈ rows, r.row.id ≠ after then .missingMarker
  else if limit < (rowsAfter rows after).length then .replayLimitExceeded
  else .events ((rowsAfter rows after).map CommittedRow.replayEvent)

section Collect

variable {α β : Type} {read : α → SqlResult β} {limit : Nat}

/-- Rows within the limit are all read. -/
theorem collectUpTo_eq {rows : List α} {events before : List β}
    (h : List.Forall₂ (fun row event => read row = .ok event) rows events)
    (hlimit : before.length + rows.length ≤ limit) :
    collectUpTo read limit rows before = .ok (before ++ events, false) := by
  induction h generalizing before with
  | nil => simp [collectUpTo, pure, Except.pure]
  | @cons row event rows events hread _ ih =>
    rw [List.length_cons] at hlimit
    rw [collectUpTo, if_neg (by omega), hread, ok_bind, ih (by simp; omega)]
    simp

/-- A row beyond the limit is noticed. -/
theorem collectUpTo_over {rows : List α} {events before : List β}
    (h : List.Forall₂ (fun row event => read row = .ok event) rows events) (hbefore : before.length ≤ limit)
    (hlimit : limit < before.length + rows.length) :
    ∃ collected, collectUpTo read limit rows before = .ok (collected, true) := by
  induction h generalizing before with
  | nil =>
    simp only [List.length_nil, Nat.add_zero] at hlimit
    omega
  | @cons row event rows events hread _ ih =>
    rw [List.length_cons] at hlimit
    by_cases hfull : limit ≤ before.length
    · exact ⟨before, by rw [collectUpTo, if_pos hfull]; rfl⟩
    · obtain ⟨collected, hcollected⟩ := @ih (before ++ [event]) (by simp; omega) (by simp; omega)
      exact ⟨collected, by rw [collectUpTo, if_neg hfull, hread, ok_bind, hcollected]⟩

/-- A query with the replay limit tells whether there are more rows than the limit, and reads them all otherwise. -/
theorem collectUpTo_query {rows : List α} {events : List β}
    (h : List.Forall₂ (fun row event => read row = .ok event) rows events) (hrows : rows.length ≤ i64Max)
    (limit : Nat) : ∃ collected, collectUpTo read limit (rows.take (replayQueryLimit limit)) [] =
        .ok (collected, decide (limit < rows.length)) ∧ (rows.length ≤ limit → collected = events) := by
  have hmax : i64Max ≤ usizeMax := by decide
  by_cases hlimit : rows.length ≤ limit
  · have htake : rows.take (replayQueryLimit limit) = rows :=
      List.take_of_length_le (by rw [replayQueryLimit]; omega)
    refine ⟨events, ?_, fun _ => rfl⟩
    rw [htake, collectUpTo_eq h (by simpa using hlimit), decide_eq_false (not_lt.mpr hlimit), List.nil_append]
  · have htaken : limit < (rows.take (replayQueryLimit limit)).length := by
      rw [List.length_take, replayQueryLimit]
      omega
    have hover : ∃ collected, collectUpTo read limit (rows.take (replayQueryLimit limit)) [] = .ok (collected, true) :=
      collectUpTo_over (List.forall₂_take _ h) (Nat.zero_le limit)
        (by rw [List.length_nil, Nat.zero_add]; exact htaken)
    obtain ⟨collected, hcollected⟩ := hover
    exact ⟨collected, by rw [hcollected, decide_eq_true (not_le.mp hlimit)], fun hle => absurd hle hlimit⟩

end Collect

section

variable [HashSuite] {key : AuditHmacKey} {world : ValidatedWorldPath} {generation : WorldGeneration}
  {entries : List LogEntry} {rows : List CommittedRow} {log : WorldLog} {db : Database}

variable (key world generation entries) in
/-- A committed row tells everything about its event. -/
structure CommittedRow.Reports (r : CommittedRow) (e : LogEntry) : Prop where
  records : r.row.Records key world generation entries e
  size : 0 ≤ e.size
  subject : if e.kind.isDelete then
      deleteSubjectProofFromHeaders e.target e.bodySha256 e.headers = .ok r.deleteSubject
    else r.deleteSubject = none

variable (key world generation) in
/-- The rows of a history as they were reported one after the other. -/
inductive ReportedRows : List CommittedRow → List LogEntry → Prop where
  | nil : ReportedRows [] []
  | snoc {rows : List CommittedRow} {entries : List LogEntry} {r : CommittedRow} {e : LogEntry}
      (h : ReportedRows rows entries) (hr : r.Reports key world generation entries e) :
      ReportedRows (rows ++ [r]) (entries ++ [e])

/-- The row of an event as it stands in the chain and as it was reported. -/
structure CommittedRow.Matches (key : AuditHmacKey) (world : ValidatedWorldPath) (generation : WorldGeneration)
    (event : EventRow × Headers) (r : CommittedRow) (e : LogEntry) (prev : String) : Prop where
  rendered : event = (e.row key world generation r.row.id.get prev, e.headers)
  fields : r.row = ⟨world, r.row.id, event.1.hmac, generation, e.kind, e.target, e.bodySha256, e.size, e.contentType⟩
  size : 0 ≤ e.size
  subject : if e.kind.isDelete then
      deleteSubjectProofFromHeaders e.target e.bodySha256 e.headers = .ok r.deleteSubject
    else r.deleteSubject = none

/-- The reported rows are those of the chain. -/
theorem ReportedRows.matches (h : ReportedRows key world generation rows entries) :
    List.Forall₂ (fun event r => ∃ e ∈ entries, ∃ prev, r.Matches key world generation event e prev)
      (render key world generation entries) rows := by
  induction h with
  | nil => exact .nil
  | @snoc rows entries r e h hr ih =>
    rw [render_append]
    refine List.rel_append (ih.imp ?_) (.cons ?_ .nil)
    · rintro event r ⟨e, he, hmatches⟩
      exact ⟨e, List.mem_append_left _ he, hmatches⟩
    · refine ⟨e, List.mem_append_right _ (List.mem_singleton.mpr rfl), chainHead key world generation entries, ?_,
        ?_, hr.size, hr.subject⟩
      · rw [hr.records.seq]
      · rw [← chainHead_append]
        exact hr.records.fields

/-- The headers that the replay query selects of an event. -/
theorem Represents.deleteSubjectRows_read (h : Represents key world log db) {event : EventRow × Headers}
    (hevent : event ∈ render key world log.generation log.entries) {seq : TimelineSeq} (hseq : seq.get = event.1.id) :
    ∃ headers, ((db.deleteSubjectRows seq).mapM fun row => do
      let name ← row.name.getString
      let value ← row.value.getString
      pure (name, value)) = (.ok headers : SqlResult Headers) ∧ headers.Perm (selectDeleteSubject event.2) := by
  let stored (header : String × String) : EventHeaderRow := ⟨.integer event.1.id, .text header.1, .text header.2⟩
  have hown : db.eventHeaders.filter (fun row => row.eventId = .integer event.1.id) = event.2.map stored := by
    rw [h.chain.headers, filter_headerRows (ascendingIds_render _) hevent]
    simp [headerRows, stored]
  have hselected : (db.eventHeaders.filter fun row =>
      row.eventId = .integer seq.get && row.name.like deleteSubjectPattern) =
      (selectDeleteSubject event.2).map stored := by
    simp_rw [Bool.and_comm (decide _)]
    rw [← List.filter_filter, hseq, hown, List.filter_map]
    rfl
  have hsorted : db.deleteSubjectRows seq = ((selectDeleteSubject event.2).insertionSort fun a b =>
      toLex ((stored a).name.sortKey, (stored a).value.sortKey) ≤
        toLex ((stored b).name.sortKey, (stored b).value.sortKey)).map stored := by
    rw [Database.deleteSubjectRows, hselected]
    exact (List.map_insertionSort _ _ stored _ fun _ _ _ _ => Iff.rfl).symm
  refine ⟨_, ?_, List.perm_insertionSort (fun a b => toLex ((stored a).name.sortKey, (stored a).value.sortKey) ≤
    toLex ((stored b).name.sortKey, (stored b).value.sortKey)) _⟩
  rw [hsorted, List.mapM_map]
  exact List.mapM_pure.trans (congrArg pure (List.map_id _))

/-- A stored row is replayed as it was reported. -/
theorem CommittedRow.Matches.replayRow_eq (h : Represents key world log db) {event : EventRow × Headers}
    (hevent : event ∈ render key world log.generation log.entries) {r : CommittedRow} {e : LogEntry} {prev : String}
    (hmatches : r.Matches key world log.generation event e prev) (he : e ∈ log.entries) :
    replayRow world log.generation db event.1.record = .ok r.replayEvent := by
  have hvalid := h.valid e he
  obtain ⟨hrendered, hfields, hsize, hsubject⟩ := hmatches
  have hid : r.row.id.get = event.1.id := by rw [hrendered]; rfl
  have hread : deleteSubjectProofForReplayEvent db r.row.id e.kind e.target e.bodySha256 = .ok r.deleteSubject := by
    unfold deleteSubjectProofForReplayEvent
    cases hdelete : e.kind.isDelete with
    | false =>
      rw [hdelete] at hsubject
      exact congrArg Except.ok hsubject.symm
    | true =>
      rw [hdelete, if_pos rfl] at hsubject
      obtain ⟨headers, hheaders, hperm⟩ := h.deleteSubjectRows_read hevent hid
      have hall : deleteSubjectProofFromHeaders e.target e.bodySha256 headers = .ok r.deleteSubject := by
        rw [deleteSubjectProofFromHeaders_perm _ _ hperm, hrendered, deleteSubjectProofFromHeaders_select, hsubject]
      simp only [Bool.not_true, Bool.false_eq_true, if_false, hheaders, ok_bind, hall, Except.mapError]
  subst hrendered
  rw [CommittedRow.replayEvent, hfields]
  cases hbearing : e.kind.bodyBearing with
  | false =>
    simp [replayRow, EventRow.record, LogEntry.row, Except.mapError, SqlValue.getString, SqlValue.getI64, requireSome,
      AuditEventKind.fromStorage_asStr, BodySha256.new_text, hbearing, hread, not_lt.mpr hsize, pure, Except.pure]
  | true =>
    have htarget : e.target.name = world.name := congrArg ValidatedWorldPath.name (hvalid.target (.inl hbearing))
    simp [replayRow, EventRow.record, LogEntry.row, Except.mapError, SqlValue.getString, SqlValue.getI64, requireSome,
      AuditEventKind.fromStorage_asStr, BodySha256.new_text, hbearing, htarget, not_lt.mpr hsize, pure, Except.pure]

/-- The rows behind a marker are read as they were reported. -/
theorem ReportedRows.read_after (h : Represents key world log db)
    (hrows : ReportedRows key world log.generation rows log.entries) (after : TimelineSeq) :
    List.Forall₂ (fun e event => replayRow world log.generation db e = .ok event)
      (db.eventsAsc.filter fun e => after.get < e.id) ((rowsAfter rows after).map CommittedRow.replayEvent) := by
  have hread : List.Forall₂ (fun (event : EventRow × Headers) (r : CommittedRow) => event.1.id = r.row.id.get ∧
      replayRow world log.generation db event.1.record = .ok r.replayEvent)
      (render key world log.generation log.entries) rows := by
    rw [List.forall₂_iff_get]
    refine ⟨hrows.matches.length_eq, fun i hi hi' => ?_⟩
    obtain ⟨e, he, prev, hmatches⟩ := hrows.matches.get hi hi'
    exact ⟨by rw [hmatches.rendered]; rfl, hmatches.replayRow_eq h (List.get_mem _ _) he⟩
  rw [h.chain.eventsAsc_eq, h.chain.events, List.filter_map, rowsAfter, List.forall₂_map_left_iff,
    List.forall₂_map_right_iff]
  refine (List.rel_filter ?_ hread).imp fun _ _ hboth => hboth.2
  intro event r hboth
  simp [EventRow.record, hboth.1]

/-- The reported rows have the ids of the stored ones. -/
theorem ReportedRows.ids (h : Represents key world log db)
    (hrows : ReportedRows key world log.generation rows log.entries) :
    db.events.map EventRecord.id = rows.map fun r => r.row.id.get := by
  rw [h.chain.events, List.map_map, ← List.forall₂_eq_eq_eq, List.forall₂_map_left_iff, List.forall₂_map_right_iff]
  refine hrows.matches.imp ?_
  rintro event r ⟨e, -, prev, hmatches⟩
  rw [hmatches.rendered]
  rfl

/-- A marker is missing exactly when no reported row has its id. -/
theorem ReportedRows.find_eq_none (h : Represents key world log db)
    (hrows : ReportedRows key world log.generation rows log.entries) (after : TimelineSeq) :
    db.events.find? (·.id = after.get) = none ↔ ∀ r ∈ rows, r.row.id ≠ after := by
  have hnone : db.events.find? (·.id = after.get) = none ↔ after.get ∉ db.events.map EventRecord.id := by
    simp [List.find?_eq_none]
  rw [hnone, hrows.ids h]
  simp [TimelineSeq.ext_iff]

/-- A stored row passes the checks of a marker. -/
theorem Represents.marker_eq (h : Represents key world log db) {after : TimelineSeq} {e : EventRecord}
    (hfound : db.events.find? (·.id = after.get) = some e) :
    ∃ marker kind, loadEventIdentity db after = .ok (some marker) ∧ marker.kindOrCorrupt = .ok kind ∧
      (kind.bodyBearing && !marker.targetMatches world) = false := by
  obtain ⟨i, hi, prev, -, rfl, -⟩ := h.find_event hfound
  refine ⟨⟨log.entries[i].kind.asStr, log.entries[i].target.name, log.entries[i].bodySha256.text⟩,
    log.entries[i].kind, ?_, ?_, ?_⟩
  · rw [loadEventIdentity, hfound]
    rfl
  · rw [TimelineEventIdentity.kindOrCorrupt, AuditEventKind.fromStorage_asStr]
    rfl
  · cases hbearing : log.entries[i].kind.bodyBearing with
    | false => rfl
    | true =>
      rw [TimelineEventIdentity.targetMatches, (h.valid _ (List.getElem_mem hi)).target (.inl hbearing)]
      simp

/-- A stored history with events is replayed as it was reported. -/
theorem Represents.replay_eq (h : Represents key world log db) (hne : log.entries ≠ [])
    (hrows : ReportedRows key world log.generation rows log.entries) (requested : WorldGeneration)
    (after : TimelineSeq) (limit : Nat) :
    verifiedReplayEventsAfter key world requested after limit db =
      .ok (replayOf rows log.generation requested after limit) := by
  have hread := hrows.read_after h after
  have hlength : (db.eventsAsc.filter fun e => after.get < e.id).length = (rowsAfter rows after).length := by
    rw [hread.length_eq, List.length_map]
  have hbound : (db.eventsAsc.filter fun e => after.get < e.id).length ≤ i64Max := by
    refine (List.length_filter_le _ _).trans ?_
    rw [h.chain.eventsAsc_eq, h.chain.events, List.length_map, length_render]
    exact h.chain.bounded
  obtain ⟨collected, hcollected, hall⟩ := collectUpTo_query hread hbound limit
  rw [verifiedReplayEventsAfter, h.requireWorldIntact_eq hne, h.generation_eq, replayOf]
  simp only [liftSql, Except.mapError, ok_bind]
  split_ifs with hgeneration hmissing hover
  · rfl
  · rw [loadEventIdentity, (hrows.find_eq_none h after).mpr hmissing]
    rfl
  all_goals
    obtain ⟨e, hfound⟩ := Option.ne_none_iff_exists'.mp (mt (hrows.find_eq_none h after).mp hmissing)
    obtain ⟨marker, kind, hload, hkind, hcheck⟩ := h.marker_eq hfound
    simp only [hload, hkind, hcheck, rejectIf, Bool.false_eq_true, if_false, ok_bind, hcollected, hlength]
  · rw [decide_eq_true hover]
    rfl
  · rw [decide_eq_false hover, hall (hlength ▸ not_lt.mp hover)]
    rfl

/-- The chain of a world without events is not intact. -/
theorem requireWorldIntact_nil (hevents : db.events = []) : requireWorldIntact key world db ≠ .ok () := by
  intro hintact
  have hunique : db.UniqueIds := by rw [Database.UniqueIds, hevents]; exact .nil
  obtain ⟨_, _, chain, _, -, -, hdecoded, hfold, -, hcount⟩ :=
    requireChainIntact_walk hunique (requireChainIntact_of_world hintact)
  rw [Database.eventsAsc, hevents] at hdecoded
  cases hdecoded
  cases hfold
  exact hcount rfl

/-- A world without events is never replayed. -/
theorem replay_nil (hevents : db.events = []) (requested : WorldGeneration) (after : TimelineSeq) (limit : Nat) :
    ∃ error, verifiedReplayEventsAfter key world requested after limit db = .error error := by
  cases hintact : requireWorldIntact key world db with
  | error error => exact ⟨error, by rw [verifiedReplayEventsAfter, hintact]; rfl⟩
  | ok => exact absurd hintact (requireWorldIntact_nil hevents)

end

end AuditeDB
