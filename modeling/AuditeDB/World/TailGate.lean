import Mathlib
import AuditeDB.World.Intact

/-!
# Reads of stored histories

The gate in front of reads looks at the newest event only. It accepts every stored history with at least one
event, and the read returns the newest body with the newest HMAC.
-/

namespace AuditeDB

open Utf8 Results HashChain

/-- Collecting further rows of one event adds their headers. -/
theorem collectTail_same {e : EventRecord} {row : EventRow} (hread : e.read = .ok row) {rows : List JoinedRow}
    (hrows : ∀ r ∈ rows, r.event = e) {headers decoded : Headers}
    (hdecode : decodeHeaders headers rows = .ok decoded) :
    collectTail rows (some row) headers = .ok (some (row, decoded)) := by
  induction rows generalizing headers with
  | nil =>
    cases hdecode
    rfl
  | cons r rest ih =>
    obtain ⟨hr, hrest⟩ := List.forall_mem_cons.mp hrows
    rw [decodeHeaders, List.foldlM_cons] at hdecode
    simp only [bind_eq_ok, pure_eq_ok] at hdecode
    obtain ⟨_, ⟨name, hname, value, hvalue, rfl⟩, hdecode⟩ := hdecode
    simp only [collectTail, hr, hread, hname, hvalue, ok_bind, Option.getD_some, Option.mem_def,
      Option.some.injEq, exists_eq_left', ne_eq, not_true, rejectIf_false]
    exact ih hrest hdecode

/-- The rows of one event are collected to the decoded event. -/
theorem collectTail_event {db : Database} {e : EventRecord} {event : EventRow × Headers}
    (hdecode : db.decodeEvent e = .ok event) :
    collectTail (db.sortedHeaders e) none [] = .ok (some event) := by
  obtain ⟨hread, hheaders⟩ := Database.decodeEvent_eq_ok.mp hdecode
  have hrows : ∀ r ∈ db.sortedHeaders e, r.event = e := fun r hr => Database.event_of_mem_sortedHeaders hr
  obtain ⟨first, rest, hcons⟩ := List.exists_cons_of_ne_nil (db.sortedHeaders_ne_nil e)
  rw [hcons] at hrows hheaders ⊢
  obtain ⟨hfirst, hrest⟩ := List.forall_mem_cons.mp hrows
  rw [decodeHeaders, List.foldlM_cons] at hheaders
  simp only [bind_eq_ok, pure_eq_ok] at hheaders
  obtain ⟨_, ⟨name, hname, value, hvalue, rfl⟩, hheaders⟩ := hheaders
  simp only [collectTail, hfirst, hread, hname, hvalue, ok_bind, Option.getD_none, Option.mem_def,
    reduceCtorEq, false_and, exists_false, rejectIf_false]
  exact collectTail_same hread hrest hheaders

variable [HashSuite] {key : AuditHmacKey} {world : ValidatedWorldPath} {generation : WorldGeneration}
  {db : Database} {entries : List LogEntry} {e : LogEntry}

namespace Database.HasChain

/-- The row of the newest event. -/
def lastRow (key : AuditHmacKey) (world : ValidatedWorldPath) (generation : WorldGeneration)
    (entries : List LogEntry) (e : LogEntry) : EventRow × Headers :=
  (e.row key world generation (entries.length + 1) (chainHead key world generation entries), e.headers)

/-- The rows of a history that ends in an event. -/
theorem events_append (h : db.HasChain key world generation (entries ++ [e])) :
    db.events = (render key world generation entries).map (fun event => event.1.record) ++
      [(lastRow key world generation entries e).1.record] := by
  rw [h.events, render_append, List.map_append]
  rfl

/-- The newest event is read with its headers. -/
theorem latestEventWithHeaders_eq (h : db.HasChain key world generation (entries ++ [e])) :
    latestEventWithHeaders db = .ok (some (lastRow key world generation entries e)) := by
  have hlast : db.eventsDesc.head? = some (lastRow key world generation entries e).1.record := by
    rw [h.eventsDesc_eq, List.head?_reverse, h.events_append, List.getLast?_append]
    rfl
  have honly : db.events.filter (·.id = (lastRow key world generation entries e).1.record.id) =
      [(lastRow key world generation entries e).1.record] := by
    have hasc := h.ascending
    rw [h.events_append] at hasc ⊢
    rw [List.filter_append, List.filter_eq_nil_iff.mpr]
    · simp
    · intro row hrow
      have := (List.pairwise_append.mp hasc).2.2 row hrow _ (List.mem_singleton_self _)
      simpa using this.ne
  have hdecode : db.decodeEvent (lastRow key world generation entries e).1.record =
      .ok (lastRow key world generation entries e) := by
    refine h.decodeEvent_eq ?_
    rw [render_append]
    exact List.mem_append_right _ (List.mem_singleton_self _)
  have hselect : db.auditTailSelect = db.sortedHeaders (lastRow key world generation entries e).1.record := by
    rw [Database.auditTailSelect, hlast]
    simp only [honly, List.flatMap_cons, List.flatMap_nil, List.append_nil]
    rfl
  rw [latestEventWithHeaders, hselect, collectTail_event hdecode]

/-- The HMAC before the newest event. -/
theorem previousHmac_eq (h : db.HasChain key world generation (entries ++ [e])) :
    previousHmac db (lastRow key world generation entries e).1.id =
      .ok (chainHead key world generation entries) := by
  have hasc := h.ascending
  rw [h.events_append] at hasc
  have hbefore : db.eventsDesc.filter (·.id < (lastRow key world generation entries e).1.id) =
      ((render key world generation entries).map fun event => event.1.record).reverse := by
    rw [h.eventsDesc_eq, List.filter_reverse, h.events_append, List.filter_append, List.filter_eq_self.mpr]
    · simp [EventRow.record]
    · intro row hrow
      exact decide_eq_true ((List.pairwise_append.mp hasc).2.2 row hrow _ (List.mem_singleton_self _))
  rw [previousHmac, hbefore, List.head?_reverse, List.getLast?_map, chainHead, headFrom]
  cases (render key world generation entries).getLast? <;> rfl

end Database.HasChain

/-- The tail check accepts the row of a valid event after the HMAC that it names. -/
theorem verifyTailEvent_eq (he : e.Valid world) (eventCount : Nat) :
    verifyTailEvent key world generation (Database.HasChain.lastRow key world generation entries e)
      (chainHead key world generation entries) eventCount = .ok () := by
  have hretained : RetainedEvent .tailUnchecked
      (Database.HasChain.lastRow key world generation entries e).1 := by
    refine ⟨?_, fun _ hfloor => (by cases hfloor), fun _ hfloor => (by cases hfloor)⟩
    simp only [Database.HasChain.lastRow, LogEntry.row]
    omega
  have hsaw : (VerifyAccumulator.tail (chainHead key world generation entries) eventCount).Saw
      .tailUnchecked [] := by
    constructor <;> simp [VerifyAccumulator.tail, CasRetentionState.tailUnchecked]
  obtain ⟨state, hstate, -⟩ := verifyEvent_ok (he.signed _ _) hretained rfl hsaw
  exact bind_eq_ok.mpr ⟨state, hstate, rfl⟩

namespace Represents

variable {log : WorldLog}

/-- The retained body of the newest event is there. -/
theorem verifyTailBody_eq (h : Represents key world log db) (hentries : log.entries = entries ++ [e])
    (idx : Nat) :
    verifyTailBody db (Database.HasChain.lastRow key world log.generation entries e).1 idx = .ok none := by
  obtain ⟨floor, hfloor, hget⟩ := h.firstRetainedSeq_eq
  have hkind : AuditEventKind.fromStorage
      (Database.HasChain.lastRow key world log.generation entries e).1.eventType = some e.kind :=
    AuditEventKind.fromStorage_asStr e.kind
  have hfits := h.floor
  unfold verifyTailBody
  simp only [hkind, hfloor, ok_bind]
  cases floor with
  | none =>
    -- without a floor the newest event has no body
    have hlog : log.floor = none := by simpa using hget.symm
    rw [hlog] at hfits
    have hbearing : e.kind.bodyBearing = false := hfits e (by rw [hentries]; simp)
    simp [hbearing, pure, Except.pure]
  | some seq =>
    rw [Option.map_some, eq_comm, Option.map_eq_some_iff] at hget
    obtain ⟨f, hf, hcast⟩ := hget
    rw [hf] at hfits
    obtain ⟨hpositive, first, hat, hfirst⟩ := hfits
    have hid : (Database.HasChain.lastRow key world log.generation entries e).1.id = entries.length + 1 := rfl
    have hlength : log.entries.length = entries.length + 1 := by rw [hentries]; simp
    have hle : f ≤ entries.length + 1 := by
      have := (List.getElem?_eq_some_iff.mp hat).1
      omega
    cases hbearing : e.kind.bodyBearing with
    | false =>
      -- the floor is a body event, so it is not the newest event
      have hne : f ≠ entries.length + 1 := by
        rintro rfl
        rw [hentries, Nat.add_sub_cancel, List.getElem?_concat_length, Option.some.injEq] at hat
        rw [hat, hfirst] at hbearing
        cases hbearing
      have hnot : ¬ ((entries.length : Int) + 1 = seq.get) := by omega
      simp [hid, hnot, pure, Except.pure]
    | true =>
      have hretained : e ∈ retainedEntries log.floor log.entries :=
        mem_retainedEntries.mpr ⟨f, hf, entries.length, by omega, hle, by simp [hentries], hbearing⟩
      obtain ⟨body, hfound, hdigest, hsize, hbound⟩ := h.find_casBody hretained
      have hnew : BodySha256.new (Database.HasChain.lastRow key world log.generation entries e).1.bodySha256 =
          .ok e.bodySha256 := BodySha256.new_text e.bodySha256
      have hrow : (Database.HasChain.lastRow key world log.generation entries e).1.size = e.size := rfl
      have hnot : ¬ ((entries.length : Int) + 1 < seq.get) := by omega
      simp [hid, hnot, hnew, hfound, casRow, SqlValue.getBytes, hdigest, not_lt.mpr hbound, hrow, hsize, pure,
        Except.pure]

/-- The gate in front of reads accepts a stored history with at least one event. -/
theorem requireCurrentTailIntact_eq (h : Represents key world log db) (hne : log.entries ≠ []) :
    requireCurrentTailIntact key world db = .ok () := by
  obtain ⟨entries, e, hentries⟩ := (List.eq_nil_or_concat' log.entries).resolve_left hne
  have hchain := h.chain
  rw [hentries] at hchain
  have he : e.Valid world := h.valid e (by rw [hentries]; simp)
  simp only [requireCurrentTailIntact, h.generation_eq, hchain.latestEventWithHeaders_eq,
    hchain.previousHmac_eq, verifyTailEvent_eq he, h.verifyTailBody_eq hentries, h.verifyLiveBody_eq, liftSql,
    liftBreak, Except.mapError, requireSome, ok_bind]
  rfl

/-- The representation headers can be read. -/
theorem readMetaHeaders_ok (h : Represents key world log db) : ∃ headers, readMetaHeaders db = .ok headers := by
  refine exists_mapM_eq_ok fun row hrow => ?_
  rw [Database.metaHeadersByName, List.mem_insertionSort, h.metaHeaders] at hrow
  obtain ⟨header, -, rfl⟩ := List.mem_map.mp hrow
  exact ⟨_, rfl⟩

/-- A read of a stored history returns its newest body and its metadata with its newest HMAC. -/
theorem readWithHmac_of_headers (h : Represents key world log db) (hne : log.entries ≠ []) {headers : Headers}
    (hheaders : readMetaHeaders db = .ok headers) :
    readWithHmac key world db = .ok (⟨bodyAfter log.entries, log.contentType, headers⟩,
      some (chainHead key world log.generation log.entries)) := by
  have hhmac : latestHmac db = .ok (some (chainHead key world log.generation log.entries)) := by
    obtain ⟨entries, e, hentries⟩ := (List.eq_nil_or_concat' log.entries).resolve_left hne
    rw [h.chain.latestHmac_eq, hentries, chainHead_append, render_append, List.getLast?_append]
    rfl
  simp only [readWithHmac, h.requireCurrentTailIntact_eq hne, h.stageMetaRow_eq, requireSome,
    SqlValue.getBytes, SqlValue.getString, hheaders, hhmac, liftSql, Except.mapError, ok_bind, pure,
    Except.pure]

/-- A stored history can be read. -/
theorem readWithHmac_eq (h : Represents key world log db) (hne : log.entries ≠ []) :
    ∃ headers, readWithHmac key world db = .ok (⟨bodyAfter log.entries, log.contentType, headers⟩,
      some (chainHead key world log.generation log.entries)) := by
  obtain ⟨headers, hheaders⟩ := h.readMetaHeaders_ok
  exact ⟨headers, h.readWithHmac_of_headers hne hheaders⟩

end Represents

end AuditeDB
