import Mathlib
import AuditeDB.World.Represents

/-!
# Stored histories pass the audit gates

A database that stores a history with at least one event is accepted by the full verification and by the gate
in front of reads.
-/

namespace AuditeDB

open Utf8 Results HashChain

variable [HashSuite] {key : AuditHmacKey} {world : ValidatedWorldPath} {log : WorldLog} {db : Database}

/-- The newest body event of a chain. -/
def newestBodyEvent (chain : List (EventRow × Headers)) : Option (EventRow × Headers) :=
  (chain.filter fun event => AuditEventKind.isBodyType (.text event.1.eventType)).getLast?

/-- A body that is the one of the newest body event, or empty when there is none. -/
def IsNewestBody (newest : Option (EventRow × Headers)) (body : Bytes) : Prop :=
  match newest with
  | none => body = []
  | some event => event.1.bodySha256 = (BodySha256.forBody body).text ∧ event.1.size = body.length ∧
      body.length ≤ i64Max

/-- The newest body event of a history is the one of the current body. -/
theorem isNewestBody_bodyAfter {generation : WorldGeneration} {entries : List LogEntry}
    (hvalid : ∀ e ∈ entries, e.Valid world) :
    IsNewestBody (newestBodyEvent (render key world generation entries)) (bodyAfter entries) := by
  induction entries using List.reverseRecOn with
  | nil => rfl
  | append_singleton entries e ih =>
    obtain ⟨hentries, he⟩ := List.forall_mem_append.mp hvalid
    have he := he e (List.mem_singleton_self e)
    unfold IsNewestBody newestBodyEvent at ih ⊢
    rw [render_append, List.filter_append]
    cases hcontent : e.content with
    | none =>
      have hbearing : e.kind.bodyBearing = false := by
        rw [← Bool.not_eq_true, he.bearing, hcontent]
        simp
      have hbody : bodyAfter (entries ++ [e]) = bodyAfter entries := by simp [bodyAfter, hcontent]
      simpa [LogEntry.row, hbearing, hbody] using ih hentries
    | some body =>
      have hbearing : e.kind.bodyBearing = true := by rw [he.bearing, hcontent]; rfl
      have hbody : bodyAfter (entries ++ [e]) = body := by simp [bodyAfter, hcontent]
      obtain ⟨hdigest, hsize, hlength⟩ := he.body body hcontent
      simp [LogEntry.row, hbearing, hbody, hdigest, hsize, hlength]

/-- A retention state that lists the retained bodies of a history with their sizes. -/
structure CasRetentionState.Lists (retention : CasRetentionState) (floor : Option Nat)
    (entries : List LogEntry) : Prop where
  sameFloor : retention.firstRetainedSeq.map TimelineSeq.get = floor.map Nat.cast
  lookup : ∀ e ∈ retainedEntries floor entries, retention.bodies.lookup e.bodySha256 = some e.size
  listed : ∀ digest ∈ retention.bodies, ∃ e ∈ retainedEntries floor entries, e.bodySha256 = digest

namespace CasRetentionState.Lists

variable {retention : CasRetentionState} {floor : Option Nat} {entries : List LogEntry}
  {generation : WorldGeneration}

omit [HashSuite] in
/-- The floor that was read is the one of the history. -/
theorem get_eq (h : retention.Lists floor entries) {seq : TimelineSeq}
    (hseq : seq ∈ retention.firstRetainedSeq) : ∃ f, floor = some f ∧ seq.get = f := by
  have hfloor := h.sameFloor
  rw [Option.mem_def.mp hseq, Option.map_some, eq_comm, Option.map_eq_some_iff] at hfloor
  obtain ⟨f, hf, hcast⟩ := hfloor
  exact ⟨f, hf, hcast.symm⟩

/-- The rows of a history pass the retention check. -/
theorem retainedEvent (h : retention.Lists floor entries) (hfits : FloorFits floor entries) :
    ∀ event ∈ render key world generation entries, RetainedEvent retention event.1 := by
  intro event hevent
  obtain ⟨i, hi, prev, rfl⟩ := mem_render hevent
  refine ⟨?_, ?_, ?_⟩
  · simp only [LogEntry.row]
    omega
  · intro seq hseq hid
    obtain ⟨f, rfl, hcast⟩ := h.get_eq hseq
    obtain ⟨hpositive, e, hat, hbearing⟩ := hfits
    simp only [LogEntry.row] at hid
    rw [show f - 1 = i by omega, List.getElem?_eq_getElem hi, Option.some.injEq] at hat
    simp [LogEntry.row, hat, hbearing]
  · rintro seq hseq ⟨hle, hbearing⟩
    obtain ⟨f, rfl, hcast⟩ := h.get_eq hseq
    refine ⟨entries[i].bodySha256, rfl, h.lookup _ ?_⟩
    refine mem_retainedEntries.mpr ⟨f, rfl, i, hi, ?_, rfl, by simpa [LogEntry.row] using hbearing⟩
    simp only [LogEntry.row] at hle
    omega

/-- The rows of a history reach its floor. -/
theorem reached (h : retention.Lists floor entries) (hfits : FloorFits floor entries) :
    ∀ seq ∈ retention.firstRetainedSeq,
      ∃ event ∈ render key world generation entries, event.1.id = seq.get := by
  intro seq hseq
  obtain ⟨f, rfl, hcast⟩ := h.get_eq hseq
  obtain ⟨hpositive, e, hat, -⟩ := hfits
  obtain ⟨prev, hrow⟩ := render_get entries (List.getElem?_eq_some_iff.mp hat).1
  refine ⟨_, List.mem_of_getElem? hrow, ?_⟩
  simp only [LogEntry.row]
  omega

/-- Every listed body belongs to a retained row. -/
theorem referenced (h : retention.Lists floor entries) :
    ∀ digest ∈ retention.bodies, ∃ seq ∈ retention.firstRetainedSeq,
      ∃ event ∈ render key world generation entries,
        event.1.Retained seq ∧ event.1.bodySha256 = digest.text := by
  intro digest hdigest
  obtain ⟨e, he, rfl⟩ := h.listed digest hdigest
  obtain ⟨f, hf, i, hi, hle, rfl, hbearing⟩ := mem_retainedEntries.mp he
  have hfloor := h.sameFloor
  rw [Option.mem_def.mp hf, Option.map_some, Option.map_eq_some_iff] at hfloor
  obtain ⟨seq, hseq, hcast⟩ := hfloor
  obtain ⟨prev, hrow⟩ := render_get entries hi
  refine ⟨seq, hseq, _, List.mem_of_getElem? hrow, ⟨?_, ?_⟩, rfl⟩
  · simp only [LogEntry.row]
    omega
  · simpa [LogEntry.row] using hbearing

end CasRetentionState.Lists

namespace Represents

/-- The live body belongs to the newest body event. -/
theorem verifyLiveBody_eq (h : Represents key world log db) : verifyLiveBody db = .ok none := by
  have htable : (db.schema.any fun e => e.kind = .table && e.name = "stage_meta") = true := by
    rw [List.any_eq_true]
    exact ⟨stageMetaTable, List.mem_of_find?_eq_some h.find_stageMeta, rfl⟩
  have hlatest : db.bodyEventsDesc.head? =
      (newestBodyEvent (render key world log.generation log.entries)).map fun event => event.1.record := by
    rw [Database.bodyEventsDesc, h.chain.eventsDesc_eq, h.chain.events, List.filter_reverse, List.head?_reverse,
      List.filter_map, List.getLast?_map]
    rfl
  have hnewest : IsNewestBody (newestBodyEvent (render key world log.generation log.entries))
      (bodyAfter log.entries) := isNewestBody_bodyAfter h.valid
  simp only [verifyLiveBody, htable, h.stageMetaRow_eq, latestBodyEvent, hlatest]
  cases hlast : newestBodyEvent (render key world log.generation log.entries) with
  | none =>
    rw [hlast, IsNewestBody] at hnewest
    simp [requireSome, SqlValue.getBytes, liveBodyHeadBreak, hnewest, pure, Except.pure]
  | some event =>
    rw [hlast] at hnewest
    obtain ⟨hdigest, hsize, hlength⟩ := hnewest
    simp [requireSome, SqlValue.getBytes, EventRow.record, SqlValue.getString, SqlValue.getI64,
      liveBodyHeadBreak, hdigest, hsize, hlength, pure, Except.pure]

/-- A stored event of a history is a row of one of its events. -/
theorem mem_events (h : Represents key world log db) {e : EventRecord} (he : e ∈ db.events) :
    ∃ i, ∃ hi : i < log.entries.length, ∃ prev,
      e = (log.entries[i].row key world log.generation (i + 1) prev).record := by
  rw [h.chain.events] at he
  obtain ⟨event, hevent, rfl⟩ := List.mem_map.mp he
  obtain ⟨i, hi, prev, rfl⟩ := mem_render hevent
  exact ⟨i, hi, prev, rfl⟩

/-- There are no body events before a floor is set. -/
theorem bodyEvents_eq_nil (h : Represents key world log db) (hfloor : log.floor = none) :
    db.bodyEvents = [] := by
  rw [Database.bodyEvents, List.filter_eq_nil_iff]
  intro e he
  obtain ⟨i, hi, prev, rfl⟩ := h.mem_events he
  have hfits := h.floor
  rw [hfloor] at hfits
  simp [LogEntry.row, EventRow.record, hfits _ (List.getElem_mem hi)]

/-- Retained rows are found by their digest. -/
theorem find_casBody (h : Represents key world log db) {e : LogEntry}
    (he : e ∈ retainedEntries log.floor log.entries) :
    ∃ body, db.casBody e.bodySha256.text = some (casRow body) ∧ BodySha256.forBody body = e.bodySha256 ∧
      e.size = body.length ∧ body.length ≤ i64Max := by
  obtain ⟨row, hrow, hdigest⟩ := (h.bodies.keys e.bodySha256).mpr ⟨e, he, rfl⟩
  have hfound : (db.casBodies.find? (·.bodySha256 = .text e.bodySha256.text)).isSome := by
    rw [List.find?_isSome]
    exact ⟨row, hrow, by simpa using hdigest⟩
  obtain ⟨found, hfound⟩ := Option.isSome_iff_exists.mp hfound
  obtain ⟨body, rfl, hlength, hsize⟩ := h.bodies.stored found (List.mem_of_find?_eq_some hfound)
  have hkey := List.find?_some hfound
  have hsame : BodySha256.forBody body = e.bodySha256 :=
    BodySha256.ext (SqlValue.text.inj (of_decide_eq_true hkey))
  exact ⟨body, hfound, hsame, hsize e he hsame.symm, hlength⟩

/-- The full load of the retention state succeeds and lists the retained bodies. -/
theorem load_eq (h : Represents key world log db) :
    ∃ retention, CasRetentionState.load db = .ok retention ∧ retention.Lists log.floor log.entries := by
  obtain ⟨floor, hfloor, hget⟩ := h.firstRetainedSeq_eq
  have hstored : ∀ row ∈ db.casBodies, ∃ body, row = casRow body ∧ body.length ≤ i64Max := by
    intro row hrow
    obtain ⟨body, hbody, hlength, -⟩ := h.bodies.stored row hrow
    exact ⟨body, hbody, hlength⟩
  obtain ⟨loaded, hloaded, hlookup⟩ := foldlM_loadHashedBody hstored h.bodies.nodup ∅
  have hempty : floor.isNone = true → loaded.entries = [] ∧ db.bodyEvents = [] := by
    intro hnone
    have hlog : log.floor = none := by
      rw [Option.isNone_iff_eq_none.mp hnone] at hget
      simpa using hget.symm
    constructor
    · have hrows : db.casBodies = [] := by
        rw [List.eq_nil_iff_forall_not_mem]
        intro row hrow
        obtain ⟨body, rfl, -⟩ := hstored row hrow
        obtain ⟨e, he, -⟩ := (h.bodies.keys (.forBody body)).mp ⟨_, hrow, rfl⟩
        rw [hlog] at he
        cases he
      rw [hrows] at hloaded
      cases hloaded
      rfl
    · exact h.bodyEvents_eq_nil hlog
  refine ⟨⟨floor, loaded⟩, ?_, hget, ?_, ?_⟩
  · rw [CasRetentionState.load, loadRetention, hfloor, ok_bind, hloaded, ok_bind]
    refine bind_eq_ok.mpr ⟨⟨⟩, rejectIf_eq_ok.mpr ?_, bind_eq_ok.mpr ⟨⟨⟩, rejectIf_eq_ok.mpr ?_, rfl⟩⟩
    · exact fun ⟨hnone, hne⟩ => hne (hempty hnone).1
    · exact fun ⟨hnone, hne⟩ => hne (hempty hnone).2
  · intro e he
    obtain ⟨body, hfound, -, hsize, -⟩ := h.find_casBody he
    rw [Database.casBody] at hfound
    rw [hlookup, hfound, hsize]
    rfl
  · intro digest hdigest
    obtain ⟨size, hsize⟩ := Option.isSome_iff_exists.mp (AList.lookup_isSome.mpr hdigest)
    rw [hlookup] at hsize
    split at hsize
    · next row hfound =>
      have hkey := List.find?_some hfound
      exact (h.bodies.keys digest).mp ⟨row, List.mem_of_find?_eq_some hfound, of_decide_eq_true hkey⟩
    · rw [AList.lookup_empty] at hsize
      cases hsize

/-- The walk over a stored history accepts it. -/
theorem verifyStatementCapture_eq (h : Represents key world log db) {retention : CasRetentionState}
    (hlists : retention.Lists log.floor log.entries) {allowEmpty : Bool}
    (hempty : log.entries ≠ [] ∨ allowEmpty = true) (capture : Option ChainSeq) :
    ∃ ok head read, verifyStatementCapture key retention world log.generation db.auditSelect allowEmpty capture =
      .ok (.valid ok head read) := by
  have hbound : (render key world log.generation log.entries).length ≤ i64Max := by
    rw [length_render]
    exact h.chain.bounded
  have hnil : render key world log.generation log.entries ≠ [] ∨ allowEmpty = true := by
    rwa [ne_eq, ← List.length_eq_zero_iff, length_render, List.length_eq_zero_iff]
  exact verifyStatementCapture_ok h.chain.uniqueIds h.chain.decode (linked_render log.entries)
    (signed_render h.valid) (hlists.retainedEvent h.floor) (hlists.reached h.floor) hlists.referenced hbound
    hnil capture

/-- A stored history with at least one event passes the full verification. -/
theorem requireWorldIntact_eq (h : Represents key world log db) (hne : log.entries ≠ []) :
    requireWorldIntact key world db = .ok () := by
  obtain ⟨retention, hload, hlists⟩ := h.load_eq
  exact requireWorldIntact_ok h.generation_eq hload (h.verifyStatementCapture_eq hlists (.inl hne) none)
    h.verifyLiveBody_eq

/-- A stored history with at least one event is accepted. -/
theorem verifyWorldWithFileOp_eq (h : Represents key world log db) (hne : log.entries ≠ []) :
    verifyWorldWithFileOp key world db = .ok () := by
  rw [verifyWorldWithFileOp, h.verifyOpenShape_eq, h.requireWorldIntact_eq hne]
  rfl

end Represents

end AuditeDB
