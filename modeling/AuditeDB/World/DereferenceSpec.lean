import Mathlib
import AuditeDB.Audit.Accepted
import AuditeDB.Audit.DeleteSubject
import AuditeDB.World.Dereference
import AuditeDB.World.Represents

/-!
# Dereferencing rows of accepted tables

In an accepted table a coordinate of a body row resolves to the retained body with its digest, or to a report
that the body has expired.
-/

namespace AuditeDB

open Utf8 Results HashChain

/-- The constraints of the created tables: unique row ids, headers without `NULL`, and one body a digest. -/
structure Database.Conforms (db : Database) : Prop where
  ids : db.UniqueIds
  headers : ∀ h ∈ db.eventHeaders, h.name ≠ .null ∧ h.value ≠ .null
  bodies : (db.casBodies.map CasBodyRow.bodySha256).Nodup

/-- Headers without `NULL` that can be collected can be read one by one. -/
theorem mapM_read_of_decodeHeaders {e : EventRecord} {rows : List EventHeaderRow}
    (hnull : ∀ h ∈ rows, h.name ≠ .null ∧ h.value ≠ .null) {before decoded : Headers}
    (h : decodeHeaders before (rows.map fun h => ⟨e, h.name, h.value⟩) = .ok decoded) :
    ∃ headers, (rows.mapM fun row => do
      let name ← row.name.getString
      let value ← row.value.getString
      pure (name, value)) = (.ok headers : SqlResult Headers) ∧ decoded = before ++ headers := by
  induction rows generalizing before with
  | nil =>
    cases h
    exact ⟨[], rfl, by simp⟩
  | cons row rest ih =>
    obtain ⟨⟨hname, hvalue⟩, hnull⟩ := List.forall_mem_cons.mp hnull
    rw [List.map_cons, decodeHeaders, List.foldlM_cons] at h
    simp only [bind_eq_ok, pure_eq_ok, SqlValue.getOptionString_eq_ok] at h
    obtain ⟨_, ⟨name, hreadName, value, hreadValue, rfl⟩, hrest⟩ := h
    cases name with
    | none => exact absurd hreadName hname
    | some name => cases value with
      | none => exact absurd hreadValue hvalue
      | some value =>
        obtain ⟨headers, hheaders, rfl⟩ := ih hnull hrest
        refine ⟨(name, value) :: headers, ?_, by simp [pushHeader]⟩
        rw [List.mapM_cons, hreadName, hreadValue, hheaders]
        rfl

/-- The snapshot of a decoded event. -/
def snapshotOf (event : EventRow × Headers) : TimelineEventSnapshot :=
  ⟨⟨event.1.eventType, event.1.target, event.1.bodySha256⟩, event.1.size, event.1.contentType, event.1.hmac,
    event.2⟩

/-- With unique ids a row is found by its id. -/
theorem Database.find_event {db : Database} (hunique : db.UniqueIds) {e : EventRecord} (he : e ∈ db.events) :
    db.events.find? (·.id = e.id) = some e := by
  have hfound : (db.events.find? (·.id = e.id)).isSome := by
    rw [List.find?_isSome]
    exact ⟨e, he, by simp⟩
  obtain ⟨e', he'⟩ := Option.isSome_iff_exists.mp hfound
  have hid := List.find?_some he'
  rw [he', List.inj_on_of_nodup_map hunique (List.mem_of_find?_eq_some he') he (of_decide_eq_true hid)]

/-- A row of a conforming table loads as the event that it decodes to. -/
theorem Database.Conforms.loadEventSnapshot_eq {db : Database} (hconforms : db.Conforms) {e : EventRecord}
    (he : e ∈ db.events) {event : EventRow × Headers} (hdecoded : db.decodeEvent e = .ok event)
    {seq : TimelineSeq} (hseq : seq.get = e.id) :
    loadEventSnapshot db seq = .ok (some (snapshotOf event)) := by
  obtain ⟨hread, hheaders⟩ := Database.decodeEvent_eq_ok.mp hdecoded
  have hcolumns := EventRecord.read_eq_ok.mp hread
  have hrows : ∃ headers, ((db.eventHeadersById e.id).mapM fun row => do
      let name ← row.name.getString
      let value ← row.value.getString
      pure (name, value)) = (.ok headers : SqlResult Headers) ∧ event.2 = headers := by
    have hnull : ∀ h ∈ db.eventHeadersById e.id, h.name ≠ .null ∧ h.value ≠ .null := fun h hh =>
      hconforms.headers h (List.mem_of_mem_filter ((List.mem_insertionSort _).mp hh))
    have hsorted : (db.eventHeadersById e.id).map (fun h => (⟨e, h.name, h.value⟩ : JoinedRow)) =
        ((db.eventHeaders.filter (·.eventId = .integer e.id)).map fun h =>
          (⟨e, h.name, h.value⟩ : JoinedRow)).insertionSort fun a b => a.headerKey ≤ b.headerKey :=
      List.map_insertionSort _ _ _ _ fun _ _ _ _ => Iff.rfl
    rw [Database.sortedHeaders, Database.joinHeaders] at hheaders
    split at hheaders
    · next hnil =>
      have hempty : db.eventHeadersById e.id = [] := by rw [Database.eventHeadersById, hnil]; rfl
      have hnone : [] = event.2 := Except.ok.inj hheaders
      exact ⟨[], by rw [hempty]; rfl, hnone.symm⟩
    · rw [← hsorted] at hheaders
      obtain ⟨headers, hmap, hsame⟩ := mapM_read_of_decodeHeaders hnull hheaders
      exact ⟨headers, hmap, by simpa using hsame⟩
  obtain ⟨headers, hmap, rfl⟩ := hrows
  rw [loadEventSnapshot, hseq, Database.find_event hconforms.ids he, hmap]
  rw [hcolumns]
  rfl

section

variable [HashSuite]

/-- A row that loads holds a body under its own digest. -/
theorem loadHashedBody_inv {bodies bodies' : RetainedBodies} {row : CasBodyRow}
    (h : loadHashedBody bodies row = .ok bodies') : ∃ body, row = casRow body ∧ body.length ≤ i64Max := by
  unfold loadHashedBody at h
  simp only [bind_eq_ok, rejectIf_eq_ok, SqlValue.getString_eq_ok, Bool.not_eq_true', Bool.not_eq_false,
    ctEqStr_iff] at h
  obtain ⟨digest, hdigest, body, hbody, -, hsame, -, hlength, -⟩ := h
  refine ⟨body, ?_, not_lt.mp hlength⟩
  cases row with | mk stored value =>
    cases value with
    | blob value =>
      cases hbody
      simp only at hdigest
      rw [hdigest, ← hsame]
      rfl
    | _ => cases hbody

/-- All rows of a table that loads hold bodies under their own digests. -/
theorem foldlM_loadHashedBody_inv {rows : List CasBodyRow} {bodies loaded : RetainedBodies}
    (h : rows.foldlM loadHashedBody bodies = .ok loaded) :
    ∀ row ∈ rows, ∃ body, row = casRow body ∧ body.length ≤ i64Max := by
  induction rows generalizing bodies with
  | nil => exact fun _ h => (by cases h)
  | cons row rest ih =>
    rw [List.foldlM_cons] at h
    obtain ⟨next, hnext, hrest⟩ := bind_eq_ok.mp h
    exact List.forall_mem_cons.mpr ⟨loadHashedBody_inv hnext, ih hrest⟩

/-- What the loaded retention state says about the table. -/
structure LoadedFrom (retention : CasRetentionState) (db : Database) : Prop where
  floor : firstRetainedSeq db = .ok retention.firstRetainedSeq
  started : db.bodyEvents ≠ [] → retention.firstRetainedSeq.isSome = true
  found : ∀ digest : BodySha256, ∀ row, db.casBody digest.text = some row → ∃ body, row = casRow body ∧
    BodySha256.forBody body = digest ∧ body.length ≤ i64Max ∧
    retention.bodies.lookup digest = some (body.length : Int)
  missing : ∀ digest : BodySha256, db.casBody digest.text = none → retention.bodies.lookup digest = none

/-- Loading finds the floor and the sizes of the retained bodies. -/
theorem CasRetentionState.loadedFrom {db : Database} (hnodup : (db.casBodies.map CasBodyRow.bodySha256).Nodup)
    {retention : CasRetentionState} (h : CasRetentionState.load db = .ok retention) :
    LoadedFrom retention db := by
  unfold CasRetentionState.load loadRetention at h
  simp only [bind_eq_ok, rejectIf_eq_ok, pure_eq_ok] at h
  obtain ⟨floor, hfloor, bodies, hbodies, _, _, _, hevents, rfl⟩ := h
  have hstored := foldlM_loadHashedBody_inv hbodies
  obtain ⟨loaded, hloaded, hlookup⟩ := foldlM_loadHashedBody hstored hnodup ∅
  cases Except.ok.inj (hbodies.symm.trans hloaded)
  refine ⟨hfloor, fun hne => ?_, fun digest row hrow => ?_, fun digest hnone => ?_⟩
  · rw [← Option.not_isNone, Bool.not_eq_true', ← Bool.not_eq_true]
    exact fun hnone => hevents ⟨hnone, hne⟩
  · obtain ⟨body, rfl, hlength⟩ := hstored row (List.mem_of_find?_eq_some hrow)
    have hkey := List.find?_some hrow
    refine ⟨body, rfl, BodySha256.ext (SqlValue.text.inj (of_decide_eq_true hkey)), hlength, ?_⟩
    rw [hlookup, show db.casBodies.find? _ = some (casRow body) from hrow]
    rfl
  · rw [hlookup, show db.casBodies.find? _ = none from hnone]
    exact AList.lookup_empty _

variable {key : AuditHmacKey} {world : ValidatedWorldPath} {generation : WorldGeneration}
  {retention : CasRetentionState} {chain : List (EventRow × Headers)} {db : Database}

/-- The snapshot of a signed body event matches its own digest. -/
theorem matchBodyRow_eq {event : EventRow × Headers} {kind : AuditEventKind} {timestamp : AuditTimestamp}
    (hsigned : SignedEvent key world generation event kind timestamp) (hbearing : kind.bodyBearing = true)
    {actual : BodySha256} (hactual : actual.text = event.1.bodySha256) (expected : BodySha256) :
    (snapshotOf event).matchBodyRow world expected =
      if actual = expected then .body actual else .bodyHashMismatch actual := by
  have htarget : world.name = event.1.target := hsigned.target (.inl hbearing)
  have hnew : BodySha256.new event.1.bodySha256 = .ok actual := hactual ▸ BodySha256.new_text actual
  have hct : ctEqStr actual.text expected.text = decide (actual = expected) := by
    rw [Bool.eq_iff_iff, ctEqStr_iff, decide_eq_true_eq, BodySha256.ext_iff]
  simp only [TimelineEventSnapshot.matchBodyRow, snapshotOf, hsigned.known, hbearing, hnew, hct,
    TimelineEventIdentity.targetMatches, htarget]
  split_ifs <;> simp_all

/-- The rows of a decoded table decode to the events of its chain. -/
theorem Database.DecodesTo.exists_event (h : db.DecodesTo key world generation chain) {e : EventRecord}
    (he : e ∈ db.events) : ∃ event ∈ chain, db.decodeEvent e = .ok event := by
  obtain ⟨i, hi⟩ := List.get_of_mem ((List.mem_insertionSort (fun a b : EventRecord => a.id ≤ b.id)).mpr he)
  have hlt : i.val < chain.length := by rw [← h.decoded.length_eq]; exact i.isLt
  have hget := h.decoded.get i.isLt hlt
  rw [show db.eventsAsc.get ⟨i, i.isLt⟩ = e from hi] at hget
  exact ⟨_, List.get_mem _ _, hget⟩

/-- Dereferencing in a table with an intact chain looks the row up. -/
theorem dereference_eq (hintact : requireChainIntact key world db = .ok ())
    (hgeneration : AuditeDB.generation db = .ok generation) {seq : TimelineSeq} {bodySha256 : BodySha256}
    {event : EventRow × Headers} (hload : loadEventSnapshot db seq = .ok (some (snapshotOf event))) :
    dereferenceTimelineCoordinate key ⟨world, generation, seq, bodySha256⟩ db =
      liftSql (dereferenceSnapshot db ⟨world, generation, seq, bodySha256⟩ (snapshotOf event) generation) := by
  simp only [dereferenceTimelineCoordinate, hgeneration, hintact, hload, liftSql, Except.mapError, ok_bind, ne_eq,
    not_true, if_false]

/-- What dereferencing a body row gives: its retained body, or a report that the body has expired. -/
def bodyResult (db : Database) (coordinate : TimelineCoordinate) (event : EventRow × Headers) :
    TimelineDereference :=
  match db.casBody coordinate.bodySha256.text with
  | some row => match row.body with
    | .blob body => .body ⟨coordinate.world, coordinate.generation, coordinate.seq, coordinate.bodySha256⟩
        ⟨body, event.1.contentType, event.2⟩ event.1.hmac
    | _ => .corrupt coordinate .invalidEventShape
  | none => .expired coordinate event.1.contentType event.1.size event.1.hmac

/-- A coordinate of a body row resolves to its body or to a report that it has expired, when a retained body
with its digest has its size. -/
theorem Database.Accepted.dereference_body (h : db.Accepted key world generation retention chain)
    (hintact : requireChainIntact key world db = .ok ()) (hconforms : db.Conforms) {e : EventRecord}
    (he : e ∈ db.events) {event : EventRow × Headers} (hmem : event ∈ chain)
    (hdecoded : db.decodeEvent e = .ok event) (hbody : AuditEventKind.isBodyType e.eventType = true) {seq : TimelineSeq} (hseq : seq.get = e.id)
    {digest : BodySha256} (hdigest : e.bodySha256 = .text digest.text)
    (hsize : ∀ size, retention.bodies.lookup digest = some size → size = event.1.size) :
    dereferenceTimelineCoordinate key ⟨world, generation, seq, digest⟩ db =
      .ok (bodyResult db ⟨world, generation, seq, digest⟩ event) := by
  have hloaded := CasRetentionState.loadedFrom hconforms.bodies h.load
  obtain ⟨kind, timestamp, hsigned⟩ := h.decodes.signed event hmem
  have hrecord := EventRecord.read_eq_ok.mp (Database.decodeEvent_eq_ok.mp hdecoded).1
  have hid : event.1.id = e.id := EventRecord.id_of_read (Database.decodeEvent_eq_ok.mp hdecoded).1
  have htype : AuditEventKind.isBodyType (.text event.1.eventType) = true := by rwa [hrecord] at hbody
  have hbearing : kind.bodyBearing = true := by
    rwa [AuditEventKind.asStr_of_fromStorage hsigned.known, AuditEventKind.isBodyType_asStr] at htype
  have hown : digest.text = event.1.bodySha256 := by
    rw [hrecord] at hdigest
    exact (SqlValue.text.inj hdigest).symm
  rw [dereference_eq hintact h.stored (hconforms.loadEventSnapshot_eq he hdecoded hseq), dereferenceSnapshot,
    matchBodyRow_eq hsigned hbearing hown digest, if_pos rfl]
  cases hfound : db.casBody digest.text with
  | none =>
    obtain ⟨floor, hfloor⟩ := Option.isSome_iff_exists.mp
      (hloaded.started (List.ne_nil_of_mem (List.mem_filter.mpr ⟨he, hbody⟩)))
    -- a row from the floor on has its body among the retained ones
    have hbelow : ¬ (floor.get ≤ seq.get) := by
      intro hle
      obtain ⟨digest', hdigest', hlookup⟩ := h.retained floor hfloor event hmem ⟨by omega, htype⟩
      rw [BodySha256.ext (hdigest'.trans hown.symm), hloaded.missing digest hfound] at hlookup
      cases hlookup
    simp [dereferenceBody, hfound, hloaded.floor, hfloor, hbelow, bodyResult, snapshotOf, liftSql,
      Except.mapError, bind, Except.bind, pure, Except.pure]
  | some row =>
    obtain ⟨body, rfl, hhash, hlength, hlookup⟩ := hloaded.found digest row hfound
    have hsame : digest.text = sha256Hex body := by rw [← hhash]; rfl
    simp [dereferenceBody, hfound, casRow, SqlValue.getBytes, hsize _ hlookup, not_lt.mpr hlength, ← hsame,
      bodyResult, snapshotOf, liftSql, Except.mapError, bind, Except.bind, pure, Except.pure]

/-- The head that a delete records of a verified world is a verified subject. -/
theorem verifiedLatestBodyHead_verified (hunique : db.UniqueIds) (hids : ∀ e ∈ db.events, e.id ≤ i64Max)
    {proof : DeleteSubjectProof} (h : verifiedLatestBodyHead key world db = .ok (some proof)) :
    proof.Verified world := by
  unfold verifiedLatestBodyHead at h
  simp only [bind_eq_ok, liftSql_eq_ok] at h
  obtain ⟨_, hintact, head, hhead, h⟩ := h
  cases head with
  | none => cases h
  | some head =>
    obtain ⟨seq, row, hmac⟩ := head
    simp only [bind_eq_ok, pure_eq_ok] at h
    obtain ⟨-, -, -, -, -, -, digest, -, generation, -, hproof⟩ := h
    cases hproof
    unfold loadLatestBodyHead at hhead
    split at hhead
    · cases hhead
    · next e he =>
      simp only [bind_eq_ok, pure_eq_ok, mapError_eq_ok] at hhead
      obtain ⟨identity, -, raw, hraw, seq', hseq, hsome⟩ := hhead
      cases hsome
      have hmem : e ∈ db.events := by
        have hdesc := List.mem_of_mem_head? he
        exact (List.mem_insertionSort _).mp (List.mem_of_mem_filter hdesc)
      obtain ⟨generation, _, chain, haccepted⟩ := requireChainIntact_inv hunique (requireChainIntact_of_world hintact)
      obtain ⟨event, hevent, hdecode⟩ := haccepted.decodes.exists_event hmem
      obtain ⟨kind, timestamp, hsigned⟩ := haccepted.decodes.signed event hevent
      have hrecord := EventRecord.read_eq_ok.mp (Database.decodeEvent_eq_ok.mp hdecode).1
      have hhmac : raw = event.1.hmac := by
        rw [hrecord, EventRow.record] at hraw
        exact (Except.ok.inj hraw).symm
      refine ⟨rfl, ?_, ?_⟩
      · have hget : seq.get = e.id := TimelineSeq.new_eq_ok hseq
        exact hget ▸ hids e hmem
      · rw [hhmac, ← hsigned.signature]
        exact isHmacLabel_hmacLabel _ _

end

end AuditeDB
