import Mathlib
import AuditeDB.World.DereferenceSpec
import AuditeDB.World.CasSpec
import AuditeDB.World.Intact

/-!
# Coordinates of stored histories

What a coordinate of a world says to its client: the case of the answer, and the bytes when the body is retained. On
a stored history a coordinate is resolved by its generation, its row, the kind and the digest of the row and the
retention of the digest, in this order.
-/

namespace AuditeDB

open Utf8 Results HashChain

/-- The case of a `TimelineDereference`, with the bytes of a body. -/
inductive TimelineAnswer where
  | genMismatch | missingRow | nonBodyEvent | bodyHashMismatch
  | body (bytes : Option Bytes)
  | expired | unprovenCoordinate | corrupt
deriving DecidableEq

/-- The case that a client sees. -/
def TimelineDereference.answer : TimelineDereference → TimelineAnswer
  | .body _ representation _ => .body (some representation.body)
  | .genMismatch .. => .genMismatch
  | .bodyHashMismatch .. => .bodyHashMismatch
  | .nonBodyEvent .. => .nonBodyEvent
  | .expired .. => .expired
  | .missingRow .. => .missingRow
  | .unprovenCoordinate .. => .unprovenCoordinate
  | .corrupt .. => .corrupt

/-- Some body event at or above the retention floor has the digest. -/
def Database.retains (db : Database) (digest : BodySha256) : Bool :=
  match firstRetainedSeq db with
  | .ok (some floor) => (db.digestsFrom floor.get).contains (.text digest.text)
  | _ => false

/-- The answer that a coordinate should get, with the bytes that its row left behind. -/
def Database.answerTo (db : Database) (bytes : Option Bytes) (coordinate : TimelineCoordinate) : TimelineAnswer :=
  if (generation db).toOption ≠ some coordinate.generation then .genMismatch
  else match db.events.find? (·.id = coordinate.seq.get) with
    | none => .missingRow
    | some e =>
      if !AuditEventKind.isBodyType e.eventType then .nonBodyEvent
      else if e.bodySha256 ≠ .text coordinate.bodySha256.text then .bodyHashMismatch
      else if db.retains coordinate.bodySha256 then .body bytes
      else .expired

/-- The body that the event with an id left behind. -/
def WorldLog.bytesAt (log : WorldLog) (seq : TimelineSeq) : Option Bytes :=
  log.entries[seq.get.toNat - 1]?.bind LogEntry.content

section

variable [HashSuite] {key : AuditHmacKey} {world : ValidatedWorldPath} {log : WorldLog} {db : Database}

/-- The snapshot of an event without a body is reported with its subject. -/
theorem LogEntry.Valid.matchBodyRow_nonBody {e : LogEntry} (hvalid : e.Valid world) (hsize : 0 ≤ e.size)
    (hbearing : e.kind.bodyBearing = false) (key : AuditHmacKey) (generation : WorldGeneration) (id : Int)
    (prev : String) (expected : BodySha256) :
    ∃ subject, (snapshotOf (e.row key world generation id prev, e.headers)).matchBodyRow world expected =
      .nonBody e.kind e.target e.bodySha256 subject := by
  have hsubject : ∃ subject,
      deleteSubjectProofForNonBody e.kind e.target e.bodySha256 e.headers = .ok subject := by
    unfold deleteSubjectProofForNonBody
    cases hdelete : e.kind.isDelete with
    | false => exact ⟨none, rfl⟩
    | true =>
      obtain ⟨proof, hproof⟩ := hvalid.subject hdelete
      exact ⟨proof, by rw [if_pos rfl, hproof]; rfl⟩
  obtain ⟨subject, hsubject⟩ := hsubject
  refine ⟨subject, ?_⟩
  simp [TimelineEventSnapshot.matchBodyRow, snapshotOf, LogEntry.row, AuditEventKind.fromStorage_asStr, hbearing,
    TimelineEventSnapshot.matchNonBodyRow, not_lt.mpr hsize, BodySha256.new_text, hsubject]

namespace Represents

/-- The tables of a stored history keep their constraints. -/
theorem conforms (h : Represents key world log db) : db.Conforms := by
  refine ⟨h.chain.uniqueIds, fun row hrow => ?_, h.bodies.nodup⟩
  rw [h.chain.headers] at hrow
  obtain ⟨event, -, hrow⟩ := List.mem_flatMap.mp hrow
  obtain ⟨header, -, rfl⟩ := List.mem_map.mp hrow
  exact ⟨nofun, nofun⟩

/-- The row of an id is the one of the event at its position. -/
theorem find_event (h : Represents key world log db) {id : Int} {e : EventRecord}
    (hfound : db.events.find? (·.id = id) = some e) :
    ∃ i, ∃ hi : i < log.entries.length, ∃ prev, id = i + 1 ∧
      e = (log.entries[i].row key world log.generation (i + 1) prev).record ∧
      (log.entries[i].row key world log.generation (i + 1) prev, log.entries[i].headers) ∈
        render key world log.generation log.entries := by
  have hsame := List.find?_some hfound
  have hid : e.id = id := of_decide_eq_true hsame
  have he := List.mem_of_find?_eq_some hfound
  rw [h.chain.events] at he
  obtain ⟨event, hevent, rfl⟩ := List.mem_map.mp he
  obtain ⟨i, hi, prev, rfl⟩ := mem_render hevent
  exact ⟨i, hi, prev, hid.symm, rfl, hevent⟩

/-- A digest is retained exactly when a body is stored under it. -/
theorem retains_iff (h : Represents key world log db) (digest : BodySha256) :
    db.retains digest = true ↔ ∃ row, db.casBody digest.text = some row := by
  have hstored : (∃ row, db.casBody digest.text = some row) ↔
      ∃ row ∈ db.casBodies, row.bodySha256 = .text digest.text := by
    rw [← Option.isSome_iff_exists, Database.casBody, List.find?_isSome]
    simp only [decide_eq_true_eq]
  obtain ⟨floor, hfloor, hget⟩ := h.firstRetainedSeq_eq
  rw [hstored, h.bodies.keys, Database.retains, hfloor]
  cases hlog : log.floor with
  | none =>
    rw [hlog, Option.map_none, Option.map_eq_none_iff] at hget
    simp [hget, retainedEntries]
  | some f =>
    rw [hlog, Option.map_some, Option.map_eq_some_iff] at hget
    obtain ⟨seq, rfl, hseq⟩ := hget
    rw [← h.chain.mem_digestsFrom, List.contains_iff_mem, hseq]

/-- A stored history with events has an intact chain. -/
theorem requireChainIntact_eq (h : Represents key world log db) (hne : log.entries ≠ []) :
    requireChainIntact key world db = .ok () := requireChainIntact_of_world (h.requireWorldIntact_eq hne)

variable {seq : TimelineSeq} {i : Nat} {prev : String}

/-- A coordinate of an event without a body is answered with the event. -/
theorem dereference_nonBody (h : Represents key world log db) (hi : i < log.entries.length)
    (hsize : 0 ≤ log.entries[i].size) (hbearing : log.entries[i].kind.bodyBearing = false) (digest : BodySha256) :
    ∃ reply, dereferenceSnapshot db ⟨world, log.generation, seq, digest⟩
        (snapshotOf (log.entries[i].row key world log.generation (i + 1) prev, log.entries[i].headers))
        log.generation = .ok reply ∧ reply.answer = .nonBodyEvent := by
  obtain ⟨subject, hmatch⟩ := (h.valid _ (List.getElem_mem hi)).matchBodyRow_nonBody hsize hbearing key log.generation
    (i + 1) prev digest
  rw [dereferenceSnapshot, hmatch]
  exact ⟨_, rfl, rfl⟩

/-- A coordinate with another digest than its body event is answered with the difference. -/
theorem dereference_otherBody (h : Represents key world log db) (hi : i < log.entries.length)
    (hbearing : log.entries[i].kind.bodyBearing = true) {digest : BodySha256}
    (hdigest : log.entries[i].bodySha256 ≠ digest) :
    ∃ reply, dereferenceSnapshot db ⟨world, log.generation, seq, digest⟩
        (snapshotOf (log.entries[i].row key world log.generation (i + 1) prev, log.entries[i].headers))
        log.generation = .ok reply ∧ reply.answer = .bodyHashMismatch := by
  have hsigned : SignedEvent key world log.generation
      (log.entries[i].row key world log.generation (i + 1) prev, log.entries[i].headers) log.entries[i].kind
      log.entries[i].timestamp := (h.valid _ (List.getElem_mem hi)).signed (i + 1) prev
  have hct : ctEqStr digest.text log.entries[i].bodySha256.text = false := by
    rw [← Bool.not_eq_true, ctEqStr_iff, ← BodySha256.ext_iff]
    exact hdigest.symm
  refine ⟨.bodyHashMismatch ⟨world, log.generation, seq, digest⟩ log.entries[i].bodySha256, ?_, rfl⟩
  rw [dereferenceSnapshot, matchBodyRow_eq hsigned hbearing rfl digest, if_neg hdigest]
  simp only [hct]
  rfl

end Represents

variable (log db) in
/-- Every stored body with the digest of an event is the body of the event. -/
def BodiesAgree : Prop :=
  ∀ row ∈ db.casBodies, ∀ e ∈ log.entries, ∀ body ∈ e.content,
    row.bodySha256 = .text (BodySha256.forBody body).text → row = casRow body

namespace Represents

variable {seq : TimelineSeq} {i : Nat} {prev : String}

/-- A coordinate of a body event is answered with its body as long as the digest is retained. -/
theorem dereference_body (h : Represents key world log db) (hagree : BodiesAgree log db) (hne : log.entries ≠ [])
    (hi : i < log.entries.length) (hbearing : log.entries[i].kind.bodyBearing = true) (hseq : seq.get = i + 1)
    (hevent : (log.entries[i].row key world log.generation (i + 1) prev, log.entries[i].headers) ∈
      render key world log.generation log.entries) :
    ∃ reply, dereferenceTimelineCoordinate key ⟨world, log.generation, seq, log.entries[i].bodySha256⟩ db = .ok reply ∧
      reply.answer =
        if db.retains log.entries[i].bodySha256 then .body log.entries[i].content else .expired := by
  have hmem := List.getElem_mem hi
  have hvalid := h.valid _ hmem
  obtain ⟨body, hbody⟩ := Option.isSome_iff_exists.mp (hvalid.bearing.mp hbearing)
  obtain ⟨hdigest, hsize, -⟩ := hvalid.body body hbody
  have hintact := h.requireChainIntact_eq hne
  obtain ⟨generation, retention, chain, haccepted⟩ := requireChainIntact_inv h.chain.uniqueIds hintact
  obtain rfl : log.generation = generation := Except.ok.inj (h.generation_eq.symm.trans haccepted.stored)
  have hloaded := CasRetentionState.loadedFrom h.bodies.nodup haccepted.load
  have hrow : (log.entries[i].row key world log.generation (i + 1) prev).record ∈ db.events := by
    rw [h.chain.events]
    exact List.mem_map.mpr ⟨_, hevent, rfl⟩
  have hdecode := h.chain.decodeEvent_eq hevent
  obtain ⟨event, hmemChain, hevent'⟩ := haccepted.decodes.exists_event hrow
  obtain rfl := Except.ok.inj (hdecode.symm.trans hevent')
  -- the stored row under the digest of the event, if there is one, holds the body of the event
  have hstored : ∀ row, db.casBody log.entries[i].bodySha256.text = some row → row = casRow body := by
    intro row hfound
    have hkey := List.find?_some hfound
    refine hagree row (List.mem_of_find?_eq_some hfound) _ hmem body hbody ?_
    rw [← hdigest]
    exact of_decide_eq_true hkey
  have hlookup : ∀ size, retention.bodies.lookup log.entries[i].bodySha256 = some size →
      size = (log.entries[i].row key world log.generation (i + 1) prev).size := by
    intro size hlookup
    cases hfound : db.casBody log.entries[i].bodySha256.text with
    | none =>
      rw [hloaded.missing _ hfound] at hlookup
      cases hlookup
    | some row =>
      obtain ⟨other, hother, -, -, hlisted⟩ := hloaded.found _ row hfound
      have hsame : casRow other = casRow body := hother.symm.trans (hstored row hfound)
      rw [hlisted, SqlValue.blob.inj (congrArg CasBodyRow.body hsame)] at hlookup
      exact (Option.some.inj hlookup).symm.trans hsize.symm
  have hbodyType : AuditEventKind.isBodyType
      (log.entries[i].row key world log.generation (i + 1) prev).record.eventType = true := by
    simpa [LogEntry.row, EventRow.record] using hbearing
  refine ⟨_, haccepted.dereference_body hintact h.conforms hrow hmemChain hevent' hbodyType hseq rfl hlookup, ?_⟩
  unfold bodyResult
  cases hfound : db.casBody log.entries[i].bodySha256.text with
  | none =>
    have hnot : db.retains log.entries[i].bodySha256 ≠ true := by
      rw [ne_eq, h.retains_iff, hfound]
      simp
    rw [if_neg hnot]
    rfl
  | some row =>
    rw [if_pos ((h.retains_iff _).mpr ⟨row, hfound⟩), hstored row hfound, hbody]
    rfl

/-- A coordinate of an event is resolved by the kind and the digest of the event. -/
theorem dereference_row (h : Represents key world log db) (hagree : BodiesAgree log db) (hne : log.entries ≠ [])
    (hsizes : ∀ e ∈ log.entries, 0 ≤ e.size) (hi : i < log.entries.length) (hseq : seq.get = i + 1)
    (hevent : (log.entries[i].row key world log.generation (i + 1) prev, log.entries[i].headers) ∈
      render key world log.generation log.entries) (digest : BodySha256) :
    ∃ reply, dereferenceTimelineCoordinate key ⟨world, log.generation, seq, digest⟩ db = .ok reply ∧
      reply.answer =
        if !log.entries[i].kind.bodyBearing then .nonBodyEvent
        else if log.entries[i].bodySha256 ≠ digest then .bodyHashMismatch
        else if db.retains digest then .body log.entries[i].content
        else .expired := by
  have hrow : (log.entries[i].row key world log.generation (i + 1) prev).record ∈ db.events := by
    rw [h.chain.events]
    exact List.mem_map.mpr ⟨_, hevent, rfl⟩
  have hload := h.conforms.loadEventSnapshot_eq hrow (h.chain.decodeEvent_eq hevent) hseq
  have hderef : dereferenceTimelineCoordinate key ⟨world, log.generation, seq, digest⟩ db = _ :=
    dereference_eq (h.requireChainIntact_eq hne) h.generation_eq hload
  cases hbearing : log.entries[i].kind.bodyBearing with
  | false =>
    obtain ⟨reply, hreply, hanswer⟩ := h.dereference_nonBody hi (hsizes _ (List.getElem_mem hi)) hbearing digest
    exact ⟨reply, by rw [hderef, hreply]; rfl, hanswer⟩
  | true =>
    by_cases hdigest : log.entries[i].bodySha256 = digest
    · subst hdigest
      obtain ⟨reply, hreply, hanswer⟩ := h.dereference_body hagree hne hi hbearing hseq hevent
      exact ⟨reply, hreply, by simpa using hanswer⟩
    · obtain ⟨reply, hreply, hanswer⟩ := h.dereference_otherBody hi hbearing hdigest
      exact ⟨reply, by rw [hderef, hreply]; rfl, by simpa [hdigest] using hanswer⟩

/-- On a stored history every coordinate is resolved as it should be. -/
theorem dereference_answer (h : Represents key world log db) (hagree : BodiesAgree log db) (hne : log.entries ≠ [])
    (hsizes : ∀ e ∈ log.entries, 0 ≤ e.size) (generation : WorldGeneration) (seq : TimelineSeq)
    (digest : BodySha256) :
    ∃ reply, dereferenceTimelineCoordinate key ⟨world, generation, seq, digest⟩ db = .ok reply ∧
      reply.answer = db.answerTo (log.bytesAt seq) ⟨world, generation, seq, digest⟩ := by
  have hintact := h.requireChainIntact_eq hne
  by_cases hgeneration : log.generation = generation
  · subst hgeneration
    simp only [Database.answerTo, h.generation_eq, Except.toOption, ne_eq, not_true, if_false]
    cases hfound : db.events.find? (·.id = seq.get) with
    | none =>
      refine ⟨.missingRow ⟨world, log.generation, seq, digest⟩, ?_, rfl⟩
      simp [dereferenceTimelineCoordinate, h.generation_eq, hintact, loadEventSnapshot, hfound, liftSql,
        Except.mapError, pure, Except.pure, bind, Except.bind]
    | some e =>
      obtain ⟨i, hi, prev, hseq, rfl, hevent⟩ := h.find_event hfound
      obtain ⟨reply, hreply, hanswer⟩ := h.dereference_row hagree hne hsizes hi hseq hevent digest
      have hbytes : log.bytesAt seq = log.entries[i].content := by
        rw [WorldLog.bytesAt, hseq, show ((i : Int) + 1).toNat - 1 = i by omega, List.getElem?_eq_getElem hi]
        rfl
      refine ⟨reply, hreply, hanswer.trans ?_⟩
      simp [hbytes, LogEntry.row, EventRow.record, BodySha256.ext_iff]
  · refine ⟨.genMismatch ⟨world, generation, seq, digest⟩ log.generation, ?_, ?_⟩
    · simp [dereferenceTimelineCoordinate, h.generation_eq, hintact, hgeneration, liftSql, Except.mapError, pure,
        Except.pure, bind, Except.bind]
    · simp [Database.answerTo, h.generation_eq, Except.toOption, hgeneration, TimelineDereference.answer]

end Represents

end

end AuditeDB
