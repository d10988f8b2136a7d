import Mathlib
import AuditeDB.Audit.Signed

/-!
# When the walk accepts

A linked chain of signed events whose retained bodies are listed with their sizes passes the walk. The final
state says which bodies the chain refers to and whether it reached the retention floor.
-/

namespace AuditeDB

open Utf8 Results HashChain

/-- A row at or above the retention floor that carries a body. -/
def EventRow.Retained (row : EventRow) (floor : TimelineSeq) : Prop :=
  floor.get ≤ row.id ∧ AuditEventKind.isBodyType (.text row.eventType) = true

/-- A row that passes the retention check: the floor is a body event and retained bodies are listed. -/
structure RetainedEvent (retention : CasRetentionState) (row : EventRow) : Prop where
  positive : 0 < row.id
  floor : ∀ floor ∈ retention.firstRetainedSeq, row.id = floor.get →
    AuditEventKind.isBodyType (.text row.eventType) = true
  body : ∀ floor ∈ retention.firstRetainedSeq, row.Retained floor →
    ∃ digest : BodySha256, digest.text = row.bodySha256 ∧ retention.bodies.lookup digest = some row.size

/-- What the walk has seen of the retained bodies after a list of rows. -/
structure VerifyAccumulator.Saw (state : VerifyAccumulator) (retention : CasRetentionState)
    (rows : List EventRow) : Prop where
  floor : state.sawRetentionFloor = true ↔
    ∀ floor ∈ retention.firstRetainedSeq, ∃ row ∈ rows, row.id = floor.get
  referenced : ∀ digest, digest ∈ state.referencedRetainedBodies ↔
    ∃ floor ∈ retention.firstRetainedSeq, ∃ row ∈ rows, row.Retained floor ∧ row.bodySha256 = digest.text

variable {retention : CasRetentionState}

/-- A walk starts having seen nothing. -/
theorem VerifyAccumulator.saw_start (capture : Option ChainSeq) :
    (VerifyAccumulator.start retention capture).Saw retention [] := by
  constructor
  · cases hfloor : retention.firstRetainedSeq <;> simp [VerifyAccumulator.start, hfloor]
  · simp [VerifyAccumulator.start]

/-- Remembering the first body event succeeds on a positive id and changes nothing else. -/
theorem VerifyAccumulator.noteBodyEvent_ok (state : VerifyAccumulator) {row : EventRow}
    (hpositive : 0 < row.id) (kind : AuditEventKind) (idx : Nat) :
    ∃ noted, state.noteBodyEvent row kind idx = .ok noted ∧ noted.SameChain state ∧
      noted.sawRetentionFloor = state.sawRetentionFloor ∧
      noted.referencedRetainedBodies = state.referencedRetainedBodies := by
  unfold VerifyAccumulator.noteBodyEvent
  split_ifs
  · rw [TimelineSeq.new, dif_pos hpositive]
    exact ⟨_, rfl, ⟨rfl, rfl, rfl, rfl⟩, rfl, rfl⟩
  · exact ⟨_, rfl, ⟨rfl, rfl, rfl, rfl⟩, rfl, rfl⟩

section

variable {row : EventRow} {kind : AuditEventKind} {idx : Nat} {state noted : VerifyAccumulator}
  {floor : TimelineSeq} (hfloor : retention.firstRetainedSeq = some floor)
  (hnoted : state.noteBodyEvent row kind idx = .ok noted)
  (hbearing : kind.bodyBearing = AuditEventKind.isBodyType (.text row.eventType))

include hfloor hnoted hbearing

/-- A retained row with a listed body of its size is recorded. -/
theorem verifyRetainedBody_retained (hretained : row.Retained floor) {digest : BodySha256}
    (hdigest : digest.text = row.bodySha256) (hlookup : retention.bodies.lookup digest = some row.size) :
    verifyRetainedBody row kind idx retention state = .ok (noted.reference row floor digest) := by
  have hnew : BodySha256.new row.bodySha256 = .ok digest := hdigest ▸ BodySha256.new_text digest
  rw [verifyRetainedBody, hfloor]
  simp [hnoted, ok_bind, hbearing, hretained.2, hretained.1, rejectIf, hnew, Except.mapError, hlookup,
    requireSome, pure, Except.pure]

/-- A row below the floor or without a body is passed over. -/
theorem verifyRetainedBody_skipped (hretained : ¬ row.Retained floor)
    (hat : row.id = floor.get → AuditEventKind.isBodyType (.text row.eventType) = true) :
    verifyRetainedBody row kind idx retention state = .ok noted := by
  have hguard : ¬ ((decide (row.id = floor.get) && !kind.bodyBearing) = true) := by
    rw [hbearing]
    simpa using hat
  have hskip : (decide (row.id < floor.get) || !kind.bodyBearing) = true := by
    rw [hbearing]
    rw [EventRow.Retained, not_and_or, not_le] at hretained
    simpa using hretained
  rw [verifyRetainedBody, hfloor]
  simp only [hnoted, ok_bind, rejectIf, if_neg hguard, if_pos hskip]
  rfl

end

/-- The retention check accepts a retained event and records it. -/
theorem verifyRetainedBody_ok {row : EventRow} (hrow : RetainedEvent retention row) {kind : AuditEventKind}
    (hkind : AuditEventKind.fromStorage row.eventType = some kind) (idx : Nat) {state : VerifyAccumulator}
    {rows : List EventRow} (hsaw : state.Saw retention rows) :
    ∃ state', verifyRetainedBody row kind idx retention state = .ok state' ∧ state'.SameChain state ∧
      state'.Saw retention (rows ++ [row]) := by
  have hbearing : kind.bodyBearing = AuditEventKind.isBodyType (.text row.eventType) := by
    rw [AuditEventKind.asStr_of_fromStorage hkind, AuditEventKind.isBodyType_asStr]
  cases hfloor : retention.firstRetainedSeq with
  | none =>
    refine ⟨state, by rw [verifyRetainedBody, hfloor]; rfl, ⟨rfl, rfl, rfl, rfl⟩, ?_, ?_⟩
    · simpa [hfloor] using hsaw.floor
    · simpa [hfloor] using hsaw.referenced
  | some floor =>
    obtain ⟨noted, hnoted, hsame, hsawNoted, hrefNoted⟩ := state.noteBodyEvent_ok hrow.positive kind idx
    have hsawFloor := hsaw.floor
    have hreferenced := hsaw.referenced
    have hat := hrow.floor floor hfloor
    simp only [hfloor, Option.mem_def, Option.some.injEq, forall_eq', exists_eq_left'] at hsawFloor hreferenced
    by_cases hretained : row.Retained floor
    · -- the body is looked up and recorded
      obtain ⟨digest, hdigest, hlookup⟩ := hrow.body floor hfloor hretained
      refine ⟨_, verifyRetainedBody_retained hfloor hnoted hbearing hretained hdigest hlookup, hsame, ?_, ?_⟩
      · simp [VerifyAccumulator.reference, hsawNoted, hfloor, hsawFloor, or_and_right, exists_or]
      · intro other
        have hother : other = digest ↔ row.bodySha256 = other.text := by
          rw [← hdigest, BodySha256.ext_iff, eq_comm]
        simp [VerifyAccumulator.reference, hrefNoted, hfloor, hreferenced, or_and_right, exists_or, hother,
          hretained, or_comm]
    · -- the row is passed over, so it is not the floor
      have hne : row.id ≠ floor.get := fun heq => hretained ⟨heq.ge, hat heq⟩
      refine ⟨noted, verifyRetainedBody_skipped hfloor hnoted hbearing hretained hat, hsame, ?_, ?_⟩
      · simp [hsawNoted, hfloor, hsawFloor, or_and_right, exists_or, hne]
      · intro other
        simp [hrefNoted, hfloor, hreferenced, or_and_right, exists_or, hretained]

/-- The checks after the last event pass when the floor was reached and every listed body is referred to. -/
theorem VerifyAccumulator.Saw.completion {final : VerifyAccumulator} {decoded : List (EventRow × Headers)}
    (hsaw : final.Saw retention (decoded.map Prod.fst))
    (hretained : ∀ event ∈ decoded, RetainedEvent retention event.1)
    (hfloor : ∀ floor ∈ retention.firstRetainedSeq, ∃ event ∈ decoded, event.1.id = floor.get)
    (hbodies : ∀ digest ∈ retention.bodies, ∃ floor ∈ retention.firstRetainedSeq,
      ∃ event ∈ decoded, event.1.Retained floor ∧ event.1.bodySha256 = digest.text) :
    verifyCompletion final retention = .ok () := by
  have hreached : final.sawRetentionFloor = true := by
    rw [hsaw.floor]
    intro floor hmem
    obtain ⟨event, hevent, hid⟩ := hfloor floor hmem
    exact ⟨event.1, List.mem_map_of_mem hevent, hid⟩
  have hreferenced : final.referencedRetainedBodies = retention.bodies.keys.toFinset := by
    ext digest
    rw [hsaw.referenced, List.mem_toFinset, ← AList.mem_keys]
    constructor
    · rintro ⟨floor, hmem, _, hrow, hkept, hdigest⟩
      obtain ⟨event, hevent, rfl⟩ := List.mem_map.mp hrow
      obtain ⟨digest', hdigest', hlookup⟩ := (hretained event hevent).body floor hmem hkept
      rw [← BodySha256.ext (hdigest'.trans hdigest), ← AList.lookup_isSome, hlookup]
      rfl
    · intro hdigest
      obtain ⟨floor, hmem, event, hevent, hkept, htext⟩ := hbodies digest hdigest
      exact ⟨floor, hmem, event.1, List.mem_map_of_mem hevent, hkept, htext⟩
  have hcard : final.referencedRetainedBodies.card = retention.bodies.entries.length := by
    rw [hreferenced, List.toFinset_card_of_nodup retention.bodies.keys_nodup, AList.keys, List.keys,
      List.length_map]
  simp [verifyCompletion, hreached, hcard, rejectIf, bind, Except.bind]

section

variable [HashSuite] {key : AuditHmacKey} {world : ValidatedWorldPath} {generation : WorldGeneration}

/-- The check of one event accepts a signed and retained event that names the current HMAC. -/
theorem verifyEvent_ok {event : EventRow × Headers} {kind : AuditEventKind} {timestamp : AuditTimestamp}
    (hsigned : SignedEvent key world generation event kind timestamp)
    (hretained : RetainedEvent retention event.1) {state : VerifyAccumulator}
    (hprev : eventPrev event = state.prev) {rows : List EventRow} (hsaw : state.Saw retention rows) :
    ∃ state', verifyEvent key retention world generation state event = .ok state' ∧
      state'.Saw retention (rows ++ [event.1]) := by
  have hsignature : verifySignature key world generation event.1 event.2 state.prev state.events = .ok kind :=
    verifySignature_eq_ok.mpr ⟨hprev, timestamp, hsigned⟩
  obtain ⟨next, hnext, -, hsaw⟩ := verifyRetainedBody_ok hretained hsigned.known state.events hsaw
  refine ⟨next.advance generation event.1, ?_, hsaw.floor, hsaw.referenced⟩
  rw [verifyEvent, hsignature, ok_bind, hnext]
  rfl

/-- A walk over a linked chain of signed and retained events succeeds. -/
theorem foldlM_verifyEvent_ok {events : List (EventRow × Headers)}
    (hsigned : ∀ event ∈ events, ∃ kind timestamp, SignedEvent key world generation event kind timestamp)
    (hretained : ∀ event ∈ events, RetainedEvent retention event.1) {state : VerifyAccumulator}
    (hlinked : Linked eventTag eventPrev state.prev events) {rows : List EventRow}
    (hsaw : state.Saw retention rows) :
    ∃ final, events.foldlM (verifyEvent key retention world generation) state = .ok final ∧
      final.Saw retention (rows ++ events.map Prod.fst) := by
  induction events generalizing state rows with
  | nil => exact ⟨state, rfl, by simpa using hsaw⟩
  | cons event rest ih =>
    obtain ⟨⟨kind, timestamp, hfirst⟩, hsigned⟩ := List.forall_mem_cons.mp hsigned
    obtain ⟨hfirstRetained, hretained⟩ := List.forall_mem_cons.mp hretained
    obtain ⟨next, hnext, hsaw⟩ := verifyEvent_ok hfirst hfirstRetained hlinked.1 hsaw
    have hprev : next.prev = eventTag event := (verifyEvent_signed hnext).2.2.1
    obtain ⟨final, hfinal, hsaw⟩ := ih hsigned hretained (hprev ▸ hlinked.2) hsaw
    refine ⟨final, ?_, by simpa using hsaw⟩
    rw [List.foldlM_cons]
    exact bind_eq_ok.mpr ⟨next, hnext, hfinal⟩

/-- Rows from which the walk collects a linked chain of signed events are accepted when the retained part of
the chain and the retained bodies belong to each other. -/
theorem verifyStatementCapture_of_walk {rows : List JoinedRow} {decoded : List (EventRow × Headers)}
    (hcollected : ∀ state final, decoded.foldlM (verifyEvent key retention world generation) state = .ok final →
      walkRows key retention world generation rows none state = .ok final)
    (hlinked : Linked eventTag eventPrev "" decoded)
    (hsigned : ∀ event ∈ decoded, ∃ kind timestamp, SignedEvent key world generation event kind timestamp)
    (hretained : ∀ event ∈ decoded, RetainedEvent retention event.1)
    (hfloor : ∀ floor ∈ retention.firstRetainedSeq, ∃ event ∈ decoded, event.1.id = floor.get)
    (hbodies : ∀ digest ∈ retention.bodies, ∃ floor ∈ retention.firstRetainedSeq,
      ∃ event ∈ decoded, event.1.Retained floor ∧ event.1.bodySha256 = digest.text)
    (hbound : decoded.length ≤ i64Max) {allowEmpty : Bool} (hempty : decoded ≠ [] ∨ allowEmpty = true)
    (capture : Option ChainSeq) :
    ∃ ok head read, verifyStatementCapture key retention world generation rows allowEmpty capture =
      .ok (.valid ok head read) := by
  have hstart : Linked eventTag eventPrev (VerifyAccumulator.start retention capture).prev decoded := hlinked
  obtain ⟨final, hfold, hsaw⟩ :=
    foldlM_verifyEvent_ok hsigned hretained hstart (VerifyAccumulator.saw_start capture)
  rw [List.nil_append] at hsaw
  have hevents : final.events = decoded.length :=
    (foldlM_verifyEvent_signed hfold).2.2.2.1.trans (Nat.zero_add _)
  have hwalk := hcollected _ _ hfold
  have hcompletion : verifyCompletion final retention = .ok () := hsaw.completion hretained hfloor hbodies
  have hnonempty : ¬ ((decide (final.events = 0) && !allowEmpty) = true) := by
    rw [hevents, Bool.and_eq_true, decide_eq_true_eq, List.length_eq_zero_iff]
    rintro ⟨hnil, hallow⟩
    exact hempty.elim (fun h => h hnil) (fun h => by simp [h] at hallow)
  obtain ⟨head, hhead⟩ : ∃ head, verifiedHeadFromOk generation final.summary = .ok head := by
    have hsummary : final.summary.events ≤ i64Max := by
      unfold VerifyAccumulator.summary
      split_ifs
      · exact Nat.zero_le _
      · exact hevents ▸ hbound
    unfold verifiedHeadFromOk
    split_ifs
    · exact ⟨_, rfl⟩
    · exact ⟨_, rfl⟩
  refine ⟨final.summary, head, verifiedStampFromCompletedWalk generation capture final, ?_⟩
  have hfinish : finishWalk retention generation allowEmpty capture final =
      .ok (final.summary, head, verifiedStampFromCompletedWalk generation capture final) := by
    simp only [finishWalk, hcompletion, liftBreak, Except.mapError, ok_bind, rejectIf, if_neg hnonempty,
      hhead, liftSql]
    rfl
  rw [verifyStatementCapture, hwalk, ok_bind, hfinish]

/-- A table that decodes to a linked chain of signed events, and whose retained part and retained bodies
belong to each other, is accepted. -/
theorem verifyStatementCapture_ok {db : Database} (hunique : db.UniqueIds)
    {decoded : List (EventRow × Headers)}
    (hdecoded : List.Forall₂ (fun e d => db.decodeEvent e = .ok d) db.eventsAsc decoded)
    (hlinked : Linked eventTag eventPrev "" decoded)
    (hsigned : ∀ event ∈ decoded, ∃ kind timestamp, SignedEvent key world generation event kind timestamp)
    (hretained : ∀ event ∈ decoded, RetainedEvent retention event.1)
    (hfloor : ∀ floor ∈ retention.firstRetainedSeq, ∃ event ∈ decoded, event.1.id = floor.get)
    (hbodies : ∀ digest ∈ retention.bodies, ∃ floor ∈ retention.firstRetainedSeq,
      ∃ event ∈ decoded, event.1.Retained floor ∧ event.1.bodySha256 = digest.text)
    (hbound : decoded.length ≤ i64Max) {allowEmpty : Bool} (hempty : decoded ≠ [] ∨ allowEmpty = true)
    (capture : Option ChainSeq) :
    ∃ ok head read, verifyStatementCapture key retention world generation db.auditSelect allowEmpty capture =
      .ok (.valid ok head read) := by
  refine verifyStatementCapture_of_walk (fun state final hfold => ?_) hlinked hsigned hretained hfloor hbodies
    hbound hempty capture
  rw [Database.auditSelect_eq hunique,
    walkRows_flatMap (Database.eventsAsc_pairwise hunique) (fun _ h => (by cases h))]
  exact ⟨decoded, hdecoded, hfold⟩

end

end AuditeDB
