import Mathlib
import AuditeDB.Audit.Walk
import AuditeDB.Library.HashChain

/-!
# What an accepted event satisfies

The signature check of one event as a proposition, and what a successful walk says about the whole chain:
every event is signed, names the HMAC before it, and a captured stamp is the HMAC at its ordinal.
-/

namespace AuditeDB

open Utf8 Results HashChain

/-- The HMAC of a decoded event. -/
def eventTag (event : EventRow × Headers) : String := event.1.hmac

/-- The HMAC that a decoded event names as its predecessor. -/
def eventPrev (event : EventRow × Headers) : String := event.1.prevHmac

section

variable [HashSuite]

/-- A decoded event that carries a valid signature over its own fields and headers. -/
structure SignedEvent (key : AuditHmacKey) (world : ValidatedWorldPath) (generation : WorldGeneration)
    (event : EventRow × Headers) (kind : AuditEventKind) (timestamp : AuditTimestamp) : Prop where
  known : AuditEventKind.fromStorage event.1.eventType = some kind
  target : kind.bodyBearing ∨ kind = .format → world.name = event.1.target
  version : kind = .format → hasFormatVersion event.2
  subject : ∀ idx, verifyDeleteSubjectProof event.1 event.2 kind idx = .ok ()
  metadata : metaSha256Canonical event.1.contentType event.2 = event.1.metaSha256
  time : AuditTimestamp.fromStorage event.1.timestamp = .ok timestamp
  signature : eventHmac key (event.1.hmacInput world generation event.1.prevHmac timestamp) = event.1.hmac

variable {key : AuditHmacKey} {retention : CasRetentionState} {world : ValidatedWorldPath}
  {generation : WorldGeneration}

omit [HashSuite] in
/-- The position only appears in the report of a failed subject check. -/
theorem verifyDeleteSubjectProof_idx {row : EventRow} {headers : Headers} {kind : AuditEventKind} {idx : Nat}
    (h : verifyDeleteSubjectProof row headers kind idx = .ok ()) (idx' : Nat) :
    verifyDeleteSubjectProof row headers kind idx' = .ok () := by
  unfold verifyDeleteSubjectProof at h ⊢
  split_ifs at h ⊢
  · rfl
  · simp only [bind_eq_ok, mapError_eq_ok] at h ⊢
    exact h

/-- The signature check accepts exactly the signed events that name the expected HMAC. -/
theorem verifySignature_eq_ok {event : EventRow × Headers} {prev : String} {idx : Nat}
    {kind : AuditEventKind} :
    verifySignature key world generation event.1 event.2 prev idx = .ok kind ↔
      eventPrev event = prev ∧ ∃ timestamp, SignedEvent key world generation event kind timestamp := by
  unfold verifySignature eventPrev
  simp only [bind_eq_ok, rejectIf_eq_ok, requireSome_eq_ok, mapError_eq_ok, pure_eq_ok, exists_const,
    Bool.and_eq_true, Bool.or_eq_true, decide_eq_true_eq, Bool.not_eq_true', Bool.not_eq_false, ctEqStr_iff,
    not_and, not_not, ne_eq]
  constructor
  · rintro ⟨_, hknown, htarget, rfl, hversion, _, hsubject, hmetadata, timestamp, htime, hsignature, rfl⟩
    exact ⟨rfl, timestamp, hknown, htarget, hversion, verifyDeleteSubjectProof_idx hsubject, hmetadata,
      htime, hsignature⟩
  · rintro ⟨rfl, timestamp, h⟩
    exact ⟨kind, h.known, h.target, rfl, h.version, ⟨⟩, h.subject idx, h.metadata, timestamp, h.time,
      h.signature, rfl⟩

/-- The parts of the walk state that the retention check leaves alone. -/
def VerifyAccumulator.SameChain (a b : VerifyAccumulator) : Prop :=
  a.prev = b.prev ∧ a.events = b.events ∧ a.captureStampAt = b.captureStampAt ∧
    a.capturedStamp = b.capturedStamp

omit [HashSuite] in
/-- The retention check only changes its own part of the state. -/
theorem verifyRetainedBody_sameChain {row : EventRow} {kind : AuditEventKind} {idx : Nat}
    {state state' : VerifyAccumulator} (h : verifyRetainedBody row kind idx retention state = .ok state') :
    state'.SameChain state := by
  unfold verifyRetainedBody at h
  split at h
  · cases h
    exact ⟨rfl, rfl, rfl, rfl⟩
  · obtain ⟨noted, hnoted, h⟩ := bind_eq_ok.mp h
    have hsame : noted.SameChain state := by
      unfold VerifyAccumulator.noteBodyEvent at hnoted
      split_ifs at hnoted
      · obtain ⟨seq, -, hnoted⟩ := bind_eq_ok.mp hnoted
        cases hnoted
        exact ⟨rfl, rfl, rfl, rfl⟩
      · cases hnoted
        exact ⟨rfl, rfl, rfl, rfl⟩
    obtain ⟨-, -, h⟩ := bind_eq_ok.mp h
    split_ifs at h
    · cases h
      exact hsame
    · simp only [bind_eq_ok, pure_eq_ok] at h
      obtain ⟨_, -, _, -, _, -, rfl⟩ := h
      exact hsame

/-- The check of one event accepts a signed event that names the current HMAC, and advances to its own. -/
theorem verifyEvent_signed {event : EventRow × Headers} {state state' : VerifyAccumulator}
    (h : verifyEvent key retention world generation state event = .ok state') :
    eventPrev event = state.prev ∧ (∃ kind timestamp, SignedEvent key world generation event kind timestamp) ∧
      state'.SameChain (state.advance generation event.1) := by
  unfold verifyEvent at h
  simp only [bind_eq_ok, pure_eq_ok, verifySignature_eq_ok] at h
  obtain ⟨kind, ⟨hprev, timestamp, hsigned⟩, retained, hretained, rfl⟩ := h
  obtain ⟨-, hevents, hat, hstamp⟩ := verifyRetainedBody_sameChain hretained
  refine ⟨hprev, ⟨kind, timestamp, hsigned⟩, rfl, ?_, hat, ?_⟩
  · simp only [VerifyAccumulator.advance, hevents]
  · simp only [VerifyAccumulator.advance, hevents, hat, hstamp]

omit [HashSuite] in
/-- A stamp that is there after an event was there before or is the one of the event. -/
theorem VerifyAccumulator.mem_advance_capturedStamp {state : VerifyAccumulator} {row : EventRow}
    {stamp : ChainStamp} (h : stamp ∈ (state.advance generation row).capturedStamp) :
    stamp ∈ state.capturedStamp ∨ stamp.generation = generation ∧ stamp.seq.get = state.events + 1 ∧
      stamp.hmac = hmacLabel row.hmac := by
  simp only [VerifyAccumulator.advance] at h
  split at h
  · split_ifs at h with hseq
    · cases h
      exact .inr ⟨rfl, hseq, rfl⟩
    · exact .inl h
  · exact .inl h

/-- A stamp captured in a walk: the HMAC label at its ordinal. -/
def StampAt (generation : WorldGeneration) (events : List (EventRow × Headers)) (before : Nat)
    (stamp : ChainStamp) : Prop :=
  stamp.generation = generation ∧ ∃ i, ∃ h : i < events.length, stamp.seq.get = before + i + 1 ∧
    stamp.hmac = hmacLabel (eventTag (events.get ⟨i, h⟩))

/-- A successful walk went over a linked chain of signed events. -/
theorem foldlM_verifyEvent_signed {events : List (EventRow × Headers)} {state final : VerifyAccumulator}
    (h : events.foldlM (verifyEvent key retention world generation) state = .ok final) :
    Linked eventTag eventPrev state.prev events ∧
      (∀ event ∈ events, ∃ kind timestamp, SignedEvent key world generation event kind timestamp) ∧
      final.prev = (events.getLast?.map eventTag).getD state.prev ∧
      final.events = state.events + events.length ∧
      ∀ stamp ∈ final.capturedStamp, stamp ∈ state.capturedStamp ∨
        StampAt generation events state.events stamp := by
  induction events generalizing state with
  | nil =>
    cases h
    exact ⟨trivial, fun _ h => (by cases h), rfl, rfl, fun _ h => .inl h⟩
  | cons event rest ih =>
    rw [List.foldlM_cons] at h
    obtain ⟨next, hnext, hrest⟩ := bind_eq_ok.mp h
    obtain ⟨hprev, hsigned, hnprev, hnevents, -, hnstamp⟩ := verifyEvent_signed hnext
    obtain ⟨hlinked, hall, hfprev, hfevents, hstamps⟩ := ih hrest
    rw [hnprev] at hlinked hfprev
    refine ⟨⟨hprev, hlinked⟩, List.forall_mem_cons.mpr ⟨hsigned, hall⟩, ?_, ?_, ?_⟩
    · rw [hfprev]
      cases rest with
      | nil => rfl
      | cons second rest => rw [List.getLast?_cons_cons, List.getLast?_eq_some_getLast (by simp)]; rfl
    · rw [hfevents, hnevents, List.length_cons]
      simp only [VerifyAccumulator.advance]
      omega
    · intro stamp hstamp
      rcases hstamps stamp hstamp with hold | ⟨hgeneration, i, hi, hseq, hhmac⟩
      · rw [hnstamp] at hold
        refine (VerifyAccumulator.mem_advance_capturedStamp hold).imp_right ?_
        rintro ⟨hgeneration, hseq, hhmac⟩
        exact ⟨hgeneration, 0, by simp, by simpa using hseq, hhmac⟩
      · refine .inr ⟨hgeneration, i + 1, by simpa using hi, ?_, hhmac⟩
        rw [hseq, hnevents]
        simp only [VerifyAccumulator.advance]
        push_cast
        omega

/-- A stamp that an accepting walk reports: the head of the chain or the captured ordinal. -/
def Reported (head : Option ChainStamp) (read : Option ChainStampRead) (stamp : ChainStamp) : Prop :=
  head = some stamp ∨ read = some (.found stamp)

omit [HashSuite] in
/-- The head of a completed walk is the stamp at its last ordinal. -/
theorem verifiedHeadFromOk_stampAt {decoded : List (EventRow × Headers)} {final : VerifyAccumulator}
    (hprev : final.prev = (decoded.getLast?.map eventTag).getD "") (hevents : final.events = decoded.length)
    {stamp : ChainStamp} (h : verifiedHeadFromOk generation final.summary = .ok (some stamp)) :
    StampAt generation decoded 0 stamp := by
  unfold verifiedHeadFromOk at h
  split_ifs at h with hpositive hbound
  · have hne : final.events ≠ 0 := by
      intro hzero
      simp [VerifyAccumulator.summary, hzero] at hpositive
    have hsummary : final.summary = ⟨final.events, hmacLabel final.genesis, hmacLabel final.prev⟩ :=
      if_neg hne
    have hnil : decoded ≠ [] := fun hnil => hne (by rw [hevents, hnil]; rfl)
    have hlength := List.length_pos_iff.mpr hnil
    rw [List.getLast?_eq_some_getLast hnil, List.getLast_eq_getElem] at hprev
    cases h
    refine ⟨rfl, decoded.length - 1, by omega, ?_, ?_⟩
    · simp only [hsummary, hevents]
      omega
    · simp only [hsummary, hprev, List.get_eq_getElem]
      rfl
  · cases h

/-- An accepted table decodes to a linked chain of signed events, and every reported stamp is in it. -/
theorem verifyStatementCapture_valid {db : Database} (hunique : db.UniqueIds) {allowEmpty : Bool}
    {capture : Option ChainSeq} {ok : VerifyOk} {head : Option ChainStamp} {read : Option ChainStampRead}
    (h : verifyStatementCapture key retention world generation db.auditSelect allowEmpty capture =
      .ok (.valid ok head read)) :
    ∃ decoded, List.Forall₂ (fun e d => db.decodeEvent e = .ok d) db.eventsAsc decoded ∧
      Linked eventTag eventPrev "" decoded ∧
      (∀ event ∈ decoded, ∃ kind timestamp, SignedEvent key world generation event kind timestamp) ∧
      ∀ stamp, Reported head read stamp → StampAt generation decoded 0 stamp := by
  unfold verifyStatementCapture at h
  split at h
  case h_1 walked hwalked =>
    cases h
    obtain ⟨final, hwalk, hfinish⟩ := bind_eq_ok.mp hwalked
    rw [Database.auditSelect_eq hunique,
      walkRows_flatMap (Database.eventsAsc_pairwise hunique) (fun _ h => (by cases h))] at hwalk
    obtain ⟨decoded, hdecoded, hfold⟩ := hwalk
    obtain ⟨hlinked, hsigned, hprev, hevents, hstamps⟩ := foldlM_verifyEvent_signed hfold
    refine ⟨decoded, hdecoded, hlinked, hsigned, ?_⟩
    unfold finishWalk at hfinish
    simp only [bind_eq_ok, liftSql_eq_ok, pure_eq_ok, Prod.mk.injEq] at hfinish
    obtain ⟨_, -, _, -, head, hhead, rfl, rfl, rfl⟩ := hfinish
    rintro stamp (rfl | hread)
    · exact verifiedHeadFromOk_stampAt hprev (hevents.trans (Nat.zero_add _)) hhead
    · obtain ⟨seq, -, hseq⟩ := Option.map_eq_some_iff.mp hread
      cases hcaptured : final.capturedStamp with
      | none => rw [hcaptured] at hseq; cases hseq
      | some captured =>
        rw [hcaptured] at hseq
        cases hseq
        exact (hstamps stamp hcaptured).resolve_left (by rintro ⟨⟩)
  · cases h
  · cases h

end

end AuditeDB
