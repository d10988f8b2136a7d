import Mathlib
import AuditeDB.Audit.Gate
import AuditeDB.Audit.Signed

/-!
# Chain heads and stamps

The head of a chain and the stamp at one of its ordinals come from the same walk that verifies the chain. The
ordinal to capture has no influence on the checks of the walk, so that the three readers agree on every table.
-/

namespace AuditeDB

open Utf8 Results HashChain

/-- `VerifyReport`. -/
inductive VerifyReport where
  | valid (ok : VerifyOk)
  | broken (report : VerifyBreak)
deriving DecidableEq

section

variable [HashSuite] (key : AuditHmacKey) (world : ValidatedWorldPath)

/-- `verify_chain_via_conn`. -/
def verifyChainViaConn (db : Database) : SqlResult VerifyReport := do
  let generation ← generation db
  let retention ← CasRetentionState.load db
  match ← verifyStatementCapture key retention world generation db.auditSelect false none with
  | .broken report => return .broken report
  | .valid ok _ _ =>
    match ← verifyLiveBody db with
    | some report => return .broken report
    | none => return .valid ok

/-- `chain_head_via_conn`. -/
def chainHeadViaConn (db : Database) : AuditResult (Option ChainStamp) := do
  let generation ← liftSql (generation db)
  let retention ← liftSql (CasRetentionState.load db)
  match ← liftSql (verifyStatementCapture key retention world generation db.auditSelect true none) with
  | .valid _ head _ => return head
  | .broken report => throw (.chainBroken report)

/-- `chain_stamp_via_conn`. -/
def chainStampViaConn (seq : ChainSeq) (db : Database) : AuditResult ChainStampRead := do
  let generation ← liftSql (generation db)
  let retention ← liftSql (CasRetentionState.load db)
  match ← liftSql (verifyStatementCapture key retention world generation db.auditSelect true (some seq)) with
  | .valid _ _ (some stamp) => return stamp
  | .valid _ _ none =>
    throw (.storage (.invalidParameterName "audit stamp verifier did not return a stamp result"))
  | .broken report => throw (.chainBroken report)

end

/-- A state of the walk with another ordinal to capture and another captured stamp. -/
def VerifyAccumulator.capturing (state : VerifyAccumulator) (capture : Option ChainSeq)
    (stamp : Option ChainStamp) : VerifyAccumulator :=
  { state with captureStampAt := capture, capturedStamp := stamp }

/-- The stamp after one more event. -/
def captureNext (generation : WorldGeneration) (capture : Option ChainSeq) (before : Nat) (stamp : Option ChainStamp)
    (event : EventRow × Headers) : Option ChainStamp :=
  match capture with
  | some seq => if seq.get = before + 1 then some ⟨generation, seq, hmacLabel (eventTag event)⟩ else stamp
  | none => stamp

/-- The stamp after a list of events. -/
def captureAll (generation : WorldGeneration) (capture : Option ChainSeq) :
    Nat → Option ChainStamp → List (EventRow × Headers) → Option ChainStamp
  | _, stamp, [] => stamp
  | before, stamp, event :: rest =>
    captureAll generation capture (before + 1) (captureNext generation capture before stamp event) rest

/-- A list of events has a stamp for exactly its own ordinals. -/
theorem captureAll_eq (generation : WorldGeneration) (seq : ChainSeq) (before : Nat) (stamp : Option ChainStamp)
    (events : List (EventRow × Headers)) :
    captureAll generation (some seq) before stamp events =
      if h : before < seq.get ∧ seq.get ≤ before + events.length then
        some ⟨generation, seq, hmacLabel (eventTag (events.get ⟨seq.get.toNat - before - 1, by omega⟩))⟩
      else stamp := by
  induction events generalizing before stamp with
  | nil =>
    rw [captureAll, dif_neg]
    simp only [List.length_nil]
    omega
  | cons event rest ih =>
    rw [captureAll, ih, captureNext]
    by_cases hnow : seq.get = before + 1
    · have hindex : seq.get.toNat - before - 1 = 0 := by omega
      rw [dif_neg (by omega), if_pos hnow, dif_pos (by simp only [List.length_cons]; omega)]
      simp only [hindex, List.get_cons_zero, Fin.mk_zero']
    · by_cases hlater : ((before + 1 : Nat) : Int) < seq.get ∧ seq.get ≤ ((before + 1 : Nat) : Int) + rest.length
      · have hindex : seq.get.toNat - before - 1 = seq.get.toNat - (before + 1) - 1 + 1 := by omega
        rw [dif_pos hlater, dif_pos (by simp only [List.length_cons]; omega)]
        simp only [hindex, List.get_cons_succ]
      · rw [dif_neg hlater, dif_neg (by simp only [List.length_cons]; omega), if_neg hnow]

section

variable [HashSuite] {key : AuditHmacKey} {retention : CasRetentionState} {world : ValidatedWorldPath}
  {generation : WorldGeneration}

omit [HashSuite] in
/-- The retention checks do not depend on the capture. -/
theorem verifyRetainedBody_capturing (row : EventRow) (kind : AuditEventKind) (idx : Nat)
    (state : VerifyAccumulator) (capture : Option ChainSeq) (stamp : Option ChainStamp) :
    verifyRetainedBody row kind idx retention (state.capturing capture stamp) =
      (verifyRetainedBody row kind idx retention state).map (·.capturing capture stamp) := by
  unfold verifyRetainedBody
  split
  · rfl
  · next floor _ =>
    have hnote : (state.capturing capture stamp).noteBodyEvent row kind idx =
        (state.noteBodyEvent row kind idx).map (·.capturing capture stamp) := by
      unfold VerifyAccumulator.noteBodyEvent
      change (if (kind.bodyBearing && state.firstBodyEvent.isNone) = true then _ else _) = _
      split
      · cases TimelineSeq.new row.id <;> rfl
      · rfl
    rw [hnote]
    cases state.noteBodyEvent row kind idx with
    | error report => rfl
    | ok noted =>
      simp only [Except.map, ok_bind]
      unfold rejectIf
      split
      · rfl
      · split
        · rfl
        · cases BodySha256.new row.bodySha256 with
          | error reason => rfl
          | ok digest =>
            cases hlookup : retention.bodies.lookup digest with
            | none => simp only [Except.mapError, ok_bind, requireSome, hlookup]; rfl
            | some len =>
              simp only [Except.mapError, ok_bind, requireSome, hlookup]
              split <;> rfl

/-- One event is checked alike under every capture. -/
theorem verifyEvent_capturing (event : EventRow × Headers) (state : VerifyAccumulator) (capture : Option ChainSeq)
    (stamp : Option ChainStamp) :
    verifyEvent key retention world generation (state.capturing capture stamp) event =
      (verifyEvent key retention world generation state event).map
        (·.capturing capture (captureNext generation capture state.events stamp event)) := by
  unfold verifyEvent
  change (verifySignature key world generation event.1 event.2 state.prev state.events >>= fun kind =>
    verifyRetainedBody event.1 kind state.events retention (state.capturing capture stamp) >>= _) = _
  cases hsigned : verifySignature key world generation event.1 event.2 state.prev state.events with
  | error report => rfl
  | ok kind =>
    rw [ok_bind, ok_bind, verifyRetainedBody_capturing]
    cases hretained : verifyRetainedBody event.1 kind state.events retention state with
    | error report => rfl
    | ok next =>
      have hevents : next.events = state.events := (verifyRetainedBody_sameChain hretained).2.1
      simp only [Except.map, ok_bind]
      rw [← hevents]
      cases capture <;> rfl

/-- A walk is the same under every capture. -/
theorem foldlM_verifyEvent_capturing (events : List (EventRow × Headers)) (state : VerifyAccumulator)
    (capture : Option ChainSeq) (stamp : Option ChainStamp) :
    events.foldlM (verifyEvent key retention world generation) (state.capturing capture stamp) =
      (events.foldlM (verifyEvent key retention world generation) state).map
        (·.capturing capture (captureAll generation capture state.events stamp events)) := by
  induction events generalizing state stamp with
  | nil => rfl
  | cons event rest ih =>
    rw [List.foldlM_cons, List.foldlM_cons, verifyEvent_capturing]
    cases hevent : verifyEvent key retention world generation state event with
    | error report => rfl
    | ok next =>
      have hevents : next.events = state.events + 1 := by
        obtain ⟨-, -, -, hcount, -⟩ := verifyEvent_signed hevent
        rw [hcount]
        rfl
      simp only [Except.map, ok_bind, captureAll]
      rw [ih, hevents]
      rfl

/-- A table is accepted exactly when its events decode, the walk over them succeeds and the final checks pass on the
captured stamp. -/
theorem verifyStatementCapture_eq_valid {db : Database} (hunique : db.UniqueIds) {allowEmpty : Bool}
    {capture : Option ChainSeq} {ok : VerifyOk} {head : Option ChainStamp} {read : Option ChainStampRead} :
    verifyStatementCapture key retention world generation db.auditSelect allowEmpty capture =
        .ok (.valid ok head read) ↔
      ∃ decoded final, List.Forall₂ (fun e d => db.decodeEvent e = .ok d) db.eventsAsc decoded ∧
        decoded.foldlM (verifyEvent key retention world generation) (.start retention none) = .ok final ∧
        finishWalk retention generation allowEmpty capture
          (final.capturing capture (captureAll generation capture 0 none decoded)) = .ok (ok, head, read) := by
  have hwalk : ∀ state, walkRows key retention world generation db.auditSelect none (.start retention capture) =
      .ok state ↔ ∃ decoded final, List.Forall₂ (fun e d => db.decodeEvent e = .ok d) db.eventsAsc decoded ∧
        decoded.foldlM (verifyEvent key retention world generation) (.start retention none) = .ok final ∧
        state = final.capturing capture (captureAll generation capture 0 none decoded) := by
    intro state
    rw [Database.auditSelect_eq hunique,
      walkRows_flatMap (Database.eventsAsc_pairwise hunique) (fun _ h => (by cases h))]
    refine exists_congr fun decoded => ?_
    change _ ∧ decoded.foldlM _ ((VerifyAccumulator.start retention none).capturing capture none) = _ ↔ _
    rw [foldlM_verifyEvent_capturing, exists_and_left]
    refine and_congr_right fun _ => ?_
    cases decoded.foldlM (verifyEvent key retention world generation) (.start retention none) with
    | error report => simp [Except.map]
    | ok final =>
      simp only [Except.map, Except.ok.injEq, exists_eq_left']
      exact eq_comm
  unfold verifyStatementCapture
  constructor
  · intro h
    split at h
    · next walked hwalked =>
      cases h
      obtain ⟨state, hstate, hfinish⟩ := bind_eq_ok.mp hwalked
      obtain ⟨decoded, final, hdecoded, hfold, rfl⟩ := (hwalk state).mp hstate
      exact ⟨decoded, final, hdecoded, hfold, hfinish⟩
    · cases h
    · cases h
  · rintro ⟨decoded, final, hdecoded, hfold, hfinish⟩
    rw [(hwalk _).mpr ⟨decoded, final, hdecoded, hfold, rfl⟩, ok_bind, hfinish]

omit [HashSuite] in
/-- What the final checks of a walk accept. -/
theorem finishWalk_eq_ok {allowEmpty : Bool} {capture : Option ChainSeq} {state : VerifyAccumulator} {ok : VerifyOk}
    {head : Option ChainStamp} {read : Option ChainStampRead} :
    finishWalk retention generation allowEmpty capture state = .ok (ok, head, read) ↔
      verifyCompletion state retention = .ok () ∧ (state.events ≠ 0 ∨ allowEmpty = true) ∧
        verifiedHeadFromOk generation state.summary = .ok head ∧ ok = state.summary ∧
        read = verifiedStampFromCompletedWalk generation capture state := by
  simp only [finishWalk, bind_eq_ok, rejectIf_eq_ok, liftSql_eq_ok, pure_eq_ok, liftBreak, mapError_eq_ok,
    Prod.mk.injEq]
  constructor
  · rintro ⟨_, hcompletion, _, hempty, _, hhead, rfl, rfl, rfl⟩
    exact ⟨hcompletion, by simpa [or_iff_not_imp_left] using hempty, hhead, rfl, rfl⟩
  · rintro ⟨hcompletion, hempty, hhead, rfl, rfl⟩
    exact ⟨⟨⟩, hcompletion, ⟨⟩, by simpa [or_iff_not_imp_left] using hempty, _, hhead, rfl, rfl, rfl⟩

omit [HashSuite] in
/-- The final checks do not depend on the capture. -/
theorem finishWalk_capturing {allowEmpty : Bool} {state : VerifyAccumulator} {ok : VerifyOk} {head : Option ChainStamp}
    {read : Option ChainStampRead} {stamp : Option ChainStamp}
    (h : finishWalk retention generation allowEmpty none (state.capturing none stamp) = .ok (ok, head, read))
    (capture' : Option ChainSeq) (stamp' : Option ChainStamp) :
    finishWalk retention generation true capture' (state.capturing capture' stamp') =
      .ok (ok, head, verifiedStampFromCompletedWalk generation capture' (state.capturing capture' stamp')) := by
  obtain ⟨hcompletion, -, hhead, hok, -⟩ := finishWalk_eq_ok.mp h
  exact finishWalk_eq_ok.mpr ⟨hcompletion, .inr rfl, hhead, hok, rfl⟩

/-- What a chain of decoded events answers to an ordinal. -/
def stampIn (generation : WorldGeneration) (decoded : List (EventRow × Headers)) (seq : ChainSeq) : ChainStampRead :=
  match decoded[seq.get.toNat - 1]? with
  | some event => .found ⟨generation, seq, hmacLabel (eventTag event)⟩
  | none => .missing generation seq decoded.length

omit [HashSuite] in
/-- The stamp of a walk is the one of its events. -/
theorem captureAll_stampIn (generation : WorldGeneration) (decoded : List (EventRow × Headers)) (seq : ChainSeq)
    {state : VerifyAccumulator} (hevents : state.events = decoded.length) :
    verifiedStampFromCompletedWalk generation (some seq)
        (state.capturing (some seq) (captureAll generation (some seq) 0 none decoded)) =
      some (stampIn generation decoded seq) := by
  have hpositive := seq.positive
  rw [captureAll_eq, verifiedStampFromCompletedWalk, Option.map_some, stampIn]
  by_cases hinside : seq.get ≤ decoded.length
  · have hindex : seq.get.toNat - 1 < decoded.length := by omega
    rw [dif_pos ⟨by simpa using hpositive, by simpa using hinside⟩, List.getElem?_eq_getElem hindex]
    simp only [VerifyAccumulator.capturing, Nat.sub_zero]
    rfl
  · rw [dif_neg (by simp [hinside]), List.getElem?_eq_none (by omega)]
    simp only [VerifyAccumulator.capturing, hevents]

/-- All readers of an accepted table see the same chain. -/
theorem stamps_of_valid {db : Database} (hunique : db.UniqueIds)
    (hgeneration : AuditeDB.generation db = .ok generation) (hload : CasRetentionState.load db = .ok retention)
    {allowEmpty : Bool} {ok : VerifyOk} {head : Option ChainStamp} {read : Option ChainStampRead}
    (hvalid : verifyStatementCapture key retention world generation db.auditSelect allowEmpty none =
      .ok (.valid ok head read)) :
    ∃ decoded, List.Forall₂ (fun e d => db.decodeEvent e = .ok d) db.eventsAsc decoded ∧
      ok.events = decoded.length ∧ chainHeadViaConn key world db = .ok head ∧
      ∀ seq, chainStampViaConn key world seq db = .ok (stampIn generation decoded seq) := by
  obtain ⟨decoded, final, hdecoded, hfold, hfinish⟩ := (verifyStatementCapture_eq_valid hunique).mp hvalid
  have hevents : final.events = decoded.length :=
    (foldlM_verifyEvent_signed hfold).2.2.2.1.trans (Nat.zero_add _)
  have hread : ∀ capture, verifyStatementCapture key retention world generation db.auditSelect true capture =
      .ok (.valid ok head (verifiedStampFromCompletedWalk generation capture
        (final.capturing capture (captureAll generation capture 0 none decoded)))) := fun capture =>
    (verifyStatementCapture_eq_valid hunique).mpr
      ⟨decoded, final, hdecoded, hfold, finishWalk_capturing hfinish capture _⟩
  refine ⟨decoded, hdecoded, ?_, ?_, fun seq => ?_⟩
  · obtain ⟨-, -, -, rfl, -⟩ := finishWalk_eq_ok.mp hfinish
    change (final.summary).events = decoded.length
    rw [← hevents, VerifyAccumulator.summary]
    split
    · next hzero => exact hzero.symm
    · rfl
  · simp only [chainHeadViaConn, hgeneration, hload, hread none, liftSql, Except.mapError, ok_bind]
    rfl
  · simp only [chainStampViaConn, hgeneration, hload, hread (some seq), liftSql, Except.mapError, ok_bind,
      captureAll_stampIn generation decoded seq hevents]
    rfl

/-- The HMAC of an event in the order of row ids. -/
def Database.hmacAt (db : Database) (ordinal : Nat) : Option String :=
  (db.eventsAsc[ordinal - 1]?).bind fun e => e.read.toOption.map EventRow.hmac

/-- The readers of a chain agree with its verification: the head is the last event, and the stamps are exactly the
events. -/
structure StampsAgree (key : AuditHmacKey) (world : ValidatedWorldPath) (db : Database) (ok : VerifyOk) : Prop where
  head : ∃ stamp generation, AuditeDB.generation db = .ok generation ∧
    chainHeadViaConn key world db = .ok (some stamp) ∧ stamp.generation = generation ∧
    stamp.seq.get = ok.events ∧ stamp.hmac = ok.latest
  found : ∀ seq : ChainSeq, seq.get ≤ ok.events → ∃ generation hmac, AuditeDB.generation db = .ok generation ∧
    db.hmacAt seq.get.toNat = some hmac ∧
    chainStampViaConn key world seq db = .ok (.found ⟨generation, seq, hmacLabel hmac⟩)
  missing : ∀ seq : ChainSeq, ok.events < seq.get → ∃ generation, AuditeDB.generation db = .ok generation ∧
    chainStampViaConn key world seq db = .ok (.missing generation seq ok.events)

/-- On every table that is reported as valid the head and the stamps agree with the report. -/
theorem stampsAgree_of_valid {db : Database} (hunique : db.UniqueIds) {ok : VerifyOk}
    (hvalid : verifyChainViaConn key world db = .ok (.valid ok)) : StampsAgree key world db ok := by
  obtain ⟨generation, hgeneration, hvalid⟩ := bind_eq_ok.mp hvalid
  obtain ⟨retention, hload, hvalid⟩ := bind_eq_ok.mp hvalid
  obtain ⟨report, hreport, hvalid⟩ := bind_eq_ok.mp hvalid
  cases report with
  | broken report => cases hvalid
  | valid ok' head read =>
    obtain rfl : ok' = ok := by
      obtain ⟨live, -, hvalid⟩ := bind_eq_ok.mp hvalid
      cases live <;> cases hvalid
      rfl
    obtain ⟨decoded, hdecoded, hevents, hhead, hstamps⟩ := stamps_of_valid hunique hgeneration hload hreport
    obtain ⟨_, final, -, -, hfinish⟩ := (verifyStatementCapture_eq_valid hunique).mp hreport
    obtain ⟨-, hempty, hverified, hok, -⟩ := finishWalk_eq_ok.mp hfinish
    refine ⟨?_, fun seq hseq => ?_, fun seq hseq => ?_⟩
    · -- The verification does not accept an empty chain, so there is a head.
      have hne : final.events ≠ 0 := hempty.resolve_right (by decide)
      have hcount : ok'.events = final.events := by
        rw [hok]
        exact congrArg VerifyOk.events (if_neg hne)
      rw [← hok] at hverified
      unfold verifiedHeadFromOk at hverified
      split_ifs at hverified with hpositive hbound
      · cases hverified
        exact ⟨_, generation, hgeneration, hhead, rfl, rfl, rfl⟩
      · exact absurd hpositive (by omega)
    · have hpositive := seq.positive
      have hindex : seq.get.toNat - 1 < decoded.length := by omega
      have hlength := hdecoded.length_eq
      have hdecode := hdecoded.get (show seq.get.toNat - 1 < db.eventsAsc.length by omega) hindex
      refine ⟨generation, eventTag decoded[seq.get.toNat - 1], hgeneration, ?_, ?_⟩
      · have hrow := (Database.decodeEvent_eq_ok.mp hdecode).1
        rw [List.get_eq_getElem] at hrow
        rw [Database.hmacAt, List.getElem?_eq_getElem (by omega), Option.bind_some, hrow]
        rfl
      · rw [hstamps, stampIn, List.getElem?_eq_getElem hindex]
    · refine ⟨generation, hgeneration, ?_⟩
      rw [hstamps, stampIn, List.getElem?_eq_none (by omega), hevents]

end

end AuditeDB
