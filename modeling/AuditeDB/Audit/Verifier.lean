import Mathlib
import AuditeDB.Audit.Headers

/-!
# The verifier walk over the audit chain

The walk reads the joined rows of `events` and `event_headers` in order, groups them by event, and checks
every event against the one before it and against the retained bodies.
-/

namespace AuditeDB

open Utf8 Results

/-- `CasRetentionState`: the retention floor and the sizes of the retained bodies. -/
structure CasRetentionState where
  firstRetainedSeq : Option TimelineSeq
  bodies : AList fun _ : BodySha256 => Int

/-- `CasRetentionState::tail_unchecked`. -/
def CasRetentionState.tailUnchecked : CasRetentionState := ⟨none, ∅⟩

/-- `ChainSeq`: a positive ordinal inside a chain. -/
@[ext] structure ChainSeq where
  get : Int
  positive : 0 < get

instance : DecidableEq ChainSeq := fun a b => decidable_of_iff (a.get = b.get) ChainSeq.ext_iff.symm

/-- `ChainStamp`: a generation, an ordinal and the HMAC label at it. -/
structure ChainStamp where
  generation : WorldGeneration
  seq : ChainSeq
  hmac : String
deriving DecidableEq

/-- `ChainStampRead`. -/
inductive ChainStampRead where
  | found (stamp : ChainStamp)
  | missing (generation : WorldGeneration) (requested : ChainSeq) (observed : Nat)
deriving DecidableEq

/-- `VerifyAccumulator`: the state of the walk. -/
structure VerifyAccumulator where
  prev : String
  genesis : String
  events : Nat
  firstBodyEvent : Option TimelineSeq
  sawRetentionFloor : Bool
  referencedRetainedBodies : Finset BodySha256
  captureStampAt : Option ChainSeq
  capturedStamp : Option ChainStamp

/-- The state in which a walk starts. -/
def VerifyAccumulator.start (retention : CasRetentionState) (capture : Option ChainSeq) :
    VerifyAccumulator :=
  ⟨"", "", 0, none, retention.firstRetainedSeq.isNone, ∅, capture, none⟩

/-- `VerifyOk`. -/
structure VerifyOk where
  events : Nat
  genesis : String
  latest : String
deriving DecidableEq

/-- `VerifyCapturedReport`. -/
inductive VerifyCapturedReport where
  | valid (ok : VerifyOk) (head : Option ChainStamp) (stamp : Option ChainStampRead)
  | broken (report : VerifyBreak)
deriving DecidableEq

/-- Remember the first body event. -/
def VerifyAccumulator.noteBodyEvent (state : VerifyAccumulator) (row : EventRow) (kind : AuditEventKind)
    (idx : Nat) : Except VerifyBreak VerifyAccumulator :=
  if kind.bodyBearing && state.firstBodyEvent.isNone then do
    let seq ← (TimelineSeq.new row.id).mapError
      fun _ => ⟨idx, "positive body-bearing event id", s!"event-id-{row.id}"⟩
    pure { state with firstBodyEvent := some seq }
  else pure state

/-- Record a retained body that an event refers to. -/
def VerifyAccumulator.reference (state : VerifyAccumulator) (row : EventRow) (floor : TimelineSeq)
    (bodySha256 : BodySha256) : VerifyAccumulator :=
  { state with
    sawRetentionFloor := state.sawRetentionFloor || row.id = floor.get
    referencedRetainedBodies := insert bodySha256 state.referencedRetainedBodies }

/-- `verify_retained_body`: the checks of one event against the retained bodies. -/
def verifyRetainedBody (row : EventRow) (kind : AuditEventKind) (idx : Nat)
    (retention : CasRetentionState) (state : VerifyAccumulator) :
    Except VerifyBreak VerifyAccumulator :=
  match retention.firstRetainedSeq with
  | none => pure state
  | some floor => do
    let state ← state.noteBodyEvent row kind idx
    rejectIf (row.id = floor.get && !kind.bodyBearing)
      ⟨idx, s!"body-bearing event at first_retained_seq {floor.get}", row.eventType⟩
    if row.id < floor.get || !kind.bodyBearing then return state
    let bodySha256 ← (BodySha256.new row.bodySha256).mapError
      fun _ => ⟨idx, "valid body_sha256", s!"body-sha256-{row.bodySha256}"⟩
    let len ← requireSome ⟨idx, s!"cas-body-{row.bodySha256}", "missing-cas-body"⟩
      (retention.bodies.lookup bodySha256)
    rejectIf (len ≠ row.size) ⟨idx, s!"cas-body-size-{row.size}", s!"cas-body-size-{len}"⟩
    return state.reference row floor bodySha256

/-- `verify_completion`: the checks after the last event. -/
def verifyCompletion (state : VerifyAccumulator) (retention : CasRetentionState) :
    Except VerifyBreak Unit := do
  rejectIf (!state.sawRetentionFloor)
    (match retention.firstRetainedSeq with
    | none => ⟨state.events, "retention floor", "unset-retention-floor"⟩
    | some floor => ⟨state.events, s!"body-bearing event at first_retained_seq {floor.get}",
        "missing-retention-floor-event"⟩)
  rejectIf (state.referencedRetainedBodies.card ≠ retention.bodies.entries.length)
    ⟨state.events, "all CAS bodies referenced by retained events", "unreferenced-cas-body"⟩

/-- The version header of a format row. -/
def hasFormatVersion (headers : Headers) : Bool :=
  headers.any fun h => h.1 = worldFormatVersionHeader && h.2 = toString currentWorldFormatVersion

section

variable [HashSuite] (key : AuditHmacKey) (retention : CasRetentionState) (world : ValidatedWorldPath)
  (generation : WorldGeneration)

/-- The input of the HMAC that the verifier recomputes for a row. -/
def EventRow.hmacInput (row : EventRow) (world : ValidatedWorldPath) (generation : WorldGeneration)
    (prev : String) (timestamp : AuditTimestamp) : EventHmacInput :=
  ⟨prev, world, timestamp, row.eventType, row.target, generation, row.bodySha256, row.size,
    row.contentType, row.metaSha256⟩

/-- The part of `verify_event` before the retention check: kind, target, link, version, subject, metadata
digest, timestamp and HMAC. -/
def verifySignature (row : EventRow) (headers : Headers) (prev : String) (idx : Nat) :
    Except VerifyBreak AuditEventKind := do
  let kind ← requireSome ⟨idx, "known-event-type", s!"event-type-{row.eventType}"⟩
    (AuditEventKind.fromStorage row.eventType)
  rejectIf ((kind.bodyBearing || kind = .format) && world.name ≠ row.target)
    ⟨idx, s!"target-{world.name}", s!"target-{row.target}"⟩
  rejectIf (!ctEqStr row.prevHmac prev) ⟨idx, hmacLabel prev, hmacLabel row.prevHmac⟩
  rejectIf (kind = .format && !hasFormatVersion headers)
    ⟨idx, s!"{worldFormatVersionHeader}-{currentWorldFormatVersion}", "missing-world-format-version"⟩
  verifyDeleteSubjectProof row headers kind idx
  let expectedMeta := metaSha256Canonical row.contentType headers
  rejectIf (!ctEqStr expectedMeta row.metaSha256)
    ⟨idx, s!"meta-sha256-{expectedMeta}", s!"meta-sha256-{row.metaSha256}"⟩
  let timestamp ← (AuditTimestamp.fromStorage row.timestamp).mapError
    fun actual => ⟨idx, "timestamp-sqlite-utc-ms", s!"timestamp-{actual}"⟩
  let expectedHmac := eventHmac key (row.hmacInput world generation prev timestamp)
  rejectIf (!ctEqStr expectedHmac row.hmac) ⟨idx, hmacLabel expectedHmac, hmacLabel row.hmac⟩
  return kind

/-- The part of `verify_event` after its checks: capture the stamp, remember genesis, advance. -/
def VerifyAccumulator.advance (state : VerifyAccumulator) (generation : WorldGeneration)
    (row : EventRow) : VerifyAccumulator :=
  { state with
    capturedStamp := match state.captureStampAt with
      | some seq => if seq.get = state.events + 1 then some ⟨generation, seq, hmacLabel row.hmac⟩
        else state.capturedStamp
      | none => state.capturedStamp
    genesis := if state.events = 0 then row.hmac else state.genesis
    prev := row.hmac
    events := state.events + 1 }

/-- `verify_event`. -/
def verifyEvent (state : VerifyAccumulator) (event : EventRow × Headers) :
    Except VerifyBreak VerifyAccumulator := do
  let kind ← verifySignature key world generation event.1 event.2 state.prev state.events
  let state ← verifyRetainedBody event.1 kind state.events retention state
  return state.advance generation event.1

end

/-- A row of the join of `events` with `event_headers`. -/
structure JoinedRow where
  event : EventRecord
  name : SqlValue
  value : SqlValue
deriving DecidableEq

/-- The rows that the left join makes of one event. The header column has integer affinity, so a stored
number equal to a row id is that integer. -/
def Database.joinHeaders (db : Database) (e : EventRecord) : List JoinedRow :=
  match db.eventHeaders.filter (·.eventId = .integer e.id) with
  | [] => [⟨e, .null, .null⟩]
  | headers => headers.map fun h => ⟨e, h.name, h.value⟩

/-- The order of the joined rows of one event. -/
def JoinedRow.headerKey (row : JoinedRow) : (Nat ×ₗ Rat ×ₗ List Nat) ×ₗ (Nat ×ₗ Rat ×ₗ List Nat) :=
  toLex (row.name.sortKey, row.value.sortKey)

/-- `AUDIT_SELECT`: all joined rows ordered by event id, header name and header value. -/
def Database.auditSelect (db : Database) : List JoinedRow :=
  (db.eventsAsc.flatMap db.joinHeaders).insertionSort fun a b =>
    toLex (a.event.id, a.headerKey) ≤ toLex (b.event.id, b.headerKey)

section

variable [HashSuite] (key : AuditHmacKey) (retention : CasRetentionState) (world : ValidatedWorldPath)
  (generation : WorldGeneration)

/-- A break of the chain as an audit error. -/
def liftBreak {α : Type} (result : Except VerifyBreak α) : AuditResult α := result.mapError .chainBroken

/-- Add the header of a joined row to the headers of its event. -/
def pushHeader (headers : Headers) (name value : Option String) : Headers :=
  match name, value with
  | some name, some value => headers ++ [(name, value)]
  | _, _ => headers

/-- The check of the event that was being collected when the next one starts. -/
def finishEvent (current : Option (EventRow × Headers)) (state : VerifyAccumulator) :
    AuditResult VerifyAccumulator :=
  match current with
  | some event => liftBreak (verifyEvent key retention world generation state event)
  | none => pure state

/-- The loop of `verify_statement_capture`, with the event that is being collected. -/
def walkRows : List JoinedRow → Option (EventRow × Headers) → VerifyAccumulator →
    AuditResult VerifyAccumulator
  | [], current, state => finishEvent key retention world generation current state
  | joined :: rows, current, state => do
    let row ← liftSql joined.event.read
    let finished := current.filter fun event => event.1.id ≠ row.id
    let state ← finishEvent key retention world generation finished state
    let (event, headers) := (current.filter fun event => event.1.id = row.id).getD (row, [])
    let name ← liftSql joined.name.getOptionString
    let value ← liftSql joined.value.getOptionString
    walkRows rows (some (event, pushHeader headers name value)) state

/-- `verified_head_from_ok`: the head stamp of a verified chain. -/
def verifiedHeadFromOk (generation : WorldGeneration) (ok : VerifyOk) : SqlResult (Option ChainStamp) :=
  if h : 0 < (ok.events : Int) then
    if ok.events ≤ i64Max then .ok (some ⟨generation, ⟨ok.events, h⟩, ok.latest⟩)
    else .error (.invalidParameterName "verified audit chain event count exceeds supported range")
  else .ok none

/-- `verified_stamp_from_completed_walk`. -/
def verifiedStampFromCompletedWalk (generation : WorldGeneration) (requested : Option ChainSeq)
    (state : VerifyAccumulator) : Option ChainStampRead :=
  requested.map fun seq =>
    match state.capturedStamp with
    | some stamp => .found stamp
    | none => .missing generation seq state.events

/-- The summary of a completed walk. -/
def VerifyAccumulator.summary (state : VerifyAccumulator) : VerifyOk :=
  if state.events = 0 then ⟨0, hmacLabel "", hmacLabel ""⟩
  else ⟨state.events, hmacLabel state.genesis, hmacLabel state.prev⟩

/-- The part of `verify_statement_capture` after the loop. -/
def finishWalk (allowEmpty : Bool) (capture : Option ChainSeq) (state : VerifyAccumulator) :
    AuditResult (VerifyOk × Option ChainStamp × Option ChainStampRead) := do
  liftBreak (verifyCompletion state retention)
  rejectIf (state.events = 0 && !allowEmpty) (.chainBroken ⟨0, "at-least-one-event", "no-events"⟩)
  let head ← liftSql (verifiedHeadFromOk generation state.summary)
  return (state.summary, head, verifiedStampFromCompletedWalk generation capture state)

/-- `verify_statement_capture` over the rows of a statement. -/
def verifyStatementCapture (rows : List JoinedRow) (allowEmpty : Bool) (capture : Option ChainSeq) :
    SqlResult VerifyCapturedReport :=
  match (walkRows key retention world generation rows none (.start retention capture)) >>=
      finishWalk retention generation allowEmpty capture with
  | .ok (ok, head, stamp) => .ok (.valid ok head stamp)
  | .error (.chainBroken report) => .ok (.broken report)
  | .error (.storage error) => .error error

end

end AuditeDB
