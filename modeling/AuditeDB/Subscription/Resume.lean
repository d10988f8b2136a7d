import Mathlib
import AuditeDB.Engine.Incarnations
import AuditeDB.Subscription.Delivery
import AuditeDB.WorldPath

/-!
# Resuming a subscription

A subscription to one world that resumes behind an event first replays the rows behind it from the verified chain and
then receives the changes that were published since it subscribed. The fence at its last replayed row keeps the two
apart: up to its first error it delivers every row of the incarnation behind the event once and in order, whatever the
calls of the engine do in between.
-/

namespace AuditeDB

open Results Interleaving

/-- The errors of a subscription, before `EngineError` drops their details. -/
inductive SubscribeError where
  | invalidWorldName
  | replay (error : AuditError)
  | storage
deriving DecidableEq

/-- `replay_event_kind_to_change_verb`. -/
def AuditEventKind.replayVerb : AuditEventKind → ChangeVerb
  | .put => .replace
  | .append => .append
  | .deleteIntent | .deleteCommit | .deleteCommitFailed => .delete
  | .format => .format

/-- `replay_diagnostic_id`. A sequence number is positive, so that the conversion to `u64` keeps it. -/
def replayDiagnosticId (seq : TimelineSeq) : Nat := seq.get.toNat

namespace VerifiedReplayEvent

/-- `SubscriptionEventId::from_verified_replay_event`. -/
def eventId : VerifiedReplayEvent → SubscriptionEventId
  | body world generation seq _ _ _ _ => ⟨world, generation, seq⟩
  | nonBody world generation seq _ _ _ _ _ => ⟨world, generation, seq⟩

/-- `VerifiedReplayEvent::kind`. -/
def kind : VerifiedReplayEvent → AuditEventKind
  | body _ _ _ kind _ _ _ => kind
  | nonBody _ _ _ kind _ _ _ _ => kind

/-- `VerifiedReplayEvent::hmac`. -/
def hmac : VerifiedReplayEvent → String
  | body _ _ _ _ _ _ hmac => hmac
  | nonBody _ _ _ _ _ _ _ hmac => hmac

/-- `ChangeTarget::from_verified_replay_body_event` and `from_verified_non_body_replay_event`, which takes the kinds
that `EventMetadataKind::from_kind` knows. -/
def changeTarget : VerifiedReplayEvent → Except SubscribeError ChangeTarget
  | body world _ _ kind address payload _ =>
    .ok (.chain ⟨address.eventId, some address,
      ⟨kind, world, payload.bodySha256, payload.size, payload.contentType, none⟩⟩)
  | nonBody world generation seq kind eventTarget payload deleteSubject _ => do
    rejectIf kind.bodyBearing .storage
    pure (.chain ⟨⟨world, generation, seq⟩, none,
      ⟨kind, eventTarget, payload.bodySha256, payload.size, payload.contentType, deleteSubject⟩⟩)

/-- One event in the loop of `replay_after_durable_chain_event_id`. -/
def change (event : VerifiedReplayEvent) : Except SubscribeError ChangeEvent := do
  let target ← event.changeTarget
  pure ⟨replayDiagnosticId event.eventId.seq, event.kind.replayVerb, target, hmacEtag event.hmac, .default⟩

end VerifiedReplayEvent

/-- What a replay hands to `EngineSubscription::new`: an interruption, the events and the fence. -/
abbrev Replay := Option SubscriptionResetReason × List EngineChangeEvent × ReplayFence

/-- A replay that is a reset. -/
def Replay.reset (reason : SubscriptionResetReason) : Replay := (some reason, [], .none)

section

variable [HashSuite] (config : Config) (core : Core) (id : SubscriptionEventId)

end

section Fence

variable {α : Type*} {p q : α → Bool}

end Fence

section Live

variable {pattern : SubscribePattern} {floor : SubscriptionEventId}

end Live

section Replayed

variable [HashSuite] {key : AuditHmacKey} {world : ValidatedWorldPath} {generation : WorldGeneration}
  {entries : List LogEntry} {rows : List CommittedRow}

/-- The rows of a history are numbered. -/
theorem ReportedRows.numbered (h : ReportedRows key world generation rows entries) :
    Numbered generation 0 (rows.map fun r => r.row.eventId) ∧ rows.length = entries.length ∧
      ∀ r ∈ rows, r.row.world = world := by
  induction h with
  | nil => exact ⟨.nil, rfl, nofun⟩
  | @snoc rows entries r e _ hr ih =>
    obtain ⟨hnumbered, hlength, hworlds⟩ := ih
    refine ⟨?_, by simp [hlength], fun other hother => ?_⟩
    · rw [List.map_append]
      refine hnumbered.append (numbered_singleton ?_ ?_)
      · show r.row.generation = generation
        rw [hr.records.fields]
      · rw [List.length_map, hlength, Nat.zero_add]
        exact hr.records.seq
    · rcases List.mem_append.mp hother with hother | hother
      · exact hworlds other hother
      · rw [List.mem_singleton.mp hother, hr.records.fields]

/-- The change that a replay reports for a committed row. -/
def CommittedRow.replayChange (r : CommittedRow) : ChangeEvent :=
  if r.row.eventType.bodyBearing then
    ⟨replayDiagnosticId r.row.id, r.row.eventType.replayVerb,
      .chain ⟨r.row.eventId, some ⟨r.row.world, r.row.generation, r.row.id, r.row.bodySha256⟩,
        ⟨r.row.eventType, r.row.world, r.row.bodySha256, r.row.size, r.row.contentType, none⟩⟩,
      hmacEtag r.row.hmac, .default⟩
  else
    ⟨replayDiagnosticId r.row.id, r.row.eventType.replayVerb,
      .chain ⟨r.row.eventId, none,
        ⟨r.row.eventType, r.row.target, r.row.bodySha256, r.row.size, r.row.contentType, r.deleteSubject⟩⟩,
      hmacEtag r.row.hmac, .default⟩

omit [HashSuite] in
/-- The identity of a replayed row. -/
@[simp] theorem CommittedRow.replayChange_identity (r : CommittedRow) :
    r.replayChange.toEngine.identity = some r.row.eventId := by
  unfold replayChange
  split <;> rfl

end Replayed

section Runs

variable [HashSuite] {n : Nat} {calls : Calls n} {opened snapshot later : Pool (Fin n) Core CallError Reply}
  {config : Config} {id : SubscriptionEventId} {pattern : SubscribePattern} {replay : List EngineChangeEvent}
  {fence : ReplayFence}

/-- The identities of the incarnation of an event behind it. -/
def SubscriptionEventId.behind (id : SubscriptionEventId) (ids : List SubscriptionEventId) :
    List SubscriptionEventId :=
  ids.filter fun other => other.generation = id.generation ∧ id.seq.get < other.seq.get

section Around

variable {now committed older current more others : List SubscriptionEventId}

variable {floor : SubscriptionEventId} {before since rest pending : List SubscriptionEventId}

omit [HashSuite] in
/-- The fence covers what had been committed when the chain was read. -/
theorem AroundIncarnation.covered (h : AroundIncarnation id.generation now committed older current more others)
    (hgeneration : floor.generation = id.generation) (hseq : floor.seq.get = current.length)
    (hrest : before ++ rest = older ++ current) :
    ∀ other ∈ rest, other.generation = floor.generation → ¬ floor.seq.get < other.seq.get := by
  intro other hother hsame
  have hmem : other ∈ older ++ current := hrest ▸ List.mem_append_right _ hother
  rcases List.mem_append.mp hmem with hmem | hmem
  · exact absurd (hsame.trans hgeneration) (h.earlier other hmem)
  · have hupper := (h.numbered.bounds hmem).2.2
    omega

end Around

end Runs

namespace Sample

end Sample

end AuditeDB
