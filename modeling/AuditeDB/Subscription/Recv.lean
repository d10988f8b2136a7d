import Mathlib
import AuditeDB.Engine.Feed

/-!
# Receiving from a subscription

`EngineSubscription::recv` as a state machine. A call is a future: it runs in turns of its loop, it is suspended only
while it waits for the broadcast channel and the shutdown signal, and it may be dropped there. The loop moves the
state out of the subscription at the start of every turn, so that a suspended call holds the live subscription.
-/

namespace AuditeDB

/-- `SubscriptionResetReason`. -/
inductive SubscriptionResetReason where
  | incarnation | truncation | ringMiss | memory
deriving DecidableEq

/-- `SubscriptionRecvError`. -/
inductive SubscriptionRecvError where
  | closed
  | lagged (skipped : Nat)
  | reset (reason : SubscriptionResetReason)
deriving DecidableEq

/-- `ReplayFence`. -/
inductive ReplayFence where
  | none
  | processLocal (floor : Nat)
  | durable (floor : SubscriptionEventId)
deriving DecidableEq

/-- The `ChangeEvent` of the engine's interface. -/
structure EngineChangeEvent where
  id : Nat
  identity : Option SubscriptionEventId
  verb : ChangeVerb
  path : ValidatedWorldPath
  etag : String
  timelineAddress : Option TimelineAddress
  deleteLedgerEventId : Option SubscriptionEventId
  deleteSubject : Option DeleteSubjectProof
  auditEventType : Option AuditEventKind
  auditEventTarget : Option ValidatedWorldPath
  bodySha256 : Option BodySha256
  bodySize : Option Int
  contentType : Option String
deriving DecidableEq

/-- `ChangeTarget::into_timeline_parts`: the address and the payload of a target. -/
def ChangeTarget.timelineParts : ChangeTarget → Option TimelineAddress × Option AuditEventPayload
  | chain event => (event.timelineAddress, some event.auditPayload)
  | ephemeral _ => (none, none)

/-- `From<event::ChangeEvent> for ChangeEvent`. -/
def ChangeEvent.toEngine (event : ChangeEvent) : EngineChangeEvent :=
  let (timelineAddress, auditPayload) := event.target.timelineParts
  { id := event.id
    identity := event.identity
    verb := event.verb
    path := event.path
    etag := event.etag
    timelineAddress := timelineAddress
    deleteLedgerEventId := event.aux.deleteLedgerEventId
    deleteSubject := (auditPayload.bind (·.deleteSubject)).or event.aux.deleteSubject
    auditEventType := auditPayload.map (·.kind)
    auditEventTarget := auditPayload.map (·.target)
    bodySha256 := auditPayload.map (·.bodySha256)
    bodySize := auditPayload.map (·.size)
    contentType := auditPayload.map (·.contentType) }

/-- `LiveChangeAction`. -/
inductive LiveChangeAction where
  | accept
  | drop
  | reset (reason : SubscriptionResetReason)
deriving DecidableEq

/-- `live_change_action`. -/
def liveChangeAction (fence : ReplayFence) (pattern : SubscribePattern) (change : ChangeEvent) : LiveChangeAction :=
  if !pattern.matchesWorld change.path then .drop
  else match fence with
    | .none => .accept
    | .processLocal floor =>
      match change.identity with
      | none => .accept
      | some _ => if floor < change.id then .accept else .drop
    | .durable floor =>
      match change.identity with
      | none => .accept
      | some id =>
        if id.world = floor.world then
          if id.generation ≠ floor.generation then .reset .incarnation
          else if id.sameChainAtOrBefore floor then .drop
          else .accept
        else .accept

/-- `DeferredLiveSubscription` and `LiveSubscription`, without the two receivers, which belong to whoever holds the
live subscription. -/
structure LiveSubscription where
  pattern : SubscribePattern
  replayFence : ReplayFence
deriving DecidableEq

/-- What `recv` returns. -/
abbrev RecvResult := Except SubscriptionRecvError EngineChangeEvent

/-- `SubscriptionState`. -/
inductive SubscriptionState where
  | replaying (remaining : List RecvResult) (live : LiveSubscription)
  | live (live : LiveSubscription)
  | closed

/-- `EngineSubscription`, with the presence of the pending shutdown receiver of its slot. -/
structure EngineSubscription where
  pendingShutdown : Bool
  state : SubscriptionState

/-- `EngineSubscription::new`. -/
def EngineSubscription.new (replay : List RecvResult) (live : LiveSubscription) : EngineSubscription :=
  if replay.isEmpty then ⟨false, .live live⟩ else ⟨true, .replaying replay live⟩

/-- The initial queue of `open_subscription`: an interruption of the replay is a reset. -/
def initialReplay (interruption : Option SubscriptionResetReason) (replay : List EngineChangeEvent) :
    List RecvResult :=
  interruption.toList.map (fun reason => .error (.reset reason)) ++ replay.map .ok

/-- `broadcast::error::RecvError`. -/
inductive BroadcastRecvError where
  | closed
  | lagged (skipped : Nat)

/-- `broadcast::Receiver`: the values the receiver has not seen, and how many of them were overwritten. -/
structure BroadcastReceiver where
  capacity : Nat
  buffered : List ChangeEvent
  missed : Nat
  closed : Bool

/-- `broadcast::Sender::send`, which overwrites the oldest value of a full channel. -/
def BroadcastReceiver.send (rx : BroadcastReceiver) (change : ChangeEvent) : BroadcastReceiver :=
  if rx.buffered.length < rx.capacity then { rx with buffered := rx.buffered ++ [change] }
  else { rx with buffered := rx.buffered.tail ++ [change], missed := rx.missed + 1 }

/-- One poll of `broadcast::Receiver::recv`, if it is ready. -/
def BroadcastReceiver.recv (rx : BroadcastReceiver) :
    Option (Except BroadcastRecvError ChangeEvent × BroadcastReceiver) :=
  if rx.missed ≠ 0 then some (.error (.lagged rx.missed), { rx with missed := 0 })
  else match rx.buffered with
    | change :: rest => some (.ok change, { rx with buffered := rest })
    | [] => if rx.closed then some (.error .closed, rx) else none

/-- How a turn of the loop of `recv` ends. -/
inductive RecvTurn where
  | returns (result : RecvResult)
  | again
  | suspends (live : LiveSubscription)
  | panics

/-- One turn of the loop of `recv` up to its `select!`, where the shutdown signal has a value. A call that suspends
leaves the state that `mem::replace` put there. -/
def EngineSubscription.turn (subscription : EngineSubscription) (shutdown : Bool) : RecvTurn × EngineSubscription :=
  match subscription.state with
  | .closed => (.returns (.error .closed), { subscription with state := .closed })
  | .replaying (item :: remaining) live => (.returns item, { subscription with state := .replaying remaining live })
  | .replaying [] live =>
    if subscription.pendingShutdown then (.again, ⟨false, .live live⟩)
    else (.panics, { subscription with state := .closed })
  | .live live =>
    if shutdown then (.returns (.error .closed), { subscription with state := .closed })
    else (.suspends live, { subscription with state := .closed })

/-- The branch of the `select!` that received an item. -/
def LiveSubscription.received (live : LiveSubscription) :
    Except BroadcastRecvError ChangeEvent → RecvTurn × SubscriptionState
  | .ok change =>
    match liveChangeAction live.replayFence live.pattern change with
    | .accept => (.returns (.ok change.toEngine), .live live)
    | .drop => (.again, .live live)
    | .reset reason => (.returns (.error (.reset reason)), .live live)
  | .error (.lagged skipped) => (.returns (.error (.lagged skipped)), .live live)
  | .error .closed => (.returns (.error .closed), .closed)

/-- The future of a call: none, one that was never polled, one inside a poll, or one that is suspended and holds the
live subscription. -/
inductive RecvFuture where
  | none
  | created
  | running
  | waiting (live : LiveSubscription)
  | panicked

/-- A subscription with its call, its receiver, the shutdown signal with its sender, and the results of its calls. -/
structure Listening where
  subscription : EngineSubscription
  future : RecvFuture
  rx : BroadcastReceiver
  shutdown : Bool
  signalDropped : Bool
  results : List RecvResult

/-- A subscription that was just opened, while the engine holds the sender of the shutdown signal. -/
def Listening.opened (interruption : Option SubscriptionResetReason) (replay : List EngineChangeEvent)
    (live : LiveSubscription) (rx : BroadcastReceiver) (shutdown : Bool) : Listening :=
  ⟨.new (initialReplay interruption replay) live, .none, rx, shutdown, false, []⟩

/-- What happens to a subscription: its caller creates, polls and drops calls, and the engine publishes changes, sets
the signal, drops the sender of the signal and closes the channel. -/
inductive ListenAction where
  | call
  | turn
  | wakeShutdown
  | wakeItem
  | drop
  | publish (change : ChangeEvent)
  | shutdown
  | dropSignal
  | closeChannel
deriving DecidableEq

/-- The future after a turn. -/
def RecvTurn.future : RecvTurn → RecvFuture
  | returns _ => .none
  | again => .running
  | suspends live => .waiting live
  | panics => .panicked

/-- The results of a turn. -/
def RecvTurn.results : RecvTurn → List RecvResult
  | returns result => [result]
  | again | suspends _ | panics => []

namespace Listening

/-- A subscription after a turn. -/
def after (s : Listening) (turn : RecvTurn) (subscription : EngineSubscription) : Listening :=
  { s with subscription := subscription, future := turn.future, results := s.results ++ turn.results }

/-- One action, if it is possible. -/
def step (s : Listening) : ListenAction → Option Listening
  | .call =>
    match s.future with
    | .none => some { s with future := .created }
    | _ => none
  | .turn =>
    match s.future with
    | .created | .running =>
      let (turn, subscription) := s.subscription.turn s.shutdown
      some (s.after turn subscription)
    | _ => none
  | .wakeShutdown =>
    match s.future with
    | .waiting _ =>
      if s.shutdown || s.signalDropped then
        some (s.after (.returns (.error .closed)) { s.subscription with state := .closed })
      else none
    | _ => none
  | .wakeItem =>
    match s.future with
    | .waiting live => s.rx.recv.map fun (item, rx) =>
      let (turn, state) := live.received item
      { s with rx := rx }.after turn { s.subscription with state := state }
    | _ => none
  | .drop =>
    match s.future with
    | .created | .waiting _ => some { s with future := .none }
    | _ => none
  | .publish change => if s.rx.closed then none else some { s with rx := s.rx.send change }
  | .shutdown => some { s with shutdown := true }
  | .dropSignal => some { s with signalDropped := true }
  | .closeChannel => some { s with rx := { s.rx with closed := true } }

/-- A run of actions. -/
def run (s : Listening) (actions : List ListenAction) : Option Listening := actions.foldlM step s

/-- The shutdown signal was set or the channel was closed. -/
def Ended (s : Listening) : Prop := s.shutdown = true ∨ s.rx.closed = true

/-- An action that neither drops a call that waits nor drops the sender of the signal too early. -/
def Calm (s : Listening) : ListenAction → Prop
  | .drop => s.future = .created
  | .dropSignal => s.Ended
  | _ => True

/-- A run of calm actions. -/
def CalmRun : Listening → List ListenAction → Prop
  | _, [] => True
  | s, action :: actions => s.Calm action ∧ ∀ s', s.step action = some s' → s'.CalmRun actions

/-- A calm run that starts with an action. -/
theorem CalmRun.cons {s mid : Listening} {action : ListenAction} {actions : List ListenAction} (hcalm : s.Calm action)
    (hstep : s.step action = some mid) (hrest : mid.CalmRun actions) : s.CalmRun (action :: actions) := by
  refine ⟨hcalm, fun s' hs' => ?_⟩
  cases hstep.symm.trans hs'
  exact hrest

/-- A subscription whose state is closed only by a suspended call or after the end. -/
@[grind cases eager] structure Sound (s : Listening) : Prop where
  closed : .error .closed ∈ s.results → s.Ended
  state : s.subscription.state = .closed → (∃ live, s.future = .waiting live) ∨ s.Ended
  signal : s.signalDropped = true → s.Ended
  replay : ∀ remaining live, s.subscription.state = .replaying remaining live →
    s.subscription.pendingShutdown = true ∧ .error .closed ∉ remaining
  future : ∀ live, s.future = .waiting live → s.subscription.state = .closed
  returns : s.future ≠ .panicked

/-- A receiver reports a closed channel only when it is. -/
theorem closed_of_recv {rx rx' : BroadcastReceiver} (h : rx.recv = some (.error .closed, rx')) :
    rx.closed = true := by
  unfold BroadcastReceiver.recv at h
  grind -ring -linarith

/-- Receiving does not close a channel. -/
theorem closed_recv {rx rx' : BroadcastReceiver} {item : Except BroadcastRecvError ChangeEvent}
    (h : rx.recv = some (item, rx')) : rx'.closed = rx.closed := by
  unfold BroadcastReceiver.recv at h
  grind -ring -linarith

/-- Sending does not close a channel. -/
theorem closed_send (rx : BroadcastReceiver) (change : ChangeEvent) : (rx.send change).closed = rx.closed := by
  unfold BroadcastReceiver.send
  split <;> rfl

/-- An item closes a subscription when it says that the channel is closed, and leaves it live otherwise. -/
theorem received_cases (live : LiveSubscription) (item : Except BroadcastRecvError ChangeEvent) :
    (item = .error .closed ∧ live.received item = (.returns (.error .closed), .closed)) ∨
      ∃ turn, live.received item = (turn, .live live) ∧
        (turn = .again ∨ ∃ result, result ≠ .error .closed ∧ turn = .returns result) := by
  cases item with
  | ok change =>
    simp only [LiveSubscription.received]
    split <;> simp
  | error error => cases error <;> simp [LiveSubscription.received]

/-- A turn keeps a subscription sound when it reports and leaves a closed state only after the end. -/
theorem Sound.after {s : Listening} {turn : RecvTurn} {subscription : EngineSubscription} (h : s.Sound)
    (hclosed : turn = .returns (.error .closed) → s.Ended)
    (hstate : subscription.state = .closed → (∃ live, turn = .suspends live) ∨ s.Ended)
    (hreplay : ∀ remaining live, subscription.state = .replaying remaining live →
      subscription.pendingShutdown = true ∧ .error .closed ∉ remaining)
    (hsuspends : ∀ live, turn = .suspends live → subscription.state = .closed) (hpanics : turn ≠ .panics) :
    (s.after turn subscription).Sound := by
  cases turn with
  | returns | again | suspends =>
    constructor <;> simp only [Listening.after, RecvTurn.future, RecvTurn.results] <;> grind -ring -linarith [Ended]
  | panics => exact absurd rfl hpanics

/-- A turn of the loop up to its `select!` keeps a subscription sound. -/
theorem Sound.turn {s : Listening} (h : s.Sound) (hfuture : ∀ live, s.future ≠ .waiting live) :
    (s.after (s.subscription.turn s.shutdown).1 (s.subscription.turn s.shutdown).2).Sound := by
  simp only [EngineSubscription.turn]
  split
  · next hstate =>
    have hended : s.Ended := (h.state hstate).resolve_left fun ⟨live, hlive⟩ => hfuture live hlive
    exact h.after (fun _ => hended) (fun _ => .inr hended) nofun nofun nofun
  · next item remaining live hstate =>
    obtain ⟨hpending, hitems⟩ := h.replay _ _ hstate
    rw [List.mem_cons, not_or] at hitems
    refine h.after ?_ nofun ?_ nofun nofun
    · rintro ⟨⟩
      exact absurd rfl hitems.1
    · rintro _ _ ⟨⟩
      exact ⟨hpending, hitems.2⟩
  · next live hstate =>
    rw [if_pos (h.replay _ _ hstate).1]
    exact h.after nofun nofun nofun nofun nofun
  · next live hstate =>
    split
    · next hshutdown => exact h.after (fun _ => .inl hshutdown) (fun _ => .inr (.inl hshutdown)) nofun nofun nofun
    · exact h.after nofun (fun _ => .inl ⟨live, rfl⟩) nofun (fun _ _ => rfl) nofun

/-- One calm action keeps a subscription sound. -/
theorem Sound.step {s s' : Listening} {action : ListenAction} (h : s.Sound) (hcalm : s.Calm action)
    (hstep : s.step action = some s') : s'.Sound := by
  cases action with
  | call =>
    simp only [Listening.step] at hstep
    split at hstep
    · cases hstep
      constructor <;> grind -ring -linarith [Ended]
    · cases hstep
  | turn =>
    simp only [Listening.step] at hstep
    split at hstep
    · next hfuture =>
      cases hstep
      exact h.turn fun live hlive => by rw [hlive] at hfuture; cases hfuture
    · next hfuture =>
      cases hstep
      exact h.turn fun live hlive => by rw [hlive] at hfuture; cases hfuture
    · cases hstep
  | wakeShutdown =>
    simp only [Listening.step] at hstep
    split at hstep
    · split_ifs at hstep with hsignal
      cases hstep
      have hended : s.Ended := by
        obtain hset | hdropped := Bool.or_eq_true_iff.mp hsignal
        · exact .inl hset
        · exact h.signal hdropped
      exact h.after (fun _ => hended) (fun _ => .inr hended) nofun nofun nofun
    · cases hstep
  | wakeItem =>
    simp only [Listening.step] at hstep
    split at hstep
    · next live hfuture =>
      obtain ⟨⟨item, rx⟩, hrecv, rfl⟩ := Option.map_eq_some_iff.mp hstep
      have hrx : rx.closed = s.rx.closed := closed_recv hrecv
      have hsound : Sound { s with rx := rx } := by
        constructor <;> simp only [Ended, hrx] <;> grind -ring -linarith [Ended]
      obtain ⟨rfl, hreceived⟩ | ⟨turn, hreceived, hturn⟩ := received_cases live item
      · have hended : Ended { s with rx := rx } := .inr (hrx.trans (closed_of_recv hrecv))
        simp only [hreceived]
        exact hsound.after (fun _ => hended) (fun _ => .inr hended) nofun nofun nofun
      · simp only [hreceived]
        refine hsound.after ?_ nofun nofun ?_ ?_
        all_goals grind -ring -linarith
    · cases hstep
  | drop =>
    simp only [Calm] at hcalm
    simp only [Listening.step, hcalm, Option.some.injEq] at hstep
    subst hstep
    constructor <;> grind -ring -linarith [Ended]
  | publish change =>
    simp only [Listening.step] at hstep
    split_ifs at hstep
    cases hstep
    constructor <;> grind -ring -linarith [Ended, closed_send]
  | shutdown =>
    cases hstep
    constructor <;> grind -ring -linarith [Ended]
  | dropSignal =>
    cases hstep
    constructor <;> grind -ring -linarith [Ended, Calm]
  | closeChannel =>
    cases hstep
    constructor <;> grind -ring -linarith [Ended]

/-- A subscription that was just opened is sound. -/
theorem sound_opened (interruption : Option SubscriptionResetReason) (replay : List EngineChangeEvent)
    (live : LiveSubscription) (rx : BroadcastReceiver) (shutdown : Bool) :
    (opened interruption replay live rx shutdown).Sound := by
  have hreplay : .error .closed ∉ initialReplay interruption replay := by
    cases interruption <;> simp [initialReplay]
  constructor <;> simp only [opened, EngineSubscription.new] <;> grind -ring -linarith

/-- A calm run keeps a subscription sound. -/
theorem Sound.run {s s' : Listening} {actions : List ListenAction} (h : s.Sound) (hcalm : s.CalmRun actions)
    (hrun : s.run actions = some s') : s'.Sound := by
  induction actions generalizing s with
  | nil =>
    cases hrun
    exact h
  | cons action actions ih =>
    obtain ⟨mid, hstep, hrest⟩ := Option.bind_eq_some_iff.mp hrun
    exact ih (h.step hcalm.1 hstep) (hcalm.2 mid hstep) hrest

end Listening

/-- The actions of the engine. -/
def ListenAction.byEngine : ListenAction → Bool
  | publish _ | shutdown | dropSignal | closeChannel => true
  | call | turn | wakeShutdown | wakeItem | drop => false

/-- The actions without the calls that are dropped. The flag says that the call that is pending before the actions is
dropped by them. -/
def withoutDropped : List ListenAction → List ListenAction × Bool
  | [] => ([], false)
  | .drop :: actions => ((withoutDropped actions).1, true)
  | .call :: actions =>
    if (withoutDropped actions).2 then ((withoutDropped actions).1, false)
    else (.call :: (withoutDropped actions).1, false)
  | action :: actions =>
    if (withoutDropped actions).2 && !action.byEngine then ((withoutDropped actions).1, true)
    else (action :: (withoutDropped actions).1, (withoutDropped actions).2)

namespace Listening

/-- A turn leaves no call that was never polled. -/
theorem after_future (s : Listening) (turn : RecvTurn) (subscription : EngineSubscription) :
    (s.after turn subscription).future ≠ .created := by cases turn <;> nofun

/-- The actions of the engine do not depend on the call. -/
theorem step_engine {s s' : Listening} {action : ListenAction} (haction : action.byEngine = true)
    (hstep : s.step action = some s') (future : RecvFuture) :
    s'.future = s.future ∧ { s with future := future }.step action = some { s' with future := future } := by
  cases action with
  | publish change =>
    simp only [step] at hstep ⊢
    split_ifs at hstep ⊢ with hclosed
    cases hstep
    exact ⟨rfl, rfl⟩
  | shutdown | dropSignal | closeChannel =>
    cases hstep
    exact ⟨rfl, rfl⟩
  | call | turn | wakeShutdown | wakeItem | drop => cases haction

/-- A poll leaves no call that was never polled. -/
theorem step_poll {s s' : Listening} {action : ListenAction} (haction : action.byEngine = false)
    (hcall : action ≠ .call) (hdrop : action ≠ .drop) (hstep : s.step action = some s') :
    s'.future ≠ .created := by
  cases action with
  | call => exact absurd rfl hcall
  | drop => exact absurd rfl hdrop
  | publish | shutdown | dropSignal | closeChannel => cases haction
  | turn =>
    simp only [step] at hstep
    split at hstep <;> cases hstep <;> exact after_future _ _ _
  | wakeShutdown =>
    simp only [step] at hstep
    split at hstep
    · split_ifs at hstep
      cases hstep
      exact after_future _ _ _
    · cases hstep
  | wakeItem =>
    simp only [step] at hstep
    split at hstep
    · obtain ⟨⟨item, rx⟩, -, rfl⟩ := Option.map_eq_some_iff.mp hstep
      exact after_future _ _ _
    · cases hstep

/-- A run that starts with an action. -/
theorem run_cons {s s' : Listening} {action : ListenAction} {actions : List ListenAction} :
    s.run (action :: actions) = some s' ↔ ∃ mid, s.step action = some mid ∧ mid.run actions = some s' :=
  Option.bind_eq_some_iff

/-- A calm run without the calls it drops. When it drops the call before it, that call was never polled. -/
theorem run_withoutDropped {s s' : Listening} {actions : List ListenAction} (hcalm : s.CalmRun actions)
    (hrun : s.run actions = some s') :
    ((withoutDropped actions).2 = false → s.run (withoutDropped actions).1 = some s') ∧
      ((withoutDropped actions).2 = true → s.future = .created ∧
        { s with future := .none }.run (withoutDropped actions).1 = some s') := by
  -- the induction follows the recursion of `withoutDropped`
  fun_induction withoutDropped actions generalizing s with
  | case1 => exact ⟨fun _ => hrun, nofun⟩
  | case2 actions ih =>
    obtain ⟨mid, hstep, hrest⟩ := run_cons.mp hrun
    obtain ⟨hkept, hdropped⟩ := ih (hcalm.2 mid hstep) hrest
    have hcreated : s.future = .created := hcalm.1
    simp only [step, hcreated, Option.some.injEq] at hstep
    subst hstep
    refine ⟨nofun, fun _ => ⟨hcreated, ?_⟩⟩
    cases hflag : (withoutDropped actions).2 with
    | false => exact hkept hflag
    | true => exact absurd (hdropped hflag).1 nofun
  | case3 actions hflag ih =>
    obtain ⟨mid, hstep, hrest⟩ := run_cons.mp hrun
    obtain ⟨-, hdropped⟩ := ih (hcalm.2 mid hstep) hrest
    refine ⟨fun _ => ?_, nofun⟩
    obtain ⟨-, hkept⟩ := hdropped hflag
    simp only [step] at hstep
    split at hstep
    · next hnone =>
      cases hstep
      simpa only [← hnone] using hkept
    · cases hstep
  | case4 actions hflag ih =>
    obtain ⟨mid, hstep, hrest⟩ := run_cons.mp hrun
    obtain ⟨hkept, -⟩ := ih (hcalm.2 mid hstep) hrest
    exact ⟨fun _ => run_cons.mpr ⟨mid, hstep, hkept (Bool.eq_false_iff.mpr hflag)⟩, nofun⟩
  | case5 action actions hdrop hcall hflag ih =>
    obtain ⟨mid, hstep, hrest⟩ := run_cons.mp hrun
    obtain ⟨-, hdropped⟩ := ih (hcalm.2 mid hstep) hrest
    obtain ⟨hpending, hpoll⟩ := Bool.and_eq_true_iff.mp hflag
    exact absurd (hdropped hpending).1 (step_poll (by simpa using hpoll) hcall hdrop hstep)
  | case6 action actions hdrop hcall hflag ih =>
    obtain ⟨mid, hstep, hrest⟩ := run_cons.mp hrun
    obtain ⟨hkept, hdropped⟩ := ih (hcalm.2 mid hstep) hrest
    refine ⟨fun hnone => run_cons.mpr ⟨mid, hstep, hkept hnone⟩, fun hpending => ?_⟩
    have hengine : action.byEngine = true := by simp_all
    obtain ⟨hfuture, hstep⟩ := step_engine hengine hstep .none
    obtain ⟨hcreated, hrest⟩ := hdropped hpending
    exact ⟨hfuture.symm.trans hcreated, run_cons.mpr ⟨_, hstep, hrest⟩⟩

/-- In a calm run `recv` reports a closed subscription only after the end, and the run is the same without the calls
that it drops. -/
theorem recv_calm (interruption : Option SubscriptionResetReason) (replay : List EngineChangeEvent)
    (live : LiveSubscription) (rx : BroadcastReceiver) (shutdown : Bool) {actions : List ListenAction} {s : Listening}
    (hcalm : (opened interruption replay live rx shutdown).CalmRun actions)
    (hrun : (opened interruption replay live rx shutdown).run actions = some s) :
    (.error .closed ∈ s.results → s.shutdown = true ∨ s.rx.closed = true) ∧ s.future ≠ .panicked ∧
      (opened interruption replay live rx shutdown).run (withoutDropped actions).1 = some s := by
  have hsound := (sound_opened interruption replay live rx shutdown).run hcalm hrun
  obtain ⟨hkept, hdropped⟩ := run_withoutDropped hcalm hrun
  refine ⟨hsound.closed, hsound.returns, ?_⟩
  cases hflag : (withoutDropped actions).2 with
  | false => exact hkept hflag
  | true => exact absurd (hdropped hflag).1 nofun

end Listening

namespace Sample

/-- A subscription to every world. -/
def listener : Listening := .opened none [] ⟨.new "*", .none⟩ ⟨4, [], 0, false⟩ false

/-- A change of a world in memory. -/
def change : ChangeEvent := ⟨1, .replace, .ephemeral ⟨"tmp/notes", by decide +kernel⟩, "", .default⟩

end Sample

namespace Listening

/-- A call that is dropped before it is polled, and a call that receives a change. -/
theorem recv_calm_received :
    let actions : List ListenAction := [.call, .publish Sample.change, .drop, .call, .turn, .wakeItem]
    Sample.listener.CalmRun actions ∧ ∃ s, Sample.listener.run actions = some s ∧
      s.results = [.ok Sample.change.toEngine] ∧
      Sample.listener.run [.publish Sample.change, .call, .turn, .wakeItem] = some s := by
  have hcalm : Sample.listener.CalmRun [.call, .publish Sample.change, .drop, .call, .turn, .wakeItem] :=
    .cons trivial rfl (.cons trivial rfl (.cons rfl rfl (.cons trivial rfl (.cons trivial rfl
      (.cons trivial rfl trivial)))))
  refine ⟨hcalm, _, rfl, rfl, ?_⟩
  exact (recv_calm none [] _ _ _ hcalm rfl).2.2

/-- A call that is dropped while it waits closes the subscription: the next call reports a closed subscription,
although nobody has shut down the engine or closed the channel, and the change that was published is lost. -/
theorem recv_dropped_closes :
    let dropped : List ListenAction := [.call, .turn, .drop]
    let later : List ListenAction := [.publish Sample.change, .call, .turn]
    (∃ s, Sample.listener.run (dropped ++ later) = some s ∧ s.results = [.error .closed] ∧
      s.shutdown = false ∧ s.rx.closed = false) ∧
    ∃ s, Sample.listener.run (later ++ [.wakeItem]) = some s ∧ s.results = [.ok Sample.change.toEngine] :=
  ⟨⟨_, rfl, rfl, rfl, rfl⟩, _, rfl, rfl⟩

end Listening

end AuditeDB
