import Mathlib
import AuditeDB.Subscription.Recv

/-!
# What a subscription delivers

The results of `recv` are the replayed events and then, for every change taken from the channel, what the fence lets
through. Up to the first error they are the beginning of what the published changes deliver, however the calls are
polled, dropped and woken.
-/

namespace AuditeDB

/-- The results that a change leads to. -/
def LiveSubscription.deliver (live : LiveSubscription) (change : ChangeEvent) : List RecvResult :=
  match liveChangeAction live.replayFence live.pattern change with
  | .accept => [.ok change.toEngine]
  | .drop => []
  | .reset reason => [.error (.reset reason)]

/-- The events in front of the first error. -/
def uninterrupted : List RecvResult → List EngineChangeEvent
  | .ok event :: results => event :: uninterrupted results
  | .error _ :: _ | [] => []

/-- The change that an action publishes. -/
def ListenAction.published : ListenAction → Option ChangeEvent
  | publish change => some change
  | call | turn | wakeShutdown | wakeItem | drop | shutdown | dropSignal | closeChannel => none

section Results

variable {results more : List RecvResult}

/-- Only events. -/
def AllOk (results : List RecvResult) : Prop := ∀ result ∈ results, ∃ event, result = .ok event

/-- Results that are all events are followed by more. -/
theorem uninterrupted_append_of_allOk (h : AllOk results) :
    uninterrupted (results ++ more) = uninterrupted results ++ uninterrupted more := by
  induction results with
  | nil => rfl
  | cons result results ih =>
    obtain ⟨event, rfl⟩ := h result (List.mem_cons_self ..)
    have hrest := ih fun other hother => h other (List.mem_cons_of_mem _ hother)
    simp [uninterrupted, hrest]

/-- Nothing counts behind an error. -/
theorem uninterrupted_append_of_not_allOk (h : ¬ AllOk results) :
    uninterrupted (results ++ more) = uninterrupted results := by
  induction results with
  | nil => exact absurd (fun result hresult => absurd hresult List.not_mem_nil) h
  | cons result results ih =>
    cases result with
    | error => rfl
    | ok event =>
      have hrest : ¬ AllOk results := fun hall => h fun other hother => by
        rcases List.mem_cons.mp hother with rfl | hother
        · exact ⟨event, rfl⟩
        · exact hall other hother
      simp [uninterrupted, ih hrest]

/-- An error ends the events. -/
theorem uninterrupted_error (error : SubscriptionRecvError) :
    uninterrupted (results ++ [.error error]) = uninterrupted results := by
  by_cases h : AllOk results
  · rw [uninterrupted_append_of_allOk h, uninterrupted, List.append_nil]
  · exact uninterrupted_append_of_not_allOk h

/-- More results continue the events. -/
theorem uninterrupted_mono (h : results <+: more) : uninterrupted results <+: uninterrupted more := by
  obtain ⟨rest, rfl⟩ := h
  by_cases hall : AllOk results
  · rw [uninterrupted_append_of_allOk hall]
    exact List.prefix_append _ _
  · rw [uninterrupted_append_of_not_allOk hall]

/-- Parts that are all events. -/
theorem allOk_append : AllOk (results ++ more) ↔ AllOk results ∧ AllOk more := by
  simp [AllOk, or_imp, forall_and]

end Results

namespace Listening

/-- Where a live subscription without errors stands: what it has returned and what is left in the channel, by the
changes it has taken. -/
structure AtLive (replay : List EngineChangeEvent) (live : LiveSubscription) (s : Listening)
    (published taken : List ChangeEvent) (held : LiveSubscription) : Prop where
  live_eq : held = live
  returned : s.results = replay.map .ok ++ taken.flatMap live.deliver
  buffered : s.rx.missed = 0 → taken ++ s.rx.buffered = published

/-- Where a subscription without errors stands that still replays. -/
structure AtReplay (replay : List EngineChangeEvent) (live : LiveSubscription) (s : Listening)
    (published taken : List ChangeEvent) (remaining : List RecvResult) (held : LiveSubscription) : Prop where
  live_eq : held = live
  none_taken : taken = []
  returned : s.results ++ remaining = replay.map .ok
  buffered : s.rx.missed = 0 → s.rx.buffered = published

/-- What a subscription has delivered, by the changes it has taken from the channel. -/
structure Delivering (replay : List EngineChangeEvent) (live : LiveSubscription) (s : Listening)
    (published taken : List ChangeEvent) : Prop where
  in_order : taken <+: published
  events : uninterrupted s.results <+: uninterrupted (replay.map .ok ++ taken.flatMap live.deliver)
  waiting : ∀ held, s.future = .waiting held → s.subscription.state = .closed
  replaying : AllOk s.results → ∀ remaining held, s.subscription.state = .replaying remaining held →
    AtReplay replay live s published taken remaining held
  at_live : AllOk s.results → ∀ held, s.subscription.state = .live held ∨ s.future = .waiting held →
    AtLive replay live s published taken held

variable {replay : List EngineChangeEvent} {live : LiveSubscription} {s s' : Listening}
  {published taken : List ChangeEvent}

/-- Once there was an error, no action of the subscriber matters. -/
theorem Delivering.interrupted {subscription : EngineSubscription} {future : RecvFuture} {rx : BroadcastReceiver}
    {more : List RecvResult} (h : Delivering replay live s published taken) (herror : ¬ AllOk (s.results ++ more))
    (hevents : uninterrupted (s.results ++ more) = uninterrupted s.results)
    (hwaiting : ∀ held, future = .waiting held → subscription.state = .closed) :
    Delivering replay live { s with subscription := subscription, future := future, rx := rx, results := s.results ++ more }
      published taken :=
  ⟨h.in_order, by rw [hevents]; exact h.events, hwaiting, fun hall => absurd hall herror,
    fun hall => absurd hall herror⟩

/-- A result that is no event interrupts. -/
theorem not_allOk_error {results : List RecvResult} (error : SubscriptionRecvError) :
    ¬ AllOk (results ++ [.error error]) := by
  intro hall
  obtain ⟨event, hevent⟩ := hall _ (List.mem_append_right _ (List.mem_singleton.mpr rfl))
  cases hevent

/-- An error that a turn returns. -/
theorem Delivering.fails {rx : BroadcastReceiver} {subscription : EngineSubscription}
    (h : Delivering replay live s published taken) (error : SubscriptionRecvError) :
    Delivering replay live ({ s with rx := rx }.after (.returns (.error error)) subscription) published taken :=
  h.interrupted (not_allOk_error error) (uninterrupted_error error) nofun

/-- Once there was an error, a turn that does not suspend changes nothing. -/
theorem Delivering.after_error {rx : BroadcastReceiver} {turn : RecvTurn} {subscription : EngineSubscription}
    (h : Delivering replay live s published taken) (herror : ¬ AllOk s.results)
    (hwaiting : ∀ held, turn = .suspends held → subscription.state = .closed) :
    Delivering replay live ({ s with rx := rx }.after turn subscription) published taken := by
  have hevents : uninterrupted (s.results ++ turn.results) = uninterrupted s.results :=
    uninterrupted_append_of_not_allOk herror
  have hmore : ¬ AllOk (s.results ++ turn.results) := fun hall => herror (allOk_append.mp hall).1
  refine h.interrupted hmore hevents fun held hfuture => ?_
  cases turn with
  | suspends => exact hwaiting _ rfl
  | returns => cases hfuture
  | again => cases hfuture
  | panics => cases hfuture

/-- A turn of the loop up to its `select!`. -/
theorem Delivering.turn (h : Delivering replay live s published taken) :
    Delivering replay live (s.after (s.subscription.turn s.shutdown).1 (s.subscription.turn s.shutdown).2)
      published taken := by
  by_cases hall : AllOk s.results
  swap
  · refine h.after_error hall fun held hsuspends => ?_
    unfold EngineSubscription.turn at hsuspends ⊢
    split at hsuspends
    · cases hsuspends
    · cases hsuspends
    · split at hsuspends <;> cases hsuspends
    · split at hsuspends
      · cases hsuspends
      · next hopen => simp [hopen]
  · unfold EngineSubscription.turn
    split
    · exact h.fails .closed
    · next item remaining held hstate =>
      obtain ⟨hlive, htaken, hreturned, hbuffered⟩ := h.replaying hall _ _ hstate
      have hreturned' : s.results ++ [item] ++ remaining = replay.map .ok := by
        rw [List.append_assoc]
        exact hreturned
      refine ⟨h.in_order, uninterrupted_mono ?_, fun _ hwaiting => (by cases hwaiting),
        fun _ remaining' held' hstate' => ?_, fun _ held' hstate' => ?_⟩
      · refine List.IsPrefix.trans ⟨remaining, hreturned'⟩ (List.prefix_append _ _)
      · cases hstate'
        exact ⟨hlive, htaken, hreturned', hbuffered⟩
      · rcases hstate' with hstate' | hstate' <;> cases hstate'
    · next held hstate =>
      obtain ⟨hlive, htaken, hreturned, hbuffered⟩ := h.replaying hall _ _ hstate
      rw [List.append_nil] at hreturned
      split
      · refine ⟨h.in_order, ?_, fun _ hwaiting => (by cases hwaiting),
          fun _ _ _ hstate => (by cases hstate), fun _ held' hstate' => ?_⟩
        · simpa [Listening.after, RecvTurn.results] using h.events
        · rcases hstate' with hstate' | hstate'
          · cases hstate'
            refine ⟨hlive, ?_, fun hmissed => ?_⟩
            · rw [htaken]
              simpa [Listening.after, RecvTurn.results] using hreturned
            · rw [htaken]
              exact hbuffered hmissed
          · cases hstate'
      · refine ⟨h.in_order, ?_, fun _ hwaiting => (by cases hwaiting),
          fun _ _ _ hstate => (by cases hstate), fun _ held' hstate' => ?_⟩
        · simpa [Listening.after, RecvTurn.results] using h.events
        · rcases hstate' with hstate' | hstate' <;> cases hstate'
    · next held hstate =>
      split
      · exact h.fails .closed
      · obtain ⟨hlive, hreturned, hbuffered⟩ := h.at_live hall held (.inl hstate)
        refine ⟨h.in_order, ?_, fun _ _ => rfl, fun _ _ _ hstate => (by cases hstate), fun _ held' hstate' => ?_⟩
        · simpa [Listening.after, RecvTurn.results] using h.events
        · rcases hstate' with hstate' | hstate'
          · cases hstate'
          · cases hstate'
            exact ⟨hlive, by simpa [Listening.after, RecvTurn.results] using hreturned, hbuffered⟩

/-- What a receiver hands out. -/
theorem recv_cases {rx rx' : BroadcastReceiver} {item : Except BroadcastRecvError ChangeEvent}
    (h : rx.recv = some (item, rx')) :
    (∃ change rest, item = .ok change ∧ rx.missed = 0 ∧ rx.buffered = change :: rest ∧
      rx' = { rx with buffered := rest }) ∨ ∃ error, item = .error error := by
  unfold BroadcastReceiver.recv at h
  split at h
  · cases h
    exact .inr ⟨_, rfl⟩
  · next hmissed =>
    split at h
    · next change rest hbuffered =>
      cases h
      exact .inl ⟨change, rest, rfl, not_not.mp hmissed, hbuffered, rfl⟩
    · split_ifs at h
      cases h
      exact .inr ⟨_, rfl⟩

/-- A change that a suspended call takes from the channel. -/
theorem Delivering.wakeItem {held : LiveSubscription} {item : Except BroadcastRecvError ChangeEvent}
    {rx : BroadcastReceiver} (h : Delivering replay live s published taken) (hfuture : s.future = .waiting held)
    (hrecv : s.rx.recv = some (item, rx)) :
    ∃ taken', Delivering replay live ({ s with rx := rx }.after (held.received item).1
      { s.subscription with state := (held.received item).2 }) published taken' := by
  by_cases hall : AllOk s.results
  swap
  · refine ⟨taken, h.after_error hall fun live hsuspends => ?_⟩
    obtain ⟨rfl, hreceived⟩ | ⟨turn, hreceived, hturn⟩ := received_cases held item
    · rw [hreceived] at hsuspends
      cases hsuspends
    · rw [hreceived] at hsuspends
      rcases hturn with rfl | ⟨result, -, rfl⟩ <;> cases hsuspends
  · obtain ⟨hlive, hreturned, hbuffered⟩ := h.at_live hall held (.inr hfuture)
    obtain ⟨change, rest, rfl, hmissed, hchannel, rfl⟩ | ⟨error, rfl⟩ := recv_cases hrecv
    · have htaken : taken ++ [change] ++ rest = published := by
        rw [← hbuffered hmissed, hchannel]
        simp
      subst hlive
      have htakes : ∀ {turn : RecvTurn}, (∀ held, turn ≠ .suspends held) → turn.results = held.deliver change →
          Delivering replay held ({ s with rx := { s.rx with buffered := rest } }.after turn
            { s.subscription with state := .live held }) published (taken ++ [change]) := by
        intro turn hsuspends hresults
        have hmore : s.results ++ turn.results = replay.map .ok ++ (taken ++ [change]).flatMap held.deliver := by
          rw [hreturned, hresults]
          simp
        refine ⟨⟨rest, htaken⟩, ?_, fun live hwaiting => ?_, fun _ _ _ hstate => (by cases hstate),
          fun _ live hstate => ?_⟩
        · exact uninterrupted_mono (hmore ▸ List.prefix_rfl)
        · cases turn with
          | suspends => exact absurd rfl (hsuspends _)
          | returns => cases hwaiting
          | again => cases hwaiting
          | panics => cases hwaiting
        · rcases hstate with hstate | hstate
          · cases hstate
            exact ⟨rfl, hmore, fun _ => htaken⟩
          · cases turn with
            | suspends => exact absurd rfl (hsuspends _)
            | returns => cases hstate
            | again => cases hstate
            | panics => cases hstate
      refine ⟨taken ++ [change], ?_⟩
      cases haction : liveChangeAction held.replayFence held.pattern change with
      | accept =>
        have hreceived : held.received (.ok change) = (.returns (.ok change.toEngine), .live held) := by
          simp [LiveSubscription.received, haction]
        rw [hreceived]
        refine htakes (fun _ hsuspends => by cases hsuspends) ?_
        simp [LiveSubscription.deliver, haction, RecvTurn.results]
      | drop =>
        have hreceived : held.received (.ok change) = (.again, .live held) := by
          simp [LiveSubscription.received, haction]
        rw [hreceived]
        refine htakes (fun _ hsuspends => by cases hsuspends) ?_
        simp [LiveSubscription.deliver, haction, RecvTurn.results]
      | reset reason =>
        have hreceived : held.received (.ok change) = (.returns (.error (.reset reason)), .live held) := by
          simp [LiveSubscription.received, haction]
        rw [hreceived]
        refine htakes (fun _ hsuspends => by cases hsuspends) ?_
        simp [LiveSubscription.deliver, haction, RecvTurn.results]
    · refine ⟨taken, ?_⟩
      cases error with
      | lagged skipped => exact h.fails _
      | closed => exact h.fails _

/-- Who calls, and how the channel ends, does not matter to what was delivered. -/
theorem Delivering.keep {future : RecvFuture} {closed shutdown signalDropped : Bool}
    (h : Delivering replay live s published taken) (hfuture : ∀ held, future = .waiting held → s.future = .waiting held) :
    Delivering replay live { s with
      future := future, rx := { s.rx with closed := closed }, shutdown := shutdown, signalDropped := signalDropped }
      published taken := by
  refine ⟨h.in_order, h.events, fun held hheld => h.waiting held (hfuture held hheld),
    fun hall remaining held hstate => ?_, fun hall held hstate => ?_⟩
  · obtain ⟨hlive, htaken, hreturned, hbuffered⟩ := h.replaying hall remaining held hstate
    exact ⟨hlive, htaken, hreturned, hbuffered⟩
  · obtain ⟨hlive, hreturned, hbuffered⟩ := h.at_live hall held (hstate.imp_right (hfuture held))
    exact ⟨hlive, hreturned, hbuffered⟩

/-- A channel that lost nothing holds the change that was sent last. -/
theorem send_missed {rx : BroadcastReceiver} {change : ChangeEvent} (h : (rx.send change).missed = 0) :
    rx.missed = 0 ∧ (rx.send change).buffered = rx.buffered ++ [change] := by
  unfold BroadcastReceiver.send at h ⊢
  split at h
  · next hroom => exact ⟨h, by rw [if_pos hroom]⟩
  · cases h

/-- A change that the engine publishes. -/
theorem Delivering.publish (h : Delivering replay live s published taken) (change : ChangeEvent) :
    Delivering replay live { s with rx := s.rx.send change } (published ++ [change]) taken := by
  refine ⟨h.in_order.trans (List.prefix_append _ _), h.events, h.waiting, fun hall remaining held hstate => ?_,
    fun hall held hstate => ?_⟩
  · obtain ⟨hlive, htaken, hreturned, hbuffered⟩ := h.replaying hall remaining held hstate
    refine ⟨hlive, htaken, hreturned, fun hmissed => ?_⟩
    obtain ⟨hnone, hmore⟩ := send_missed hmissed
    rw [hmore, hbuffered hnone]
  · obtain ⟨hlive, hreturned, hbuffered⟩ := h.at_live hall held hstate
    refine ⟨hlive, hreturned, fun hmissed => ?_⟩
    obtain ⟨hnone, hmore⟩ := send_missed hmissed
    rw [hmore, ← List.append_assoc, hbuffered hnone]

/-- Every action keeps the deliveries in order. -/
theorem Delivering.step {action : ListenAction} (h : Delivering replay live s published taken)
    (hstep : s.step action = some s') :
    ∃ taken', Delivering replay live s' (published ++ action.published.toList) taken' := by
  cases action with
  | publish change =>
    simp only [Listening.step] at hstep
    split_ifs at hstep
    cases hstep
    exact ⟨taken, h.publish change⟩
  | call =>
    simp only [Listening.step] at hstep
    split at hstep <;> cases hstep
    have hkept : Delivering replay live { s with future := .created } published taken :=
      h.keep fun _ hheld => (by cases hheld)
    exact ⟨taken, by simpa [ListenAction.published] using hkept⟩
  | turn =>
    simp only [Listening.step] at hstep
    split at hstep <;> cases hstep <;> exact ⟨taken, by simpa [ListenAction.published] using h.turn⟩
  | wakeShutdown =>
    simp only [Listening.step] at hstep
    split at hstep
    · split_ifs at hstep
      cases hstep
      exact ⟨taken, by simpa [ListenAction.published] using h.fails .closed⟩
    · cases hstep
  | wakeItem =>
    simp only [Listening.step] at hstep
    split at hstep
    · next held hfuture =>
      obtain ⟨⟨item, rx⟩, hrecv, rfl⟩ := Option.map_eq_some_iff.mp hstep
      simpa [ListenAction.published] using h.wakeItem hfuture hrecv
    · cases hstep
  | drop =>
    have hkept : Delivering replay live { s with future := .none } published taken :=
      h.keep fun _ hheld => (by cases hheld)
    simp only [Listening.step] at hstep
    split at hstep <;> cases hstep <;> exact ⟨taken, by simpa [ListenAction.published] using hkept⟩
  | shutdown | dropSignal | closeChannel =>
    cases hstep
    exact ⟨taken, by simpa [ListenAction.published] using h.keep fun _ hheld => hheld⟩

/-- The changes that a run publishes. -/
def publishes (actions : List ListenAction) : List ChangeEvent := actions.filterMap ListenAction.published

/-- Every run keeps the deliveries in order. -/
theorem Delivering.run {actions : List ListenAction} (h : Delivering replay live s published taken)
    (hrun : s.run actions = some s') :
    ∃ taken', Delivering replay live s' (published ++ publishes actions) taken' := by
  induction actions generalizing s published taken with
  | nil =>
    cases hrun
    exact ⟨taken, by simpa [publishes] using h⟩
  | cons action actions ih =>
    obtain ⟨mid, hstep, hrest⟩ := Option.bind_eq_some_iff.mp hrun
    obtain ⟨_, hmid⟩ := h.step hstep
    obtain ⟨taken', hend⟩ := ih hmid hrest
    refine ⟨taken', ?_⟩
    have hpublished : publishes (action :: actions) = action.published.toList ++ publishes actions := by
      unfold publishes
      cases haction : action.published <;> simp [haction]
    rwa [hpublished, ← List.append_assoc]

end Listening

end AuditeDB
