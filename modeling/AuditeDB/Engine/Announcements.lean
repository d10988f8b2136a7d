import Mathlib
import AuditeDB.Engine.Timelines

/-!
# Announcements

A call announces the rows that it committed before it gives the lock of their world back, one notification after the
other. What was sent about a world is therefore at any time what was committed to it, in the order of the commits, up
to the rows that the holder of its lock has not announced yet.
-/

namespace AuditeDB

open Results Interleaving Traces

/-- The identities of the rows that were committed to a world, in all its incarnations. -/
def committedIds (world : ValidatedWorldPath) (journal : List JournalEntry) : List SubscriptionEventId :=
  (journalOf world journal).flatMap JournalEntry.eventIds

/-- The identities that were announced for a world. -/
def announcedIds (world : ValidatedWorldPath) (sent : List ChangeEvent) : List SubscriptionEventId :=
  (sent.filterMap ChangeEvent.identity).filter fun id => id.world = world

@[simp] theorem committedIds_append (world : ValidatedWorldPath) (journal more : List JournalEntry) :
    committedIds world (journal ++ more) = committedIds world journal ++ committedIds world more := by
  simp [committedIds]

/-- A single entry. -/
theorem committedIds_singleton (world : ValidatedWorldPath) (entry : JournalEntry) :
    committedIds world [entry] = if entry.path = world then entry.eventIds else [] := by
  by_cases hpath : entry.path = world <;> simp [committedIds, journalOf, hpath]

/-- The rows that a call has committed to a world it holds and not announced yet. -/
def Local.pendingOf (l : Local) (slot : Slot) : Option (List SubscriptionEventId) := (l.held slot).map Holding.pending

/-- What a step does to the rows that are committed and announced. -/
inductive FeedStep (world : ValidatedWorldPath) (v v' : View) (l l' : Local) : Prop where
  | same (hsent : v'.sent.filterMap ChangeEvent.identity = v.sent.filterMap ChangeEvent.identity)
      (hjournal : ∀ path, committedIds path v'.journal = committedIds path v.journal) (hpending : l'.pendingOf = l.pendingOf)
  | lock (slot : Slot) (hfree : v.locked (slot.path world) = false) (hsent : v'.sent = v.sent)
      (hjournal : v'.journal = v.journal) (hpending : l'.pendingOf = Function.update l.pendingOf slot (some []))
  | unlock (slot : Slot) (hbefore : l.pendingOf slot = some []) (hsent : v'.sent = v.sent)
      (hjournal : v'.journal = v.journal) (hpending : l'.pendingOf = Function.update l.pendingOf slot none)
  | commit (slot : Slot) {entry : JournalEntry} (hbefore : l.pendingOf slot = some []) (hsent : v'.sent = v.sent)
      (hpath : entry.path = slot.path world) (hjournal : v'.journal = v.journal ++ [entry])
      (hpending : l'.pendingOf = Function.update l.pendingOf slot (some entry.eventIds))
  | send (slot : Slot) {id : SubscriptionEventId} {pending : List SubscriptionEventId} {change : ChangeEvent}
      (hbefore : l.pendingOf slot = some (id :: pending)) (hidentity : change.identity = some id)
      (hsent : v'.sent = v.sent ++ [change]) (hjournal : v'.journal = v.journal)
      (hpending : l'.pendingOf = Function.update l.pendingOf slot (some pending))

section Steps

variable [HashSuite] {key : AuditHmacKey} {call : Call} {caller : Nat} {v v' : View} {l l' : Local}

end Steps

section Worlds

variable [HashSuite] {key : AuditHmacKey} {did : Nat → Operation → Prop} {world : ValidatedWorldPath}

end Worlds

section Invariant

variable {n : Nat} {calls : Calls n} {v v' : View} {locals : Fin n → Local} {l' : Local}

variable (calls) in
/-- What was announced about every world is what was committed to it, but for what its holder has not announced. -/
structure Announced (v : View) (locals : Fin n → Local) : Prop where
  held : ∀ i slot pending, (locals i).pendingOf slot = some pending →
    announcedIds (slot.path (calls.call i).world) v.sent ++ pending =
      committedIds (slot.path (calls.call i).world) v.journal
  free : ∀ path, (∀ i slot, (locals i).pendingOf slot ≠ none → slot.path (calls.call i).world ≠ path) →
    announcedIds path v.sent = committedIds path v.journal

variable {i : Fin n}

/-- A call that moves what is pending for one world, which it holds or which nobody holds. -/
theorem Announced.move (h : Announced calls v locals) {slot : Slot}
    {pending : Option (List SubscriptionEventId)}
    (hpending : l'.pendingOf = Function.update (locals i).pendingOf slot pending)
    (hholder : ∀ j other, (locals j).pendingOf other ≠ none →
      other.path (calls.call j).world = slot.path (calls.call i).world → (j, other) = (i, slot))
    (hothers : ∀ path, path ≠ slot.path (calls.call i).world → announcedIds path v'.sent = announcedIds path v.sent ∧
      committedIds path v'.journal = committedIds path v.journal)
    (hown : announcedIds (slot.path (calls.call i).world) v'.sent ++ pending.getD [] =
      committedIds (slot.path (calls.call i).world) v'.journal) :
    Announced calls v' (Function.update locals i l') := by
  have hself : (Function.update locals i l' i).pendingOf slot = pending := by
    rw [Function.update_self, hpending, Function.update_self]
  have hsame : ∀ {j other}, (j, other) ≠ (i, slot) →
      (Function.update locals i l' j).pendingOf other = (locals j).pendingOf other := by
    intro j other hne
    by_cases hj : j = i
    · subst hj
      have hother : other ≠ slot := fun heq => hne (by rw [heq])
      rw [Function.update_self, hpending, Function.update_of_ne hother]
    · rw [Function.update_of_ne hj]
  refine ⟨fun j other p hp => ?_, fun path hnone => ?_⟩
  · by_cases hmoved : (j, other) = (i, slot)
    · cases hmoved
      rw [hself] at hp
      rw [hp] at hown
      exact hown
    · rw [hsame hmoved] at hp
      have hpath : other.path (calls.call j).world ≠ slot.path (calls.call i).world := fun hpath =>
        hmoved (hholder j other (by rw [hp]; exact Option.some_ne_none p) hpath)
      obtain ⟨hsent, hjournal⟩ := hothers _ hpath
      rw [hsent, hjournal]
      exact h.held j other p hp
  · by_cases hpath : path = slot.path (calls.call i).world
    · subst hpath
      have hempty : pending = none := by
        by_contra hsome
        exact hnone i slot (by rwa [hself]) rfl
      rwa [hempty, Option.getD_none, List.append_nil] at hown
    · obtain ⟨hsent, hjournal⟩ := hothers _ hpath
      rw [hsent, hjournal]
      refine h.free path fun j other hheld hsamePath => ?_
      have hmoved : (j, other) ≠ (i, slot) := by
        rintro ⟨⟩
        exact hpath hsamePath.symm
      exact hnone j other (by rwa [hsame hmoved]) hsamePath

/-- A world with something pending is held. -/
theorem Local.isSome_of_pendingOf {l : Local} {slot : Slot} (h : l.pendingOf slot ≠ none) :
    (l.held slot).isSome = true := by
  rw [Option.isSome_iff_ne_none]
  exact fun hnone => h (by rw [pendingOf, hnone]; rfl)

/-- Every step keeps the announcements in step with the commits. -/
theorem Announced.step (h : Announced calls v locals) (hexclusive : Exclusive calls v locals)
    (hworlds : ∀ path, ∀ id ∈ committedIds path v.journal, id.world = path)
    (hstep : FeedStep (calls.call i).world v v' (locals i) l') : Announced calls v' (Function.update locals i l') := by
  -- the call is the only holder of a world that it holds
  have hholder : ∀ {slot : Slot} {pending : List SubscriptionEventId}, (locals i).pendingOf slot = some pending →
      ∀ j other, (locals j).pendingOf other ≠ none →
        other.path (calls.call j).world = slot.path (calls.call i).world → (j, other) = (i, slot) := by
    intro slot pending hbefore j other hheld hpath
    have hown : (locals i).pendingOf slot ≠ none := by rw [hbefore]; exact Option.some_ne_none _
    obtain ⟨rfl, rfl⟩ := hexclusive.alone j i other slot (Local.isSome_of_pendingOf hheld)
      (Local.isSome_of_pendingOf hown) hpath
    rfl
  cases hstep with
  | same hsent hjournal hpending =>
    have hall : ∀ j, (Function.update locals i l' j).pendingOf = (locals j).pendingOf := by
      intro j
      by_cases hj : j = i
      · rw [hj, Function.update_self, hpending]
      · rw [Function.update_of_ne hj]
    have hannounced : ∀ path, announcedIds path v'.sent = announcedIds path v.sent := fun path => by
      rw [announcedIds, hsent, announcedIds]
    refine ⟨fun j slot p hp => ?_, fun path hnone => ?_⟩
    · rw [hannounced, hjournal]
      exact h.held j slot p (by rwa [hall] at hp)
    · rw [hannounced, hjournal]
      exact h.free path fun j slot hheld => hnone j slot (by rwa [hall])
  | lock slot hfree hsent hjournal hpending =>
    have hnobody : ∀ j other, (locals j).pendingOf other ≠ none →
        other.path (calls.call j).world ≠ slot.path (calls.call i).world := by
      intro j other hheld hpath
      have hlocked := hexclusive.locked j other (Local.isSome_of_pendingOf hheld)
      rw [hpath, hfree] at hlocked
      cases hlocked
    refine h.move hpending (fun j other hheld hpath => absurd hpath (hnobody j other hheld)) ?_ ?_
    · intro path _
      rw [hsent, hjournal]
      exact ⟨rfl, rfl⟩
    · rw [hsent, hjournal, Option.getD_some, List.append_nil]
      exact h.free _ hnobody
  | unlock slot hbefore hsent hjournal hpending =>
    refine h.move hpending (hholder hbefore) ?_ ?_
    · intro path _
      rw [hsent, hjournal]
      exact ⟨rfl, rfl⟩
    · rw [hsent, hjournal]
      exact h.held i slot [] hbefore
  | commit slot hbefore hsent hpath hjournal hpending =>
    refine h.move hpending (hholder hbefore) ?_ ?_
    · intro path hne
      rw [hsent, hjournal, committedIds_append, committedIds_singleton, if_neg (by rw [hpath]; exact hne.symm),
        List.append_nil]
      exact ⟨rfl, rfl⟩
    · have hold := h.held i slot [] hbefore
      rw [List.append_nil] at hold
      rw [hsent, hjournal, committedIds_append, committedIds_singleton, if_pos hpath, ← hold]
      rfl
  | @send slot id pending change hbefore hidentity hsent hjournal hpending =>
    have hold := h.held i slot _ hbefore
    have hworld : id.world = slot.path (calls.call i).world := by
      refine hworlds _ id ?_
      rw [← hold]
      simp
    have hannounced : ∀ path, announcedIds path v'.sent =
        announcedIds path v.sent ++ if slot.path (calls.call i).world = path then [id] else [] := by
      intro path
      by_cases hpath : slot.path (calls.call i).world = path <;>
        simp [announcedIds, hsent, hidentity, hworld, hpath]
    refine h.move hpending (hholder hbefore) ?_ ?_
    · intro path hne
      rw [hannounced, if_neg hne.symm, List.append_nil, hjournal]
      exact ⟨rfl, rfl⟩
    · rw [hannounced, if_pos rfl, hjournal, ← hold]
      simp

end Invariant

section Runs

variable [HashSuite] {n : Nat} {calls : Calls n} {pool : Pool (Fin n) Core CallError Reply} {world : ValidatedWorldPath}

end Runs

end AuditeDB
