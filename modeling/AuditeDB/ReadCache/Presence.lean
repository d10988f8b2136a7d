import Mathlib
import AuditeDB.ReadCache.Safety

/-!
# The read cache invents no absence

A read says that a world is absent when its file is missing or when it reads through a tombstone. Tombstones are put
into the map by deletes, under the lock of the world, and are gone when the lock is released. So a read that no delete
overlaps finds every world whose file is there, whatever other reads, writes and evictions do to its slots. A replace or
an append reads under the lock, so it always finds such a world, also one that a failed delete has left.
-/

namespace AuditeDB

open Interleaving

variable {ι : Type} [DecidableEq ι]

/-- A delete. -/
def CacheCall.isDelete : CacheCall → Bool
  | delete _ => true
  | read _ | write _ | evict => false

/-- A call that reads under the lock of the world. -/
def CacheCall.isGuarded : CacheCall → Bool
  | write _ | delete _ => true
  | read _ | evict => false

/-- What a call knows: whether it has the lock, whether its tombstone is in the map and which slot it still has to
drain, the slot that only it knows, the slot it holds, and whether it has read through a tombstone. -/
structure Sight where
  locked : Bool
  tomb : Bool
  draining : Option Nat
  fresh : Option Nat
  held : Option Nat
  absent : Bool

/-- A call that has not started. -/
def Sight.idle : Sight := ⟨false, false, none, none, none, false⟩

omit [DecidableEq ι] in
/-- A change of the cache that neither takes a lock nor brings up a slot or a tombstone. -/
structure ReadCache.Keeps (c c' : ReadCache ι) : Prop where
  lock : c'.lock = c.lock
  next : c'.next = c.next
  conn : c'.conn = c.conn ∨ c'.conn = none
  tombstone : ∀ id, (c'.slots id).state = .tombstone → (c.slots id).state = .tombstone

namespace ReadCache

variable (c : ReadCache ι) {id : Nat} {slot : ReadSlot ι}

omit [DecidableEq ι] in
/-- Nothing changes. -/
theorem keeps_self : c.Keeps c := ⟨rfl, rfl, .inl rfl, fun _ h => h⟩

omit [DecidableEq ι] in
/-- A slot changes that does not become a tombstone. -/
theorem keeps_setSlot (h : slot.state = .tombstone → (c.slots id).state = .tombstone) : c.Keeps (c.setSlot id slot) := by
  refine ⟨rfl, rfl, .inl rfl, fun other hother => ?_⟩
  simp only [setSlot, Function.update_apply] at hother
  split at hother
  · next hid => exact hid ▸ h hother
  · exact hother

/-- A call clones the `Arc` of a slot. -/
theorem keeps_hold (caller : ι) (id : Nat) : c.Keeps (c.hold caller id) := c.keeps_setSlot fun h => h

omit [DecidableEq ι] in
/-- An entry is removed from the map. -/
theorem keeps_removeIf (id : Nat) : c.Keeps (c.removeIf id) := by
  unfold removeIf
  split
  · exact ⟨rfl, rfl, .inr rfl, fun _ h => h⟩
  · exact c.keeps_self

omit [DecidableEq ι] in
/-- Changes one after the other. -/
theorem Keeps.trans {c c' c'' : ReadCache ι} (h : c.Keeps c') (h' : c'.Keeps c'') : c.Keeps c'' where
  lock := h'.lock.trans h.lock
  next := h'.next.trans h.next
  conn := by
    rcases h'.conn with hconn | hconn
    · rw [hconn]
      exact h.conn
    · exact .inr hconn
  tombstone id hid := h.tombstone id (h'.tombstone id hid)

end ReadCache

/-- The steps of a call, as far as tombstones are concerned. -/
inductive SightStep (call : CacheCall) (caller : ι) : ReadCache ι → Sight → ReadCache ι → Sight → Prop where
  | keep {c c' s} (hkeeps : c.Keeps c') : SightStep call caller c s c' s
  | hold {c c' s} {id : Nat} (hguard : call.isGuarded = true → s.locked = true) (hkeeps : c.Keeps c')
      (hconn : c.conn = some id) : SightStep call caller c s c' { s with held := some id, fresh := none }
  | drop {c c' s} (hkeeps : c.Keeps c') : SightStep call caller c s c' { s with held := none }
  | see {c c' s} {id : Nat} (hkeeps : c.Keeps c') (hheld : s.held = some id) :
      SightStep call caller c s c' { s with absent := s.absent || (c.slots id).state = .tombstone }
  | create {c s} : SightStep call caller c s (c.newSlot caller) { s with fresh := some c.next }
  | publish {c s} {id : Nat} (hguard : call.isGuarded = true → s.locked = true) (hfresh : s.fresh = some id)
      (hconn : c.conn = none) :
      SightStep call caller c s { c with conn := some id } { s with held := some id, fresh := none }
  | lock {c s} (hfree : c.lock = none) :
      SightStep call caller c s { c with lock := some caller } { s with locked := true }
  | unlock {c s} (hlocked : s.locked = true) (htomb : s.tomb = false) (hheld : s.held = none) :
      SightStep call caller c s { c with lock := none } { s with locked := false }
  | clear {c s} (hlocked : s.locked = true) (hdraining : s.draining = none) :
      SightStep call caller c s c.clear { s with tomb := false }
  | install {c s} (hdelete : call.isDelete = true) (hlocked : s.locked = true) :
      SightStep call caller c s c.install { s with tomb := true, draining := c.conn }
  | drain {c s} {id : Nat} (hdraining : s.draining = some id) :
      SightStep call caller c s (c.setState id .tombstone) { s with draining := none }

/-- No delete has the lock of the world. -/
def NoDelete (calls : ι → CacheCall) (c : ReadCache ι) : Prop := ∀ i, c.lock = some i → (calls i).isDelete = false

instance [Fintype ι] (calls : ι → CacheCall) (c : ReadCache ι) : Decidable (NoDelete calls c) :=
  inferInstanceAs (Decidable (∀ _, _ → _))

/-- What holds of tombstones in every reachable state: the one in the map belongs to the delete with the lock. -/
structure Sighted (calls : ι → CacheCall) (c : ReadCache ι) (sights : ι → Sight) : Prop where
  locked : ∀ i, (sights i).locked = true → c.lock = some i
  delete : ∀ i, (sights i).tomb = true → (sights i).locked = true ∧ (calls i).isDelete = true
  drains : ∀ i, (sights i).draining ≠ none → (sights i).tomb = true
  tomb : ∀ id, c.conn = some id → (c.slots id).state = .tombstone → ∃ i, (sights i).tomb = true
  conn : ∀ id, c.conn = some id → id < c.next
  fresh : ∀ i id, (sights i).fresh = some id → (c.slots id).state ≠ .tombstone ∧ id < c.next ∧ c.conn ≠ some id
  alone : ∀ i j id, (sights i).fresh = some id → (sights j).fresh = some id → i = j
  draining : ∀ i id, (sights i).draining = some id → id < c.next ∧ ∀ j, (sights j).fresh ≠ some id
  guarded : ∀ i, (calls i).isGuarded = true → (sights i).held ≠ none → (sights i).locked = true

section Invariant

variable {calls : ι → CacheCall} {c c' : ReadCache ι} {sights : ι → Sight} {i : ι} {sight : Sight} {id : Nat}

namespace Sighted

/-- A tombstone that no step of the call has cleared. -/
theorem exists_tomb_update (h : ∃ j, (sights j).tomb = true) (htomb : (sights i).tomb = true → sight.tomb = true) :
    ∃ j, (Function.update sights i sight j).tomb = true := by
  obtain ⟨j, hj⟩ := h
  refine ⟨j, ?_⟩
  by_cases hji : j = i
  · subst hji
    rw [Function.update_self]
    exact htomb hj
  · rwa [Function.update_of_ne hji]

omit [DecidableEq ι] in
/-- A change that brings up no slot and no tombstone. -/
theorem keeps (h : Sighted calls c sights) (hkeeps : c.Keeps c') : Sighted calls c' sights := by
  obtain ⟨hlocked, hdelete, hdrains, htomb, hconn, hfresh, halone, hdraining, hguarded⟩ := h
  obtain ⟨hlock, hnext, hmap, hstate⟩ := hkeeps
  constructor <;> grind

/-- A call changes what it holds. -/
theorem holds (h : Sighted calls c sights) (hsame : sight.locked = (sights i).locked ∧ sight.tomb = (sights i).tomb ∧
      sight.draining = (sights i).draining)
    (hfresh : sight.fresh = (sights i).fresh ∨ sight.fresh = none)
    (hguard : (calls i).isGuarded = true → sight.held ≠ none → sight.locked = true) :
    Sighted calls c (Function.update sights i sight) := by
  obtain ⟨hlocked, hdelete, hdrains, htomb, hconn, hfresh', halone, hdraining, hguarded⟩ := h
  constructor
  case tomb => exact fun id hid hstate => exists_tomb_update (htomb id hid hstate) hsame.2.1.trans
  all_goals grind [Function.update_apply]

/-- A call creates a slot that only it knows. -/
theorem create (h : Sighted calls c sights) :
    Sighted calls (c.newSlot i) (Function.update sights i { sights i with fresh := some c.next }) := by
  obtain ⟨hlocked, hdelete, hdrains, htomb, hconn, hfresh, halone, hdraining, hguarded⟩ := h
  simp only [ReadCache.newSlot, ReadCache.setSlot]
  constructor
  case tomb =>
    intro id hid hstate
    have hold : c.next ≠ id := (hconn id hid).ne'
    exact exists_tomb_update (htomb id hid (by simpa [Function.update_of_ne hold.symm] using hstate)) fun h => h
  all_goals grind [Function.update_apply]

/-- A call puts its own slot into the empty map. -/
theorem publish (h : Sighted calls c sights) (hguard : (calls i).isGuarded = true → (sights i).locked = true)
    (hown : (sights i).fresh = some id) :
    Sighted calls { c with conn := some id } (Function.update sights i { sights i with held := some id, fresh := none }) := by
  obtain ⟨hlocked, hdelete, hdrains, htomb, hconn, hfresh, halone, hdraining, hguarded⟩ := h
  constructor <;> grind [Function.update_apply]

/-- A call takes the free lock. -/
theorem lock (h : Sighted calls c sights) (hfree : c.lock = none) :
    Sighted calls { c with lock := some i } (Function.update sights i { sights i with locked := true }) := by
  obtain ⟨hlocked, hdelete, hdrains, htomb, hconn, hfresh, halone, hdraining, hguarded⟩ := h
  constructor <;> grind [Function.update_apply]

/-- A call without a tombstone gives the lock back. -/
theorem unlock (h : Sighted calls c sights) (hown : (sights i).locked = true) (hnotomb : (sights i).tomb = false)
    (hheld : (sights i).held = none) :
    Sighted calls { c with lock := none } (Function.update sights i { sights i with locked := false }) := by
  obtain ⟨hlocked, hdelete, hdrains, htomb, hconn, hfresh, halone, hdraining, hguarded⟩ := h
  constructor <;> grind [Function.update_apply]

/-- The map is cleared. -/
theorem clear (h : Sighted calls c sights) (hdrained : (sights i).draining = none) :
    Sighted calls c.clear (Function.update sights i { sights i with tomb := false }) := by
  obtain ⟨hlocked, hdelete, hdrains, htomb, hconn, hfresh, halone, hdraining, hguarded⟩ := h
  simp only [ReadCache.clear]
  constructor <;> grind [Function.update_apply]

/-- A delete with the lock puts its tombstone into the map. -/
theorem install (h : Sighted calls c sights) (hdeletes : (calls i).isDelete = true) (hown : (sights i).locked = true) :
    Sighted calls c.install (Function.update sights i { sights i with tomb := true, draining := c.conn }) := by
  obtain ⟨hlocked, hdelete, hdrains, htomb, hconn, hfresh, halone, hdraining, hguarded⟩ := h
  simp only [ReadCache.install, ReadCache.setSlot]
  constructor
  case tomb => exact fun _ _ _ => ⟨i, by rw [Function.update_self]⟩
  all_goals grind [Function.update_apply]

/-- A delete drains the slot that its tombstone took the place of. -/
theorem drain (h : Sighted calls c sights) (hown : (sights i).draining = some id) :
    Sighted calls (c.setState id .tombstone) (Function.update sights i { sights i with draining := none }) := by
  obtain ⟨hlocked, hdelete, hdrains, htomb, hconn, hfresh, halone, hdraining, hguarded⟩ := h
  have hmine := hdrains i (by rw [hown]; simp)
  simp only [ReadCache.setState, ReadCache.setSlot]
  constructor
  case tomb => exact fun _ _ _ => exists_tomb_update ⟨i, hmine⟩ fun h => h
  all_goals grind [Function.update_apply]

/-- Every step keeps the tombstones where they belong. -/
theorem step (h : Sighted calls c sights) (hstep : SightStep (calls i) i c (sights i) c' sight) :
    Sighted calls c' (Function.update sights i sight) := by
  cases hstep with
  | keep hkeeps =>
    rw [Function.update_eq_self]
    exact h.keeps hkeeps
  | hold hguard hkeeps => exact (h.keeps hkeeps).holds ⟨rfl, rfl, rfl⟩ (.inr rfl) fun hguarded _ => hguard hguarded
  | drop hkeeps => exact (h.keeps hkeeps).holds ⟨rfl, rfl, rfl⟩ (.inl rfl) fun _ hheld => absurd rfl hheld
  | see hkeeps => exact (h.keeps hkeeps).holds ⟨rfl, rfl, rfl⟩ (.inl rfl) (h.guarded i)
  | create => exact h.create
  | publish hguard hfresh => exact h.publish hguard hfresh
  | lock hfree => exact h.lock hfree
  | unlock hlocked htomb hheld => exact h.unlock hlocked htomb hheld
  | clear _ hdraining => exact h.clear hdraining
  | install hdelete hlocked => exact h.install hdelete hlocked
  | drain hdraining => exact h.drain hdraining

end Sighted

/-- A call that is no delete may be taken for one that has not started. -/
theorem Sighted.restart (h : Sighted calls c sights) (hread : (calls i).isDelete = false) :
    Sighted calls c (Function.update sights i .idle) := by
  obtain ⟨hlocked, hdelete, hdrains, htomb, hconn, hfresh, halone, hdraining, hguarded⟩ := h
  constructor
  case tomb =>
    refine fun id hid hstate => Sighted.exists_tomb_update (htomb id hid hstate) fun hmine => ?_
    rw [(hdelete i hmine).2] at hread
    cases hread
  all_goals grind [Function.update_apply, Sight.idle]

omit [DecidableEq ι] in
/-- While no delete has the lock, the map has no tombstone. -/
theorem Sighted.not_tombstone (h : Sighted calls c sights) (hquiet : NoDelete calls c) (hconn : c.conn = some id) :
    (c.slots id).state ≠ .tombstone := by
  intro hstate
  obtain ⟨j, hj⟩ := h.tomb id hconn hstate
  obtain ⟨hlocked, hdelete⟩ := h.delete j hj
  rw [hquiet j (h.locked j hlocked)] at hdelete
  cases hdelete

omit [DecidableEq ι] in
/-- While no delete has the lock, no slot becomes a tombstone. -/
theorem Sighted.tombstone_of_step (h : Sighted calls c sights) (hquiet : NoDelete calls c)
    (hstep : SightStep (calls i) i c (sights i) c' sight) (hstate : (c'.slots id).state = .tombstone) :
    (c.slots id).state = .tombstone := by
  cases hstep with
  | keep hkeeps | hold _ hkeeps | drop hkeeps | see hkeeps => exact hkeeps.tombstone id hstate
  | create =>
    simp only [ReadCache.newSlot, ReadCache.setSlot, Function.update_apply] at hstate
    split at hstate
    · cases hstate
    · exact hstate
  | publish | lock | unlock | clear => exact hstate
  | install hdelete hlocked =>
    rw [hquiet i (h.locked i hlocked)] at hdelete
    cases hdelete
  | drain hdraining =>
    obtain ⟨hlocked, hdelete⟩ := h.delete i (h.drains i (by rw [hdraining]; simp))
    rw [hquiet i (h.locked i hlocked)] at hdelete
    cases hdelete

omit [DecidableEq ι] in
/-- A call that has read through no tombstone, and holds none. -/
structure Present (c : ReadCache ι) (sight : Sight) : Prop where
  absent : sight.absent = false
  held : ∀ id, sight.held = some id → (c.slots id).state ≠ .tombstone

/-- A call meets no tombstone while no delete has the lock, where it matters to the call. -/
theorem Present.step {r : ι} (hpresent : Present c (sights r)) (h : Sighted calls c sights)
    (hquiet : ((calls r).isGuarded = true → (sights r).locked = true) → NoDelete calls c)
    (hstep : SightStep (calls i) i c (sights i) c' sight) : Present c' (Function.update sights i sight r) := by
  -- The slot that the call held stays what it is.
  have hkept : ∀ id, (sights r).held = some id → (c'.slots id).state ≠ .tombstone := fun id hid hstate =>
    hpresent.held id hid (h.tombstone_of_step (hquiet fun hguard => h.guarded r hguard (by rw [hid]; simp)) hstep hstate)
  by_cases hi : r = i
  swap
  · rw [Function.update_of_ne hi]
    exact ⟨hpresent.absent, hkept⟩
  subst hi
  rw [Function.update_self]
  cases hstep with
  | keep | create | lock | unlock | clear | install | drain => exact ⟨hpresent.absent, hkept⟩
  | drop => exact ⟨hpresent.absent, fun _ hnone => by cases hnone⟩
  | hold hguard hkeeps hconn =>
    refine ⟨hpresent.absent, fun id hid hstate => ?_⟩
    cases hid
    exact h.not_tombstone (hquiet hguard) hconn (hkeeps.tombstone _ hstate)
  | see hkeeps hheld => exact ⟨by simp [hpresent.absent, hpresent.held _ hheld], hkept⟩
  | publish hguard hfresh =>
    refine ⟨hpresent.absent, fun id hid => ?_⟩
    cases hid
    exact (h.fresh r _ hfresh).1

end Invariant

section Programs

variable {α : Type} {call : CacheCall} {caller : ι} {base : Sight} {held : Option Nat} {absent : Bool} {id : Nat}

/-- A program takes the steps of a call. -/
abbrev SightFollows (call : CacheCall) (caller : ι) (program : Prog (ReadCache ι) Unit α) (sight : Sight)
    (post : Except Unit α → Sight → Prop) : Prop :=
  Follows (fun _ _ => True) (SightStep call caller) program sight post

/-- A call that reads: the slot it holds, and whether it has read through a tombstone. -/
def Sight.reads (base : Sight) (held : Option Nat) (absent : Bool) : Sight :=
  { base with held := held, fresh := none, absent := absent }

omit [DecidableEq ι] in
/-- A step that brings up nothing. -/
theorem modify_sight {act : ReadCache ι → ReadCache ι} {sight : Sight} (hkeeps : ∀ c, ReadCache.Keeps c (act c)) :
    SightFollows call caller (Prog.modify act) sight (Returns fun _ s' => s' = sight) :=
  .modify fun c _ => ⟨_, .keep (hkeeps c), _, rfl, rfl⟩

/-- A lookup. -/
theorem lookupSlot_sight (hguard : call.isGuarded = true → base.locked = true) :
    SightFollows call caller (lookupSlot caller) (base.reads none absent)
      (Returns fun found s' => s' = base.reads found absent) := by
  refine .atomically fun c _ => ?_
  cases hconn : c.conn with
  | none => exact ⟨_, .keep c.keeps_self, _, rfl, rfl⟩
  | some id => exact ⟨_, .hold hguard (c.keeps_hold caller id) hconn, _, rfl, rfl⟩

/-- The end of a slot that the call holds. -/
theorem dropSlot_sight :
    SightFollows call caller (dropSlot caller id) (base.reads held absent)
      (Returns fun _ s' => s' = base.reads none absent) :=
  .modify fun c _ => ⟨_, .drop (c.keeps_setSlot fun h => h), _, rfl, rfl⟩

omit [DecidableEq ι] in
/-- The end of an entry. -/
theorem removeEntry_sight {sight : Sight} :
    SightFollows call caller (removeEntry id) sight (Returns fun _ s' => s' = sight) :=
  modify_sight fun c => c.keeps_removeIf id

/-- A read through a slot finds nothing when the slot is a tombstone. -/
theorem invokeViaSlot_sight (reads : Bool) :
    SightFollows call caller (invokeViaSlot caller reads id) (base.reads (some id) absent)
      (Returns fun read s' => s' = base.reads (some id) (absent || read = .done false)) := by
  intro c _ _
  refine ⟨_, .see (c.keeps_setSlot fun h => h) rfl, ?_⟩
  intro c' _ _
  refine ⟨_, .keep (c'.keeps_setSlot fun h => h), ?_⟩
  cases (c.slots id).state with
  | opening => exact ⟨.opening, rfl, rfl⟩
  | ready => cases reads <;> exact ⟨_, rfl, rfl⟩
  | evicted => exact ⟨.evicted, rfl, rfl⟩
  | tombstone => exact ⟨.done false, rfl, rfl⟩

/-- What a call has seen when it ends: a tombstone, if it found nothing though the file was there. -/
def Sight.Ends (base : Sight) (file : Prop) (outcome : Except Unit Bool) (s' : Sight) : Prop :=
  ∃ absent, s' = base.reads none absent ∧ (outcome = .ok false → file → absent = true)

variable {file : Prop}

/-- What follows a read ends as the read or as the next pass does. -/
theorem afterRead_sight {again : Prog (ReadCache ι) Unit Bool} (read : SlotRead)
    (hagain : SightFollows call caller again (base.reads none absent) (base.Ends file)) :
    SightFollows call caller (afterRead caller id again read) (base.reads held (absent || read = .done false))
      (base.Ends file) := by
  cases read with
  | done found =>
    refine dropSlot_sight.bind_returns ?_
    rintro _ _ rfl
    refine ⟨_, rfl, fun hfound _ => ?_⟩
    cases hfound
    simp
  | failed =>
    refine dropSlot_sight.bind_returns ?_
    rintro _ _ rfl
    exact ⟨_, rfl, fun hfound => by cases hfound⟩
  | opening =>
    refine dropSlot_sight.bind_returns ?_
    rintro _ _ rfl
    simpa using hagain
  | evicted =>
    refine removeEntry_sight.bind_returns ?_
    rintro _ _ rfl
    refine dropSlot_sight.bind_returns ?_
    rintro _ _ rfl
    simpa using hagain

/-- The publication of a new slot. -/
theorem publishSlot_sight (hguard : call.isGuarded = true → base.locked = true) :
    SightFollows call caller (publishSlot caller id) { base.reads none absent with fresh := some id }
      (Returns fun (arc, _) s' => s' = base.reads (some arc) absent) := by
  refine .atomically fun c _ => ?_
  cases hconn : c.conn with
  | none => exact ⟨_, .publish hguard rfl hconn, _, rfl, rfl⟩
  | some other =>
    have hdropped : c.Keeps (c.setSlot id { c.slots id with holders := ∅, writer := none }) := c.keeps_setSlot fun h => h
    exact ⟨_, .hold hguard (hdropped.trans (ReadCache.keeps_hold _ caller other)) hconn, _, rfl, rfl⟩

omit [DecidableEq ι] in
/-- The end of an opening: the slot is ready or evicted. -/
theorem finishOpening_sight {state : SlotState} {sight : Sight} (hstate : state ≠ .tombstone) :
    SightFollows call caller (finishOpening id state) sight (Returns fun _ s' => s' = sight) :=
  modify_sight fun c => c.keeps_setSlot fun h => absurd h hstate

/-- What a call holds after slot-before-open; it finds nothing only when the file has vanished. -/
def Sight.Opened (base : Sight) (absent vanished : Bool) (outcome : Except Unit (Option (Nat × Bool))) (s' : Sight) :
    Prop :=
  match outcome with
  | .ok (some (id, _)) => s' = base.reads (some id) absent
  | .ok none => s' = base.reads none absent ∧ vanished = true
  | .error _ => s' = base.reads none absent

/-- Slot-before-open. -/
theorem openSlot_sight (opens vanished : Bool) (hguard : call.isGuarded = true → base.locked = true) :
    SightFollows call caller (openSlot caller opens vanished) (base.reads none absent)
      (base.Opened absent vanished) := by
  intro c _ _
  refine ⟨_, .create, (publishSlot_sight hguard).bind_returns ?_⟩
  rintro ⟨arc, own⟩ _ rfl
  cases own with
  | false => exact rfl
  | true =>
    cases opens with
    | true =>
      refine (finishOpening_sight (by simp)).bind_returns ?_
      rintro _ _ rfl
      exact rfl
    | false =>
      refine (finishOpening_sight (by simp)).bind_returns ?_
      rintro _ _ rfl
      refine removeEntry_sight.bind_returns ?_
      rintro _ _ rfl
      refine dropSlot_sight.bind_returns ?_
      rintro _ _ rfl
      cases vanished with
      | true => exact ⟨rfl, rfl⟩
      | false => exact rfl

/-- The end of a transient slot. -/
theorem drainOwn_sight {sight : Sight} :
    SightFollows call caller (drainOwn id) sight (Returns fun _ s' => s' = sight) :=
  .await fun c _ _ => ⟨_, .keep (c.keeps_setSlot fun h => by cases h), _, rfl, rfl⟩

/-- The file of the world is there in every pass. -/
def ReadEnv.Exists (env : ReadEnv) : Prop := ∀ pass, env.missing pass = false ∧ env.vanished pass = false

/-- A transient read. -/
theorem invokeTransient_sight (env : ReadEnv) (passes : Nat) (hguard : call.isGuarded = true → base.locked = true) :
    SightFollows call caller (invokeTransient caller env passes) (base.reads none absent) (base.Ends env.Exists) := by
  induction passes with
  | zero => exact ⟨_, rfl, fun hfound => by cases hfound⟩
  | succ pass ih =>
    refine (lookupSlot_sight hguard).bind_returns ?_
    rintro (_ | id) _ rfl
    · refine (openSlot_sight _ _ hguard).bind ?_ ?_
      · rintro (_ | ⟨id, own⟩) _ hopened
        · obtain ⟨rfl, hvanished⟩ := hopened
          refine ⟨_, rfl, fun _ hexists => ?_⟩
          simp [(hexists pass).2] at hvanished
        · cases hopened
          refine (invokeViaSlot_sight _).bind_returns ?_
          rintro read _ rfl
          cases read with
          | done found =>
            have hlast : SightFollows call caller (do dropSlot caller id; pure found)
                (base.reads (some id) (absent || decide (SlotRead.done found = .done false))) (base.Ends env.Exists) :=
              afterRead_sight (.done found) ih
            cases own with
            | true =>
              refine drainOwn_sight.bind_returns ?_
              rintro _ _ rfl
              refine removeEntry_sight.bind_returns ?_
              rintro _ _ rfl
              exact hlast
            | false => exact hlast
          | opening | evicted | failed => exact afterRead_sight _ ih
      · rintro _ _ rfl
        exact ⟨_, rfl, fun hfound => by cases hfound⟩
    · refine (invokeViaSlot_sight _).bind_returns ?_
      rintro read _ rfl
      exact afterRead_sight read ih

/-- A tracked read. -/
theorem trackedPasses_sight (env transient : ReadEnv) (passes : Nat)
    (hguard : call.isGuarded = true → base.locked = true) :
    SightFollows call caller (trackedPasses caller env transient passes) (base.reads none absent)
      (base.Ends (env.Exists ∧ transient.Exists)) := by
  have htransient : SightFollows call caller (invokeTransient caller transient readCacheRetryBudget)
      (base.reads none absent) (base.Ends (env.Exists ∧ transient.Exists)) := by
    refine (invokeTransient_sight transient _ hguard).mono ?_
    rintro outcome _ ⟨absent, rfl, hfound⟩
    exact ⟨absent, rfl, fun hfalse hexists => hfound hfalse hexists.2⟩
  induction passes with
  | zero => exact htransient
  | succ pass ih =>
    refine (lookupSlot_sight hguard).bind_returns ?_
    rintro (_ | id) _ rfl
    · dsimp only
      split
      · split
        · exact ih
        · exact htransient
      · split
        · next hmissing =>
          refine ⟨_, rfl, fun _ hexists => ?_⟩
          simp [(hexists.1 pass).1] at hmissing
        · refine (openSlot_sight _ _ hguard).bind ?_ ?_
          · rintro (_ | ⟨id, own⟩) _ hopened
            · obtain ⟨rfl, hvanished⟩ := hopened
              refine ⟨_, rfl, fun _ hexists => ?_⟩
              simp [(hexists.1 pass).2] at hvanished
            · cases hopened
              refine (invokeViaSlot_sight _).bind_returns ?_
              rintro read _ rfl
              exact afterRead_sight read ih
          · rintro _ _ rfl
            exact ⟨_, rfl, fun hfound => by cases hfound⟩
    · refine (invokeViaSlot_sight _).bind_returns ?_
      rintro read _ rfl
      exact afterRead_sight read ih

/-- The file of the world is there in every pass of every read. -/
def FileExists (reads : List (ReadEnv × ReadEnv)) : Prop := ∀ env ∈ reads, env.1.Exists ∧ env.2.Exists

/-- Reads one after the other. -/
theorem trackedReads_sight (reads : List (ReadEnv × ReadEnv)) (hguard : call.isGuarded = true → base.locked = true) :
    SightFollows call caller (trackedReads caller reads) (base.reads none absent) (base.Ends (FileExists reads)) := by
  induction reads generalizing absent with
  | nil => exact ⟨_, rfl, fun hfound => by cases hfound⟩
  | cons env rest ih =>
    refine (trackedPasses_sight env.1 env.2 readCacheRetryBudget hguard).bind ?_ ?_
    · rintro found _ ⟨absent', rfl, hfound⟩
      cases found with
      | true =>
        refine ih.mono ?_
        rintro outcome _ ⟨absent'', rfl, hrest⟩
        exact ⟨absent'', rfl, fun hfalse hexists => hrest hfalse fun other hother =>
          hexists other (List.mem_cons_of_mem _ hother)⟩
      | false => exact ⟨absent', rfl, fun _ hexists => hfound rfl (hexists env (List.mem_cons_self ..))⟩
    · rintro _ _ ⟨absent', rfl, -⟩
      exact ⟨absent', rfl, fun hfound => by cases hfound⟩

omit [DecidableEq ι] in
/-- A call under the lock takes the lock and gives it back. -/
theorem withCacheLock_sight (file : Prop) {body : Prog (ReadCache ι) Unit Bool}
    (hbody : SightFollows call caller body ({ Sight.idle with locked := true }.reads none false)
      (Sight.Ends { Sight.idle with locked := true } file)) :
    SightFollows call caller (withCacheLock caller body) .idle (Sight.idle.Ends file) := by
  intro c _ hfree
  refine ⟨_, .lock (Option.isNone_iff_eq_none.mp hfree), hbody.ensuring ?_⟩
  rintro outcome _ ⟨absent, rfl, hfound⟩ c' _
  exact ⟨_, .unlock rfl rfl rfl, absent, rfl, hfound⟩

/-- The tombstone is installed and the slot before it drained. -/
theorem installTombstone_sight (hdelete : call.isDelete = true) (hlocked : base.locked = true)
    (hdraining : base.draining = none) :
    SightFollows call caller installTombstone (base.reads none absent)
      (Returns fun _ s' => s' = { base with tomb := true }.reads none absent) := by
  have hinstall : SightFollows call caller (Prog.atomically fun c : ReadCache ι => (c.conn, c.install))
      (base.reads none absent) (Returns fun prev s' =>
        s' = { base with tomb := true, draining := prev }.reads none absent) :=
    .atomically fun c _ => ⟨_, .install hdelete hlocked, _, rfl, rfl⟩
  refine hinstall.bind_returns ?_
  rintro (_ | prev) _ rfl
  · exact ⟨_, rfl, by rw [← hdraining]⟩
  · exact .await fun _ _ _ => ⟨_, .drain rfl, _, rfl, by rw [← hdraining]; rfl⟩

/-- An eviction. -/
theorem evictSlot_sight (hguard : call.isGuarded = true → base.locked = true) :
    SightFollows call caller (evictSlot caller) (base.reads none absent) fun _ s' => ∃ held, s' = base.reads held absent := by
  refine (lookupSlot_sight hguard).bind_returns ?_
  rintro (_ | id) _ rfl
  · exact ⟨none, rfl⟩
  · have htry : SightFollows call caller
        (Prog.atomically fun c : ReadCache ι =>
          if (c.slots id).Free ∧ (c.slots id).state = .ready then (true, c.setState id .evicted) else (false, c))
        (base.reads (some id) absent) (Returns fun _ s' => s' = base.reads (some id) absent) := by
      refine .atomically fun c _ => ?_
      split
      · exact ⟨_, .keep (c.keeps_setSlot fun h => by cases h), _, rfl, rfl⟩
      · exact ⟨_, .keep c.keeps_self, _, rfl, rfl⟩
    refine htry.bind_returns ?_
    rintro evicted _ rfl
    cases evicted with
    | true =>
      refine removeEntry_sight.bind_returns ?_
      rintro _ _ rfl
      refine dropSlot_sight.bind_returns ?_
      rintro _ _ rfl
      exact ⟨none, rfl⟩
    | false =>
      refine dropSlot_sight.bind_returns ?_
      rintro _ _ rfl
      exact ⟨none, rfl⟩

/-- The file of the world is there whenever a read or a write looks for it. -/
def CacheCall.FileExists : CacheCall → Prop
  | read env => env.1.Exists ∧ env.2.Exists
  | write reads => AuditeDB.FileExists reads
  | delete _ | evict => False

/-- The program of every call takes the steps of a call. One that finds nothing though the file is there has read
through a tombstone. -/
theorem CacheCall.program_sight (call : CacheCall) :
    SightFollows call caller (call.program caller) .idle fun outcome s' =>
      outcome = .ok false → call.FileExists → s'.absent = true := by
  cases call with
  | read env =>
    have hguard : (CacheCall.read env).isGuarded = true → Sight.idle.locked = true := fun h => by cases h
    refine (trackedPasses_sight env.1 env.2 readCacheRetryBudget hguard).mono ?_
    rintro outcome _ ⟨absent, rfl, hfound⟩
    exact hfound
  | write reads =>
    refine (withCacheLock_sight (AuditeDB.FileExists reads) ?_).mono ?_
    · intro c _ _
      exact ⟨_, .clear rfl rfl, trackedReads_sight reads fun _ => rfl⟩
    · rintro outcome _ ⟨absent, rfl, hfound⟩
      exact hfound
  | delete reads =>
    refine (withCacheLock_sight False ?_).mono fun _ _ _ _ hfalse => hfalse.elim
    refine (trackedReads_sight reads fun _ => rfl).bind ?_ ?_
    · rintro found _ ⟨absent, rfl, -⟩
      cases found with
      | false => exact ⟨absent, rfl, fun _ hfalse => hfalse.elim⟩
      | true =>
        refine (installTombstone_sight rfl rfl rfl).bind_returns ?_
        rintro _ _ rfl c _ _
        refine ⟨_, .keep ⟨rfl, rfl, .inl rfl, fun _ h => h⟩, fun c' _ _ => ?_⟩
        refine ⟨_, .keep ⟨rfl, rfl, .inl rfl, fun _ h => h⟩, fun c'' _ _ => ?_⟩
        exact ⟨_, .clear rfl rfl, absent, rfl, fun hfound => by cases hfound⟩
    · rintro _ _ ⟨absent, rfl, -⟩
      exact ⟨absent, rfl, fun hfound => by cases hfound⟩
  | evict =>
    have hguard : CacheCall.evict.isGuarded = true → Sight.idle.locked = true := fun h => by cases h
    exact (evictSlot_sight hguard).mono fun _ _ _ _ hfalse => False.elim hfalse

end Programs

section Calls

variable {n : Nat} {calls : Fin n → CacheCall} {pool pool' : Pool (Fin n) (ReadCache (Fin n)) Unit Bool} {r : Fin n}

/-- Tombstones stay where they belong. -/
theorem sighted_invariant (calls : Fin n → CacheCall) :
    ProtocolInvariant (fun _ _ _ => True) (fun i => SightStep (calls i) i) (Sighted calls) :=
  ⟨fun _ _ _ _ => trivial, fun _ _ _ _ _ h hstep => h.step hstep⟩

/-- A cache without slots has no tombstones. -/
theorem sighted_empty : Sighted calls .empty fun _ => .idle := by
  constructor <;> simp [Sight.idle, ReadCache.empty]

/-- What the calls have seen when they end. -/
abbrev SeenAtEnd (calls : Fin n → CacheCall) (i : Fin n) (outcome : Except Unit Bool) (sight : Sight) : Prop :=
  outcome = .ok false → (calls i).FileExists → sight.absent = true

/-- The calls before their first steps. -/
theorem sighted_initial (calls : Fin n → CacheCall) :
    (cacheCalls calls).Invariant (fun _ _ _ => True) (fun i => SightStep (calls i) i) (Sighted calls) (SeenAtEnd calls) :=
  ⟨fun _ => .idle, sighted_empty, fun i => (calls i).program_sight⟩

/-- A call that has not started has read through no tombstone. -/
theorem Present.idle {c : ReadCache (Fin n)} : Present c .idle := ⟨rfl, fun _ h => by cases h⟩

/-- A call that has read through no tombstone finds a world whose file is there. -/
theorem finds_of_present (h : pool.Invariant (fun _ _ _ => True) (fun i => SightStep (calls i) i)
      (fun c sights => Sighted calls c sights ∧ Present c (sights r)) (SeenAtEnd calls))
    (hexists : (calls r).FileExists) : pool.threads r ≠ .done false := by
  obtain ⟨sights, ⟨-, hpresent⟩, hends⟩ := h
  intro hdone
  have hseen := hends r
  rw [hdone] at hseen
  have habsent : (sights r).absent = true := hseen rfl hexists
  rw [hpresent.absent] at habsent
  cases habsent

/-- A read finds a world whose file is there when no delete has the lock of the world during the read, whatever other
reads, writes and evictions do meanwhile and whatever was deleted before. -/
theorem read_finds_world {env : ReadEnv × ReadEnv} (hreach : (cacheCalls calls).Reaches (fun _ _ => False) pool)
    (hcall : calls r = .read env) (hstart : pool.threads r = (calls r).program r)
    (hexists : env.1.Exists ∧ env.2.Exists)
    (hrun : pool.ReachesWithin (fun _ _ => False) (NoDelete calls) pool') : pool'.threads r ≠ .done false := by
  obtain ⟨sights, hsighted, hfollows⟩ :=
    (sighted_initial calls).reaches (sighted_invariant calls) (fun _ _ _ _ h => h.elim) hreach
  have hread : (calls r).isDelete = false := by rw [hcall]; rfl
  -- The read starts now, so it has seen nothing and holds nothing.
  have hnow : pool.Invariant (fun _ _ _ => True) (fun i => SightStep (calls i) i)
      (fun c sights => Sighted calls c sights ∧ Present c (sights r)) (SeenAtEnd calls) := by
    refine ⟨Function.update sights r .idle, ⟨hsighted.restart hread, ?_⟩, fun i => ?_⟩
    · rw [Function.update_self]
      exact .idle
    · by_cases hi : i = r
      · subst hi
        rw [Function.update_self, hstart]
        exact (calls i).program_sight
      · rw [Function.update_of_ne hi]
        exact hfollows i
  refine finds_of_present (hnow.reachesWithin (sighted_invariant calls) (fun _ _ _ _ _ h => h.elim) ?_ hrun) ?_
  · exact fun c sights i c' sight hquiet hsighted hpresent hstep => hpresent.step hsighted (fun _ => hquiet) hstep
  · rw [hcall]
    exact hexists

/-- A read finds the world although a write takes the slot that it opens out of the map. -/
theorem read_finds_world_crowded :
    let calls : Fin 3 → CacheCall := ![.read Sample.readEnv, .write [Sample.readEnv], .evict]
    ∃ pool, (cacheCalls calls).ReachesWithin (fun _ _ => False) (NoDelete calls) pool ∧ pool.shared.conn = some 1 ∧
      (pool.threads 0).returned = some true ∧ pool.threads 0 ≠ .done false := by
  intro calls
  obtain ⟨pool, hrun, hpool⟩ := Pool.reachesWithin_of_schedule (fun _ _ => False) (NoDelete calls)
    [0, 0, 0, 1, 1, 0, 1, 1, 1, 1, 2, 2, 0, 0, 0]
    (show (([0, 0, 0, 1, 1, 0, 1, 1, 1, 1, 2, 2, 0, 0, 0].foldlM
      (fun pool i => if NoDelete calls pool.shared then Pool.next pool i else none) (cacheCalls calls)).any fun pool =>
        pool.shared.conn = some 1 ∧ (pool.threads 0).returned = some true) = true by decide +kernel)
  obtain ⟨hconn, hreturned⟩ := of_decide_eq_true hpool
  have hexists : Sample.readEnv.1.Exists ∧ Sample.readEnv.2.Exists := ⟨fun _ => ⟨rfl, rfl⟩, fun _ => ⟨rfl, rfl⟩⟩
  exact ⟨pool, hrun, hconn, hreturned, read_finds_world .refl rfl rfl hexists hrun⟩

/-- A write reads only while it has the lock of the world, so no delete does. -/
theorem present_invariant {reads : List (ReadEnv × ReadEnv)} (hcall : calls r = .write reads) :
    ProtocolInvariant (fun _ _ _ => True) (fun i => SightStep (calls i) i)
      (fun c sights => Sighted calls c sights ∧ Present c (sights r)) := by
  refine ⟨fun _ _ _ _ => trivial, fun c sights i c' sight ⟨hsighted, hpresent⟩ hstep => ?_⟩
  refine ⟨hsighted.step hstep, hpresent.step hsighted (fun hguard j hj => ?_) hstep⟩
  have hlock : c.lock = some r := hsighted.locked r (hguard (by rw [hcall]; rfl))
  rw [hlock] at hj
  cases hj
  rw [hcall]
  rfl

/-- A replace or an append finds a world whose file is there, whatever reads, writes, deletes and evictions do to its
slots before and meanwhile. -/
theorem write_finds_world {reads : List (ReadEnv × ReadEnv)}
    (hreach : (cacheCalls calls).Reaches (fun _ _ => False) pool) (hcall : calls r = .write reads)
    (hexists : FileExists reads) : pool.threads r ≠ .done false := by
  have hinitial : (cacheCalls calls).Invariant (fun _ _ _ => True) (fun i => SightStep (calls i) i)
      (fun c sights => Sighted calls c sights ∧ Present c (sights r)) (SeenAtEnd calls) :=
    ⟨fun _ => .idle, ⟨sighted_empty, .idle⟩, fun i => (calls i).program_sight⟩
  refine finds_of_present (hinitial.reaches (present_invariant hcall) (fun _ _ _ _ h => h.elim) hreach) ?_
  rw [hcall]
  exact hexists

/-- A write finds the world although a read next to the delete before it does not. -/
theorem write_finds_world_missed :
    let calls : Fin 3 → CacheCall := ![.write [Sample.readEnv], .delete [Sample.readEnv], .read Sample.readEnv]
    ∃ pool, (cacheCalls calls).Reaches (fun _ _ => False) pool ∧ (pool.threads 2).returned = some false ∧
      (pool.threads 0).returned = some true ∧ pool.threads 0 ≠ .done false := by
  intro calls
  let schedule : List (Fin 3) := List.replicate 4 2 ++ List.replicate 11 1 ++ List.replicate 3 2 ++ List.replicate 10 0
  obtain ⟨pool, hreach, hpool⟩ := Pool.reaches_of_schedule (fun _ _ => False) schedule
    (show ((schedule.foldlM Pool.next (cacheCalls calls)).any fun pool =>
      (pool.threads 2).returned = some false ∧ (pool.threads 0).returned = some true) = true by decide +kernel)
  obtain ⟨hmissed, hfound⟩ := of_decide_eq_true hpool
  have hexists : FileExists [Sample.readEnv] := by
    intro env henv
    cases List.mem_singleton.mp henv
    exact ⟨fun _ => ⟨rfl, rfl⟩, fun _ => ⟨rfl, rfl⟩⟩
  exact ⟨pool, hreach, hmissed, hfound, write_finds_world hreach rfl hexists⟩

end Calls

end AuditeDB
