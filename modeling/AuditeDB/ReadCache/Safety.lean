import Mathlib
import AuditeDB.ReadCache.Machine

/-!
# No read connection survives into a removal

Every slot with a connection is in the map, is being drained by a delete, or is held by nobody, as long as
`clear_tombstone` has not taken one out of the map under a running call. Then no connection is alive while a delete
removes the files.
-/

namespace AuditeDB

open Interleaving

/-- What a call holds of the slots: nothing, an `Arc`, also its read guard and the state it saw, an `Arc` of a slot
that it has seen evicted, or a slot of its own behind the write guard, in front of and after publication. The flag
says that the call has created the slot. -/
inductive Phase where
  | idle
  | holding (id : Nat) (own : Bool)
  | reading (id : Nat) (own : Bool) (seen : SlotState)
  | stale (id : Nat)
  | fresh (id : Nat)
  | opening (id : Nat)
deriving DecidableEq

/-- The slot whose `Arc` a call holds. -/
@[grind =]
def Phase.slot : Phase → Option Nat
  | idle => none
  | holding id _ | reading id _ _ | stale id | fresh id | opening id => some id

/-- A slot that a call holds and that is not the tombstone of a delete. -/
@[grind =]
def Phase.foreign : Phase → Option Nat
  | holding id true | reading id true _ | stale id | fresh id | opening id => some id
  | _ => none

/-- A foreign slot is one that the call holds. -/
@[grind →]
theorem Phase.slot_of_foreign {phase : Phase} {id : Nat} (h : phase.foreign = some id) : phase.slot = some id := by
  unfold Phase.foreign at h
  split at h <;> simp_all [Phase.slot]

/-- How far a delete is with its tombstone. -/
inductive Removal where
  | none
  | draining (prev tomb : Nat)
  | drained (tomb : Nat)
  | removing (tomb : Nat)
deriving DecidableEq

/-- The tombstone that a delete has put into the map. -/
@[grind =]
def Removal.tomb : Removal → Option Nat
  | none => Option.none
  | draining _ tomb | drained tomb | removing tomb => some tomb

/-- The slot that a delete waits for. -/
@[grind =]
def Removal.prev : Removal → Option Nat
  | draining prev _ => some prev
  | _ => Option.none

/-- The delete removes the files. -/
@[grind =]
def Removal.active : Removal → Bool
  | removing _ => true
  | _ => false

/-- The local state of a call. -/
structure CacheLocal where
  locked : Bool
  phase : Phase
  removal : Removal

/-- A call that has not started. -/
def CacheLocal.idle : CacheLocal := ⟨false, .idle, .none⟩

variable {ι : Type} [DecidableEq ι]

/-- The steps of a call. -/
inductive CacheStep (caller : ι) : ReadCache ι → CacheLocal → ReadCache ι → CacheLocal → Prop where
  | quiet {c l} : CacheStep caller c l c l
  | lock {c l} (hfree : c.lock = none) :
      CacheStep caller c l { c with lock := some caller } { l with locked := true }
  | unlock {c l} (hlocked : l.locked = true) (hremoval : l.removal = .none) :
      CacheStep caller c l { c with lock := none } { l with locked := false }
  | lookup {c l} {id : Nat} (hphase : l.phase = .idle) (hconn : c.conn = some id) :
      CacheStep caller c l (c.hold caller id) { l with phase := .holding id false }
  | enter {c l} {id : Nat} {own : Bool} (hphase : l.phase = .holding id own)
      (hguard : (c.slots id).writer = none) :
      CacheStep caller c l
        (c.setSlot id { c.slots id with readers := insert caller (c.slots id).readers })
        { l with phase := .reading id own (c.slots id).state }
  | leave {c l} {id : Nat} {own : Bool} {seen : SlotState} (hphase : l.phase = .reading id own seen) :
      CacheStep caller c l
        (c.setSlot id { c.slots id with readers := (c.slots id).readers.erase caller })
        { l with phase := if seen = .evicted then .stale id else .holding id own }
  | remove {c l} {id : Nat} (hphase : l.phase = .stale id) : CacheStep caller c l (c.removeIf id) l
  | drop {c l} {id : Nat} (hphase : l.phase = .stale id ∨ ∃ own, l.phase = .holding id own) :
      CacheStep caller c l (c.release caller id) { l with phase := .idle }
  | create {c l} (hphase : l.phase = .idle) :
      CacheStep caller c l (c.newSlot caller) { l with phase := .fresh c.next }
  | publish {c l} {id : Nat} (hphase : l.phase = .fresh id) (hconn : c.conn = none) :
      CacheStep caller c l { c with conn := some id } { l with phase := .opening id }
  | join {c l} {id other : Nat} (hphase : l.phase = .fresh id) (hconn : c.conn = some other) :
      CacheStep caller c l
        ((c.setSlot id { c.slots id with holders := ∅, writer := none }).hold caller other)
        { l with phase := .holding other false }
  | finish {c l} {id : Nat} {state : SlotState} (hphase : l.phase = .opening id)
      (hstate : state = .ready ∨ state = .evicted) :
      CacheStep caller c l (c.setSlot id { c.slots id with state := state, writer := none })
        { l with phase := if state = .evicted then .stale id else .holding id true }
  | evict {c l} {id : Nat} {own : Bool} (hphase : l.phase = .holding id own) (hfree : (c.slots id).Free)
      (hstate : own = true ∨ (c.slots id).state = .ready) :
      CacheStep caller c l (c.setState id .evicted) { l with phase := .stale id }
  | clear {c l} (hlocked : l.locked = true) (hremoval : l.removal = .none ∨ ∃ tomb, l.removal = .drained tomb) :
      CacheStep caller c l c.clear { l with removal := .none }
  | install {c l} (hlocked : l.locked = true) (hremoval : l.removal = .none) :
      CacheStep caller c l c.install
        { l with removal := c.conn.elim (.drained c.next) fun prev => .draining prev c.next }
  | drain {c l} {prev tomb : Nat} (hremoval : l.removal = .draining prev tomb) (hfree : (c.slots prev).Free) :
      CacheStep caller c l (c.setState prev .tombstone) { l with removal := .drained tomb }
  | remove_begin {c l} {tomb : Nat} (hremoval : l.removal = .drained tomb) :
      CacheStep caller c l { c with removing := true } { l with removal := .removing tomb }
  | remove_end {c l} {tomb : Nat} (hremoval : l.removal = .removing tomb) :
      CacheStep caller c l { c with removing := false } { l with removal := .drained tomb }

/-- What the slots look like to the running calls and to the delete that holds the lock. A slot with a connection that
a running call holds is in the map or waited for by the delete. -/
@[grind cases eager]
structure SlotInvariant (c : ReadCache ι) (removal : Removal) (phases : ι → Phase) : Prop where
  tomb : ∀ tomb, removal.tomb = some tomb →
    c.conn = some tomb ∧ (c.slots tomb).state = .tombstone ∧ tomb < c.next
  holders : ∀ i id, (phases i).slot = some id ↔ i ∈ (c.slots id).holders
  bounded : ∀ i id, (phases i).slot = some id → id < c.next
  conn : ∀ id, c.conn = some id → id < c.next
  reading : ∀ i id own seen, phases i = .reading id own seen →
    i ∈ (c.slots id).readers ∧ (c.slots id).state = seen ∧ (c.slots id).writer = none
  fresh : ∀ i id, phases i = .fresh id → (c.slots id).writer = some i ∧
    (c.slots id).state = .opening ∧ (c.slots id).holders = {i} ∧ c.conn ≠ some id
  opening : ∀ i id, phases i = .opening id → (c.slots id).writer = some i ∧
    (c.slots id).state = .opening ∧ (c.exposed = false → c.conn = some id ∨ removal.prev = some id)
  stale : ∀ i id, phases i = .stale id → (c.slots id).state.live = false
  foreign : ∀ i id, (phases i).foreign = some id → removal.tomb ≠ some id
  ready : c.exposed = false → ∀ id, (c.slots id).state = .ready → (c.slots id).holders.Nonempty →
    c.conn = some id ∨ removal.prev = some id

section Slots

variable {c : ReadCache ι} {removal : Removal} {phases : ι → Phase} {caller : ι} {id : Nat} {own : Bool}

/-- A call finds the slot of the map. -/
theorem SlotInvariant.lookup (h : SlotInvariant c removal phases) (hphase : phases caller = .idle)
    (hconn : c.conn = some id) :
    SlotInvariant (c.hold caller id) removal (Function.update phases caller (.holding id false)) := by
  constructor <;> simp only [ReadCache.hold, ReadCache.setSlot, Function.update_apply] <;> grind -ring -linarith

/-- A call takes the read guard. No slot is opened meanwhile, so its state stays what the call sees. -/
theorem SlotInvariant.enter (h : SlotInvariant c removal phases) (hphase : phases caller = .holding id own)
    (hguard : (c.slots id).writer = none) :
    SlotInvariant (c.setSlot id { c.slots id with readers := insert caller (c.slots id).readers }) removal
      (Function.update phases caller (.reading id own (c.slots id).state)) := by
  constructor <;> simp only [ReadCache.setSlot, Function.update_apply] <;> cases own <;> grind -ring -linarith

/-- A call releases the read guard. An evicted slot stays evicted. -/
theorem SlotInvariant.leave {seen : SlotState} (h : SlotInvariant c removal phases)
    (hphase : phases caller = .reading id own seen) :
    SlotInvariant (c.setSlot id { c.slots id with readers := (c.slots id).readers.erase caller }) removal
      (Function.update phases caller (if seen = .evicted then .stale id else .holding id own)) := by
  constructor <;> simp only [ReadCache.setSlot, Function.update_apply] <;> cases own <;> grind -ring -linarith

omit [DecidableEq ι] in
/-- A call removes the slot it has seen evicted; this is never the tombstone. -/
theorem SlotInvariant.remove (h : SlotInvariant c removal phases) (hphase : phases caller = .stale id) :
    SlotInvariant (c.removeIf id) removal phases := by
  unfold ReadCache.removeIf
  split
  · constructor <;> grind -ring -linarith
  · exact h

/-- A call drops its slot. -/
theorem SlotInvariant.drop (h : SlotInvariant c removal phases)
    (hphase : phases caller = .stale id ∨ ∃ own, phases caller = .holding id own) :
    SlotInvariant (c.release caller id) removal (Function.update phases caller .idle) := by
  constructor <;> simp only [ReadCache.release, ReadCache.setSlot, Function.update_apply] <;> grind -ring -linarith

/-- A call creates a slot that nobody else knows. -/
theorem SlotInvariant.create (h : SlotInvariant c removal phases) (hphase : phases caller = .idle) :
    SlotInvariant (c.newSlot caller) removal (Function.update phases caller (.fresh c.next)) := by
  constructor <;> simp only [ReadCache.newSlot, ReadCache.setSlot, Function.update_apply] <;> grind -ring -linarith

/-- A call puts its slot into an empty map; no delete has its tombstone there. -/
theorem SlotInvariant.publish (h : SlotInvariant c removal phases) (hphase : phases caller = .fresh id)
    (hconn : c.conn = none) :
    SlotInvariant { c with conn := some id } removal (Function.update phases caller (.opening id)) := by
  constructor <;> simp only [Function.update_apply] <;> grind -ring -linarith

/-- A call drops the slot nobody knows and takes the one in the map. -/
theorem SlotInvariant.join {other : Nat} (h : SlotInvariant c removal phases) (hphase : phases caller = .fresh id)
    (hconn : c.conn = some other) :
    SlotInvariant ((c.setSlot id { c.slots id with holders := ∅, writer := none }).hold caller other) removal
      (Function.update phases caller (.holding other false)) := by
  constructor <;> simp only [ReadCache.hold, ReadCache.setSlot, Function.update_apply] <;> grind -ring -linarith

/-- The slot of a call that opens gets its final state, under the write guard. -/
theorem SlotInvariant.finish {state : SlotState} (h : SlotInvariant c removal phases)
    (hphase : phases caller = .opening id) (hstate : state = .ready ∨ state = .evicted) :
    SlotInvariant (c.setSlot id { c.slots id with state := state, writer := none }) removal
      (Function.update phases caller (if state = .evicted then .stale id else .holding id true)) := by
  constructor <;> simp only [ReadCache.setSlot, Function.update_apply] <;> grind -ring -linarith

/-- A free slot is evicted. A tombstone is not: it belongs to the delete, and is not ready. -/
theorem SlotInvariant.evict (h : SlotInvariant c removal phases) (hphase : phases caller = .holding id own)
    (hfree : (c.slots id).Free) (hstate : own = true ∨ (c.slots id).state = .ready) :
    SlotInvariant (c.setState id .evicted) removal (Function.update phases caller (.stale id)) := by
  obtain ⟨hreaders, hwriter⟩ := hfree
  constructor <;> simp only [ReadCache.setState, ReadCache.setSlot, Function.update_apply] <;> grind -ring -linarith

omit [DecidableEq ι] in
/-- `clear_tombstone` keeps every slot with a connection in sight unless it exposes one. -/
theorem SlotInvariant.clear (h : SlotInvariant c removal phases) (hprev : removal.prev = none) :
    SlotInvariant c.clear .none phases := by
  simp only [ReadCache.clear, ReadCache.HeldLive]
  constructor <;> grind -ring -linarith

omit [DecidableEq ι] in
/-- The tombstone takes the place of the slot in the map, which the delete then waits for. -/
theorem SlotInvariant.install (h : SlotInvariant c .none phases) :
    SlotInvariant c.install (c.conn.elim (.drained c.next) fun prev => .draining prev c.next) phases := by
  simp only [ReadCache.install, ReadCache.setSlot]
  cases hconn : c.conn <;> constructor <;> grind -ring -linarith [Function.update_apply]

omit [DecidableEq ι] in
/-- The slot that the delete waits for loses its connection. -/
theorem SlotInvariant.drain {prev tomb : Nat} (h : SlotInvariant c (.draining prev tomb) phases)
    (hfree : (c.slots prev).Free) : SlotInvariant (c.setState prev .tombstone) (.drained tomb) phases := by
  obtain ⟨hreaders, hwriter⟩ := hfree
  simp only [ReadCache.setState, ReadCache.setSlot]
  constructor <;> grind -ring -linarith [Function.update_apply]

omit [DecidableEq ι] in
/-- The lock, the physical removal and its state do not matter to the slots. -/
theorem SlotInvariant.frame {removal' : Removal} (h : SlotInvariant c removal phases) (lock : Option ι)
    (removing : Bool) (htomb : removal'.tomb = removal.tomb) (hprev : removal'.prev = removal.prev) :
    SlotInvariant { c with lock := lock, removing := removing } removal' phases := by
  constructor <;> grind -ring -linarith

end Slots

/-- The removal of the call that holds the lock. -/
def deleting (c : ReadCache ι) (locals : ι → CacheLocal) : Removal := c.lock.elim .none fun i => (locals i).removal

/-- What holds of the cache in every reachable state. -/
structure CacheInvariant (c : ReadCache ι) (locals : ι → CacheLocal) : Prop where
  lock : ∀ i, (locals i).locked = true ↔ c.lock = some i
  removal : ∀ i, (locals i).removal ≠ .none → c.lock = some i
  removing : c.removing = true → (deleting c locals).active = true
  slots : SlotInvariant c (deleting c locals) fun i => (locals i).phase

section Calls

variable {c c' : ReadCache ι} {locals : ι → CacheLocal} {caller : ι}

omit [DecidableEq ι] in
/-- Only the call with the lock deletes. -/
theorem deleting_of_lock (hlock : c.lock = some caller) : deleting c locals = (locals caller).removal := by
  simp [deleting, hlock]

/-- A step that moves the phase of a call. -/
theorem CacheInvariant.phase_step {phase : Phase} (h : CacheInvariant c locals) (hlock : c'.lock = c.lock)
    (hremoving : c'.removing = c.removing)
    (hslots : SlotInvariant c' (deleting c locals) (Function.update (fun i => (locals i).phase) caller phase)) :
    CacheInvariant c' (Function.update locals caller { locals caller with phase := phase }) := by
  have hlocals : ∀ i, (Function.update locals caller { locals caller with phase := phase } i).locked =
      (locals i).locked ∧ (Function.update locals caller { locals caller with phase := phase } i).removal =
        (locals i).removal ∧ (Function.update locals caller { locals caller with phase := phase } i).phase =
          Function.update (fun i => (locals i).phase) caller phase i := by
    intro i
    by_cases hi : i = caller <;> simp [hi]
  have hdeleting : deleting c' (Function.update locals caller { locals caller with phase := phase }) =
      deleting c locals := by
    simp only [deleting, hlock, (hlocals _).2.1]
  constructor
  · intro i
    rw [(hlocals i).1, hlock, h.lock i]
  · intro i hi
    rw [(hlocals i).2.1] at hi
    rw [hlock]
    exact h.removal i hi
  · rw [hremoving, hdeleting]
    exact h.removing
  · rw [hdeleting]
    simpa only [(hlocals _).2.2] using hslots

/-- A step that moves the removal of the call with the lock. -/
theorem CacheInvariant.removal_step {removal : Removal} (h : CacheInvariant c locals) (hcaller : c.lock = some caller)
    (hlock : c'.lock = c.lock) (hremoving : c'.removing = true → removal.active = true)
    (hslots : SlotInvariant c' removal fun i => (locals i).phase) :
    CacheInvariant c' (Function.update locals caller { locals caller with removal := removal }) := by
  have hlocals : ∀ i, (Function.update locals caller { locals caller with removal := removal } i).locked =
      (locals i).locked ∧ (Function.update locals caller { locals caller with removal := removal } i).phase =
        (locals i).phase := by
    intro i
    by_cases hi : i = caller <;> simp [hi]
  have hdeleting : deleting c' (Function.update locals caller { locals caller with removal := removal }) =
      removal := by
    rw [deleting_of_lock (hlock.trans hcaller), Function.update_self]
  constructor
  · intro i
    rw [(hlocals i).1, hlock, h.lock i]
  · intro i hi
    by_cases hsame : i = caller
    · rw [hsame, hlock, hcaller]
    · rw [Function.update_of_ne hsame] at hi
      rw [hlock]
      exact h.removal i hi
  · rw [hdeleting]
    exact hremoving
  · rw [hdeleting]
    simpa only [(hlocals _).2] using hslots

omit [DecidableEq ι] in
/-- A delete is not removing files unless it says so. -/
theorem CacheInvariant.not_removing (h : CacheInvariant c locals) (hinactive : (deleting c locals).active = false) :
    c.removing ≠ true := by
  intro hremoving
  rw [h.removing hremoving] at hinactive
  cases hinactive

/-- A call takes the free lock. -/
theorem CacheInvariant.lock_step (h : CacheInvariant c locals) (hfree : c.lock = none) :
    CacheInvariant { c with lock := some caller }
      (Function.update locals caller { locals caller with locked := true }) := by
  have hnone : ∀ i, (locals i).removal = .none := by
    intro i
    by_contra hremoval
    rw [h.removal i hremoval] at hfree
    cases hfree
  have hinactive : deleting c locals = .none := by simp [deleting, hfree]
  constructor
  · intro i
    by_cases hi : i = caller
    · simp [hi]
    · have hothers := h.lock i
      rw [hfree] at hothers
      simpa [Function.update_of_ne hi, Ne.symm hi] using hothers
  · intro i hi
    by_cases hsame : i = caller
    · rw [hsame]
    · rw [Function.update_of_ne hsame] at hi
      exact absurd (hnone i) hi
  · intro hremoving
    exact absurd hremoving (h.not_removing (by rw [hinactive]; rfl))
  · have hdeleting : deleting { c with lock := some caller }
        (Function.update locals caller { locals caller with locked := true }) = .none := by
      rw [deleting_of_lock rfl, Function.update_self]
      exact hnone caller
    have hphases : (fun i => (Function.update locals caller { locals caller with locked := true } i).phase) =
        fun i => (locals i).phase := by
      funext i
      by_cases hi : i = caller <;> simp [hi]
    have hslots := h.slots
    rw [hinactive] at hslots
    rw [hdeleting, hphases]
    exact hslots.frame (some caller) c.removing rfl rfl

/-- A call that deletes nothing releases the lock. -/
theorem CacheInvariant.unlock_step (h : CacheInvariant c locals) (hcaller : c.lock = some caller)
    (hremoval : (locals caller).removal = .none) :
    CacheInvariant { c with lock := none }
      (Function.update locals caller { locals caller with locked := false }) := by
  have hinactive : deleting c locals = .none := (deleting_of_lock hcaller).trans hremoval
  constructor
  · intro i
    by_cases hi : i = caller
    · simp [hi]
    · have hothers := h.lock i
      rw [hcaller] at hothers
      simpa [Function.update_of_ne hi, Ne.symm hi] using hothers
  · intro i hi
    by_cases hsame : i = caller
    · rw [hsame, Function.update_self] at hi
      exact absurd hremoval hi
    · rw [Function.update_of_ne hsame] at hi
      have hother := h.removal i hi
      rw [hcaller] at hother
      exact absurd (Option.some.inj hother).symm hsame
  · intro hremoving
    exact absurd hremoving (h.not_removing (by rw [hinactive]; rfl))
  · have hphases : (fun i => (Function.update locals caller { locals caller with locked := false } i).phase) =
        fun i => (locals i).phase := by
      funext i
      by_cases hi : i = caller <;> simp [hi]
    have hslots := h.slots
    rw [hinactive] at hslots
    rw [hphases]
    exact hslots.frame none c.removing rfl rfl

/-- Every step keeps the invariant. -/
theorem CacheInvariant.step {l' : CacheLocal} (h : CacheInvariant c locals)
    (hstep : CacheStep caller c (locals caller) c' l') : CacheInvariant c' (Function.update locals caller l') := by
  have hlock : (locals caller).locked = true → c.lock = some caller := (h.lock caller).mp
  have hdeletes : (locals caller).removal ≠ .none → c.lock = some caller := h.removal caller
  cases hstep with
  | quiet => rwa [Function.update_eq_self]
  | lock hfree => exact h.lock_step hfree
  | unlock hlocked hremoval => exact h.unlock_step (hlock hlocked) hremoval
  | lookup hphase hconn => exact h.phase_step rfl rfl (h.slots.lookup hphase hconn)
  | enter hphase hguard => exact h.phase_step rfl rfl (h.slots.enter hphase hguard)
  | leave hphase => exact h.phase_step rfl rfl (h.slots.leave hphase)
  | remove hphase =>
    have hslots := h.slots.remove hphase
    rw [← Function.update_eq_self caller fun i => (locals i).phase] at hslots
    exact h.phase_step (c.removeIf_lock _) (c.removeIf_removing _) hslots
  | drop hphase => exact h.phase_step rfl rfl (h.slots.drop hphase)
  | create hphase => exact h.phase_step rfl rfl (h.slots.create hphase)
  | publish hphase hconn => exact h.phase_step rfl rfl (h.slots.publish hphase hconn)
  | join hphase hconn => exact h.phase_step rfl rfl (h.slots.join hphase hconn)
  | finish hphase hstate => exact h.phase_step rfl rfl (h.slots.finish hphase hstate)
  | evict hphase hfree hstate => exact h.phase_step rfl rfl (h.slots.evict hphase hfree hstate)
  | clear hlocked hremoval =>
    have hdeleting := @deleting_of_lock ι c locals caller (hlock hlocked)
    have hquiet : (deleting c locals).prev = none ∧ (deleting c locals).active = false := by
      rw [hdeleting]
      rcases hremoval with hnone | ⟨tomb, hdrained⟩
      · rw [hnone]; exact ⟨rfl, rfl⟩
      · rw [hdrained]; exact ⟨rfl, rfl⟩
    exact h.removal_step (hlock hlocked) rfl (fun hremoving => absurd hremoving (h.not_removing hquiet.2))
      (h.slots.clear hquiet.1)
  | install hlocked hremoval =>
    have hslots := h.slots
    have hinactive : (deleting c locals).active = false := by
      rw [deleting_of_lock (hlock hlocked), hremoval]
      rfl
    rw [deleting_of_lock (hlock hlocked), hremoval] at hslots
    exact h.removal_step (hlock hlocked) rfl (fun hremoving => absurd hremoving (h.not_removing hinactive))
      hslots.install
  | drain hremoval hfree =>
    have hcaller := hdeletes (by rw [hremoval]; simp)
    have hslots := h.slots
    have hinactive : (deleting c locals).active = false := by
      rw [deleting_of_lock hcaller, hremoval]
      rfl
    rw [deleting_of_lock hcaller, hremoval] at hslots
    exact h.removal_step hcaller rfl (fun hremoving => absurd hremoving (h.not_removing hinactive))
      (hslots.drain hfree)
  | remove_begin hremoval =>
    have hcaller := hdeletes (by rw [hremoval]; simp)
    have hslots := h.slots
    rw [deleting_of_lock hcaller, hremoval] at hslots
    exact h.removal_step hcaller rfl (fun _ => rfl) (hslots.frame c.lock true rfl rfl)
  | remove_end hremoval =>
    have hcaller := hdeletes (by rw [hremoval]; simp)
    have hslots := h.slots
    rw [deleting_of_lock hcaller, hremoval] at hslots
    exact h.removal_step hcaller rfl nofun (hslots.frame c.lock false rfl rfl)

end Calls

section Programs

variable {α : Type} {caller : ι} {l : CacheLocal} {id : Nat} {own : Bool}

/-- A program takes the steps of a call. -/
abbrev CacheFollows (caller : ι) (program : Prog (ReadCache ι) Unit α) (l : CacheLocal)
    (post : Except Unit α → CacheLocal → Prop) : Prop :=
  Follows (fun _ _ => True) (CacheStep caller) program l post

/-- What a call holds after a read through a slot. -/
def SlotRead.phase (id : Nat) (own : Bool) : SlotRead → Phase
  | .evicted => .stale id
  | _ => .holding id own

/-- A lookup. -/
theorem lookupSlot_follows (hphase : l.phase = .idle) :
    CacheFollows caller (lookupSlot caller) l
      (Returns fun found l' => l' = { l with phase := found.elim .idle fun id => .holding id false }) := by
  refine .atomically fun c _ => ?_
  cases hconn : c.conn with
  | none => exact ⟨l, .quiet, none, rfl, by simp [← hphase]⟩
  | some id => exact ⟨_, .lookup hphase hconn, some id, rfl, rfl⟩

/-- The end of a slot that the call holds. -/
theorem dropSlot_follows (hphase : l.phase = .stale id ∨ ∃ own, l.phase = .holding id own) :
    CacheFollows caller (dropSlot caller id) l (Returns fun _ l' => l' = { l with phase := .idle }) :=
  .modify fun _ _ => ⟨_, .drop hphase, _, rfl, rfl⟩

/-- The end of the entry of a slot that the call has seen evicted. -/
theorem removeEntry_follows (hphase : l.phase = .stale id) :
    CacheFollows caller (removeEntry id) l (Returns fun _ l' => l' = l) :=
  .modify fun _ _ => ⟨_, .remove hphase, _, rfl, rfl⟩

/-- A read through a slot. -/
theorem invokeViaSlot_follows (reads : Bool) (hphase : l.phase = .holding id own) :
    CacheFollows caller (invokeViaSlot caller reads id) l
      (Returns fun read l' => l' = { l with phase := read.phase id own }) := by
  intro c _ henabled
  refine ⟨_, .enter hphase (by simpa using henabled), ?_⟩
  intro c' _ _
  refine ⟨_, .leave rfl, ?_⟩
  cases (c.slots id).state with
  | opening => exact ⟨.opening, rfl, rfl⟩
  | ready => cases reads <;> exact ⟨_, rfl, rfl⟩
  | evicted => exact ⟨.evicted, rfl, rfl⟩
  | tombstone => exact ⟨.done false, rfl, rfl⟩

/-- What follows a read ends as the next pass does. -/
theorem afterRead_follows {again : Prog (ReadCache ι) Unit Bool} (read : SlotRead)
    (hphase : l.phase = .idle) (hagain : CacheFollows caller again l fun _ l' => l' = l) :
    CacheFollows caller (afterRead caller id again read) { l with phase := read.phase id own } fun _ l' => l' = l := by
  have hidle : l = { l with phase := .idle } := by rw [← hphase]
  cases read with
  | done found | failed =>
    refine (dropSlot_follows (.inr ⟨own, rfl⟩)).bind_returns ?_
    rintro _ _ rfl
    exact hidle.symm
  | opening =>
    refine (dropSlot_follows (.inr ⟨own, rfl⟩)).bind_returns ?_
    rintro _ _ rfl
    rwa [← hidle]
  | evicted =>
    refine (removeEntry_follows rfl).bind_returns ?_
    rintro _ _ rfl
    refine (dropSlot_follows (.inl rfl)).bind_returns ?_
    rintro _ _ rfl
    rwa [← hidle]

/-- The publication of a new slot. -/
theorem publishSlot_follows (hphase : l.phase = .fresh id) :
    CacheFollows caller (publishSlot caller id) l (Returns fun (arc, own) l' =>
      arc = id ∧ own = true ∧ l' = { l with phase := .opening id } ∨
        own = false ∧ l' = { l with phase := .holding arc false }) := by
  refine .atomically fun c _ => ?_
  cases hconn : c.conn with
  | none => exact ⟨_, .publish hphase hconn, _, rfl, .inl ⟨rfl, rfl, rfl⟩⟩
  | some other => exact ⟨_, .join hphase hconn, _, rfl, .inr ⟨rfl, rfl⟩⟩

/-- The end of an opening. -/
theorem finishOpening_follows {state : SlotState} (hphase : l.phase = .opening id)
    (hstate : state = .ready ∨ state = .evicted) :
    CacheFollows caller (finishOpening id state) l
      (Returns fun _ l' => l' = { l with phase := if state = .evicted then .stale id else .holding id true }) :=
  .modify fun _ _ => ⟨_, .finish hphase hstate, _, rfl, rfl⟩

/-- What a call holds after slot-before-open. -/
def OpenedSlot (l : CacheLocal) (outcome : Except Unit (Option (Nat × Bool))) (l' : CacheLocal) : Prop :=
  match outcome with
  | .ok (some (id, own)) => l' = { l with phase := .holding id own }
  | _ => l' = l

/-- Slot-before-open. -/
theorem openSlot_follows (opens vanished : Bool) (hphase : l.phase = .idle) :
    CacheFollows caller (openSlot caller opens vanished) l (OpenedSlot l) := by
  have hidle : l = { l with phase := .idle } := by rw [← hphase]
  intro c _ _
  refine ⟨_, .create hphase, (publishSlot_follows rfl).bind_returns ?_⟩
  rintro ⟨arc, own⟩ _ (⟨rfl, rfl, rfl⟩ | ⟨rfl, rfl⟩)
  · cases opens with
    | true =>
      refine (finishOpening_follows rfl (.inl rfl)).bind_returns ?_
      rintro _ _ rfl
      exact rfl
    | false =>
      refine (finishOpening_follows rfl (.inr rfl)).bind_returns ?_
      rintro _ _ rfl
      refine (removeEntry_follows rfl).bind_returns ?_
      rintro _ _ rfl
      refine (dropSlot_follows (.inl rfl)).bind_returns ?_
      rintro _ _ rfl
      cases vanished <;> exact hidle.symm
  · exact rfl

/-- The end of a transient slot. -/
theorem drainOwn_follows (hphase : l.phase = .holding id true) :
    CacheFollows caller (drainOwn id) l (Returns fun _ l' => l' = { l with phase := .stale id }) :=
  .await fun _ _ hfree => ⟨_, .evict hphase (of_decide_eq_true hfree) (.inl rfl), _, rfl, rfl⟩

/-- A transient read leaves nothing held. -/
theorem invokeTransient_follows (env : ReadEnv) (passes : Nat) (hphase : l.phase = .idle) :
    CacheFollows caller (invokeTransient caller env passes) l fun _ l' => l' = l := by
  have hidle : l = { l with phase := .idle } := by rw [← hphase]
  induction passes with
  | zero => exact rfl
  | succ pass ih =>
    refine (lookupSlot_follows hphase).bind_returns ?_
    rintro (_ | id) _ rfl
    · refine (openSlot_follows _ _ rfl).bind ?_ ?_
      · rintro (_ | ⟨id, own⟩) _ hopened
        · exact hopened.trans hidle.symm
        · cases hopened
          refine (invokeViaSlot_follows _ rfl).bind_returns ?_
          rintro read _ rfl
          cases read with
          | done found =>
            cases own with
            | true =>
              refine (drainOwn_follows rfl).bind_returns ?_
              rintro _ _ rfl
              refine (removeEntry_follows rfl).bind_returns ?_
              rintro _ _ rfl
              refine (dropSlot_follows (.inl rfl)).bind_returns ?_
              rintro _ _ rfl
              exact hidle.symm
            | false => exact afterRead_follows (.done found) hphase ih
          | opening | evicted | failed => exact afterRead_follows _ hphase ih
      · rintro _ _ hopened
        exact hopened.trans hidle.symm
    · refine (invokeViaSlot_follows _ rfl).bind_returns ?_
      rintro read _ rfl
      exact afterRead_follows read hphase ih

/-- A tracked read leaves nothing held. -/
theorem trackedPasses_follows (env transient : ReadEnv) (passes : Nat) (hphase : l.phase = .idle) :
    CacheFollows caller (trackedPasses caller env transient passes) l fun _ l' => l' = l := by
  have hidle : l = { l with phase := .idle } := by rw [← hphase]
  have htransient := @invokeTransient_follows _ _ caller l transient readCacheRetryBudget hphase
  induction passes with
  | zero => exact htransient
  | succ pass ih =>
    refine (lookupSlot_follows hphase).bind_returns ?_
    rintro (_ | id) _ rfl
    · simp only [Option.elim_none, ← hidle]
      split
      · split
        · exact ih
        · exact htransient
      · split
        · exact rfl
        · refine (openSlot_follows _ _ hphase).bind ?_ ?_
          · rintro (_ | ⟨id, own⟩) _ hopened
            · exact hopened
            · cases hopened
              refine (invokeViaSlot_follows _ rfl).bind_returns ?_
              rintro read _ rfl
              exact afterRead_follows read hphase ih
          · rintro _ _ hopened
            exact hopened
    · refine (invokeViaSlot_follows _ rfl).bind_returns ?_
      rintro read _ rfl
      exact afterRead_follows read hphase ih

/-- Reads one after the other leave nothing held. -/
theorem trackedReads_follows (reads : List (ReadEnv × ReadEnv)) (hphase : l.phase = .idle) :
    CacheFollows caller (trackedReads caller reads) l fun _ l' => l' = l := by
  induction reads with
  | nil => exact rfl
  | cons env rest ih =>
    refine (trackedPasses_follows env.1 env.2 readCacheRetryBudget hphase).bind ?_ fun _ _ h => h
    rintro found _ rfl
    cases found with
    | true => exact ih
    | false => exact rfl

/-- A call under the lock takes the lock and releases it. -/
theorem withCacheLock_follows {body : Prog (ReadCache ι) Unit Bool}
    (hbody : CacheFollows caller body ⟨true, .idle, .none⟩ fun _ l' => l' = ⟨true, .idle, .none⟩) :
    CacheFollows caller (withCacheLock caller body) .idle fun _ l' => l' = .idle := by
  intro c _ hfree
  refine ⟨_, .lock (Option.isNone_iff_eq_none.mp hfree), hbody.ensuring ?_⟩
  rintro _ _ rfl c' _
  exact ⟨_, .unlock rfl rfl, rfl⟩

/-- The tombstone is installed and the slot before it drained. -/
theorem installTombstone_follows (hlocked : l.locked = true) (hremoval : l.removal = .none) :
    CacheFollows caller installTombstone l
      (Returns fun _ l' => ∃ tomb, l' = { l with removal := .drained tomb }) := by
  have hinstall : CacheFollows caller
      (Prog.atomically fun c : ReadCache ι => (c.conn, c.install)) l (Returns fun prev l' => ∃ tomb,
        l' = { l with removal := prev.elim (.drained tomb) fun prev => .draining prev tomb }) :=
    .atomically fun c _ => ⟨_, .install hlocked hremoval, _, rfl, c.next, rfl⟩
  refine hinstall.bind_returns ?_
  rintro (_ | prev) _ ⟨tomb, rfl⟩
  · exact ⟨_, rfl, tomb, rfl⟩
  · exact .await fun _ _ hfree => ⟨_, .drain rfl (of_decide_eq_true hfree), _, rfl, tomb, rfl⟩

/-- An eviction that may find the slot busy. -/
theorem evictSlot_follows (hphase : l.phase = .idle) :
    CacheFollows caller (evictSlot caller) l fun _ l' => l' = l := by
  have hidle : l = { l with phase := .idle } := by rw [← hphase]
  refine (lookupSlot_follows hphase).bind_returns ?_
  rintro (_ | id) _ rfl
  · exact hidle.symm
  · have htry : CacheFollows caller
        (Prog.atomically fun c : ReadCache ι =>
          if (c.slots id).Free ∧ (c.slots id).state = .ready then (true, c.setState id .evicted) else (false, c))
        { l with phase := .holding id false }
        (Returns fun evicted l' => l' = { l with phase := if evicted then .stale id else .holding id false }) := by
      refine .atomically fun c _ => ?_
      split
      · next hready => exact ⟨_, .evict rfl hready.1 (.inr hready.2), _, rfl, rfl⟩
      · exact ⟨_, .quiet, _, rfl, rfl⟩
    refine htry.bind_returns ?_
    rintro evicted _ rfl
    cases evicted with
    | true =>
      refine (removeEntry_follows rfl).bind_returns ?_
      rintro _ _ rfl
      refine (dropSlot_follows (.inl rfl)).bind_returns ?_
      rintro _ _ rfl
      exact hidle.symm
    | false =>
      refine (dropSlot_follows (.inr ⟨false, rfl⟩)).bind_returns ?_
      rintro _ _ rfl
      exact hidle.symm

/-- The program of every call takes the steps of a call, and leaves nothing held. -/
theorem CacheCall.program_follows (call : CacheCall) :
    CacheFollows caller (call.program caller) .idle fun _ l' => l' = .idle := by
  cases call with
  | read env => exact trackedPasses_follows env.1 env.2 readCacheRetryBudget rfl
  | write reads =>
    refine withCacheLock_follows ?_
    intro c _ _
    exact ⟨_, .clear rfl (.inl rfl), trackedReads_follows reads rfl⟩
  | delete reads =>
    refine withCacheLock_follows ?_
    refine (trackedReads_follows reads rfl).bind ?_ fun _ _ h => h
    rintro found _ rfl
    cases found with
    | false => exact rfl
    | true =>
      refine (installTombstone_follows rfl rfl).bind_returns ?_
      rintro _ _ ⟨tomb, rfl⟩ c _ _
      refine ⟨_, .remove_begin rfl, fun c' _ _ => ⟨_, .remove_end rfl, fun c'' _ _ => ?_⟩⟩
      exact ⟨_, .clear rfl (.inr ⟨tomb, rfl⟩), rfl⟩
  | evict => exact evictSlot_follows rfl

end Programs

omit [DecidableEq ι] in
/-- While a delete removes the files, the map has its tombstone and no call holds a connection. -/
theorem CacheInvariant.not_alive {c : ReadCache ι} {locals : ι → CacheLocal} (h : CacheInvariant c locals)
    (hexposed : c.exposed = false) (hremoving : c.removing = true) (id : Nat) : ¬ c.Alive id := by
  rintro ⟨hready, halive⟩
  obtain ⟨tomb, hdeleting⟩ : ∃ tomb, deleting c locals = .removing tomb := by
    have hactive := h.removing hremoving
    cases hremoval : deleting c locals <;> simp_all [Removal.active]
  have hslots := h.slots
  rw [hdeleting] at hslots
  obtain ⟨hconn, htomb, -⟩ := hslots.tomb tomb rfl
  have hmap : c.conn ≠ some id := by
    rintro hmap
    rw [Option.some.inj (hconn.symm.trans hmap), hready] at htomb
    cases htomb
  rcases halive with hfound | hheld
  · exact hmap hfound
  · rcases hslots.ready hexposed id hready hheld with hfound | hprev
    · exact hmap hfound
    · cases hprev

omit [DecidableEq ι] in
/-- The empty cache satisfies the invariant. -/
theorem cacheInvariant_empty : CacheInvariant (.empty : ReadCache ι) fun _ => .idle := by
  constructor
  · simp [CacheLocal.idle, ReadCache.empty]
  · simp [CacheLocal.idle]
  · simp [ReadCache.empty]
  · constructor <;> simp [CacheLocal.idle, ReadCache.empty, deleting, Removal.tomb, Phase.slot, Phase.foreign]

/-- No connection of a world is alive while a delete removes its files, in every run where `clear_tombstone` takes
no slot with a connection out of the map that a running call holds. -/
theorem removal_without_connections {n : Nat} {calls : Fin n → CacheCall}
    {pool : Pool (Fin n) (ReadCache (Fin n)) Unit Bool} (hreach : (cacheCalls calls).Reaches (fun _ _ => False) pool)
    (hexposed : pool.shared.exposed = false) (hremoving : pool.shared.removing = true) (id : Nat) :
    ¬ pool.shared.Alive id := by
  have hinvariant : ProtocolInvariant (fun _ _ _ => True) CacheStep
      fun (c : ReadCache (Fin n)) locals => CacheInvariant c locals :=
    ⟨fun _ _ _ _ => trivial, fun _ _ _ _ _ h hstep => h.step hstep⟩
  have hstart : (cacheCalls calls).Invariant (fun _ _ _ => True) CacheStep CacheInvariant
      fun _ _ l' => l' = .idle :=
    ⟨fun _ => .idle, cacheInvariant_empty, fun i => (calls i).program_follows⟩
  obtain ⟨locals, hinv, -⟩ := hstart.reaches hinvariant (fun _ _ _ _ h => h.elim) hreach
  exact hinv.not_alive hexposed hremoving id

/-- What happens outside the cache when nothing fails and the cache is not full. -/
def Sample.readEnv : ReadEnv × ReadEnv :=
  let env : ReadEnv := ⟨fun _ => false, fun _ => false, fun _ => false, fun _ => true, fun _ => false, fun _ => true⟩
  (env, env)

/-- A delete waits for the reader that has opened the slot of the map. -/
theorem removal_without_connections_drained :
    let calls : Fin 2 → CacheCall := ![.read Sample.readEnv, .delete [Sample.readEnv]]
    ∃ pool, (cacheCalls calls).Reaches (fun _ _ => False) pool ∧ pool.shared.exposed = false ∧
      pool.shared.removing = true ∧ ∀ id, ¬ pool.shared.Alive id := by
  intro calls
  obtain ⟨pool, hreach, hpool⟩ := Pool.reaches_of_schedule (fun _ _ => False) [0, 0, 0, 0, 0, 1, 1, 1, 1, 1, 1, 0, 1, 1]
    (show (([0, 0, 0, 0, 0, 1, 1, 1, 1, 1, 1, 0, 1, 1].foldlM Pool.next (cacheCalls calls)).any fun pool =>
      pool.shared.exposed = false ∧ pool.shared.removing = true) = true by decide +kernel)
  obtain ⟨hexposed, hremoving⟩ := of_decide_eq_true hpool
  exact ⟨pool, hreach, hexposed, hremoving, removal_without_connections hreach hexposed hremoving⟩

/-- A reader keeps the slot that a writer has taken out of the map, so the delete does not wait for it. -/
theorem removal_with_connection :
    let calls : Fin 3 → CacheCall := ![.read Sample.readEnv, .write [], .delete [Sample.readEnv]]
    ∃ pool, (cacheCalls calls).Reaches (fun _ _ => False) pool ∧ pool.shared.removing = true ∧
      pool.shared.Alive 0 := by
  intro calls
  obtain ⟨pool, hreach, hpool⟩ := Pool.reaches_of_schedule (fun _ _ => False)
    [0, 0, 0, 0, 0, 1, 1, 1, 2, 2, 2, 2, 2, 2, 2, 2, 2, 2, 2]
    (show (([0, 0, 0, 0, 0, 1, 1, 1, 2, 2, 2, 2, 2, 2, 2, 2, 2, 2, 2].foldlM Pool.next (cacheCalls calls)).any
      fun pool => pool.shared.removing = true ∧ (pool.shared.slots 0).state = .ready ∧
        (pool.shared.slots 0).holders.Nonempty) = true by decide +kernel)
  obtain ⟨hremoving, hready, hheld⟩ := of_decide_eq_true hpool
  exact ⟨pool, hreach, hremoving, hready, .inr hheld⟩

end AuditeDB
