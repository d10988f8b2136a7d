import Mathlib
import AuditeDB.Library.Interleaving

/-!
# The cache of read connections

A read reserves a slot for its world before it opens a connection, and keeps the slot's guard while it opens or
reads. A delete puts a tombstone into the map, drains the slot that was there, and only then removes the files. This
is the part of the cache about one world; reads of other worlds may evict its slot.
-/

namespace AuditeDB

open Interleaving

/-- `SlotState`. -/
inductive SlotState where
  | opening | ready | evicted | tombstone
deriving DecidableEq

/-- A state that has a connection or is about to have one. -/
@[grind =]
def SlotState.live : SlotState → Bool
  | opening | ready => true
  | evicted | tombstone => false

/-- `ReadSlot`: its state, the running calls that hold its `Arc`, and those that hold its guard. -/
structure ReadSlot (ι : Type) where
  state : SlotState
  holders : Finset ι
  readers : Finset ι
  writer : Option ι

/-- Nobody holds the guard. -/
def ReadSlot.Free {ι : Type} (slot : ReadSlot ι) : Prop := slot.readers = ∅ ∧ slot.writer = none

instance {ι : Type} [DecidableEq ι] (slot : ReadSlot ι) : Decidable slot.Free :=
  inferInstanceAs (Decidable (_ ∧ _))

/-- `ReadCache` for one world, with the holder of the lock of the world. The entry of `read_conns` is `conn`. Two fields only
record what happened: `removing` is set while `delete_world_now` runs, and `exposed` once a slot with a connection
was taken out of the map while a running call held it. -/
structure ReadCache (ι : Type) where
  slots : Nat → ReadSlot ι
  next : Nat
  conn : Option Nat
  lock : Option ι
  removing : Bool
  exposed : Bool

namespace ReadCache

variable {ι : Type} [DecidableEq ι]

/-- A cache without slots. -/
def empty : ReadCache ι := ⟨fun _ => ⟨.evicted, ∅, ∅, none⟩, 0, none, none, false, false⟩

/-- Change one slot. -/
def setSlot (cache : ReadCache ι) (id : Nat) (slot : ReadSlot ι) : ReadCache ι :=
  { cache with slots := Function.update cache.slots id slot }

/-- Change the state of one slot. -/
def setState (cache : ReadCache ι) (id : Nat) (state : SlotState) : ReadCache ι :=
  cache.setSlot id { cache.slots id with state := state }

/-- Clone the `Arc` of a slot. -/
def hold (cache : ReadCache ι) (caller : ι) (id : Nat) : ReadCache ι :=
  cache.setSlot id { cache.slots id with holders := insert caller (cache.slots id).holders }

/-- Drop the `Arc` of a slot. -/
def release (cache : ReadCache ι) (caller : ι) (id : Nat) : ReadCache ι :=
  cache.setSlot id { cache.slots id with holders := (cache.slots id).holders.erase caller }

/-- A slot with a connection that a running call holds. -/
def HeldLive (cache : ReadCache ι) (id : Nat) : Prop :=
  (cache.slots id).state.live = true ∧ (cache.slots id).holders.Nonempty

instance (cache : ReadCache ι) (id : Nat) : Decidable (cache.HeldLive id) := inferInstanceAs (Decidable (_ ∧ _))

/-- A connection is alive: its slot is in the map or held by a running call. -/
def Alive (cache : ReadCache ι) (id : Nat) : Prop :=
  (cache.slots id).state = .ready ∧ (cache.conn = some id ∨ (cache.slots id).holders.Nonempty)

/-- `ReadCache::clear_tombstone`, which removes whatever is in the map. -/
def clear (cache : ReadCache ι) : ReadCache ι :=
  { cache with
    conn := none
    exposed := cache.exposed || cache.conn.any fun id => cache.HeldLive id }

/-- `remove_if` with `Arc::ptr_eq`. -/
def removeIf (cache : ReadCache ι) (id : Nat) : ReadCache ι :=
  if cache.conn = some id then { cache with conn := none } else cache

omit [DecidableEq ι] in
/-- The lock is not touched. -/
theorem removeIf_lock (cache : ReadCache ι) (id : Nat) : (cache.removeIf id).lock = cache.lock := by
  unfold removeIf
  split <;> rfl

omit [DecidableEq ι] in
/-- A removal of the files is not touched. -/
theorem removeIf_removing (cache : ReadCache ι) (id : Nat) : (cache.removeIf id).removing = cache.removing := by
  unfold removeIf
  split <;> rfl

/-- A new slot behind its write guard. -/
def newSlot (cache : ReadCache ι) (caller : ι) : ReadCache ι :=
  { cache.setSlot cache.next ⟨.opening, {caller}, ∅, some caller⟩ with next := cache.next + 1 }

/-- The tombstone of a delete. -/
def install (cache : ReadCache ι) : ReadCache ι :=
  { cache.setSlot cache.next ⟨.tombstone, ∅, ∅, none⟩ with next := cache.next + 1, conn := some cache.next }

end ReadCache

/-- `SlotRead`, with the failure of a read. -/
inductive SlotRead where
  | done (found : Bool)
  | opening
  | evicted
  | failed
deriving DecidableEq

/-- What happens outside the cache in each pass of a read: the map is full, another world's slot could be evicted,
the database file is missing, it could be opened, it vanished before that, and the read itself worked. -/
structure ReadEnv where
  capped : Nat → Bool
  evicts : Nat → Bool
  missing : Nat → Bool
  opens : Nat → Bool
  vanished : Nat → Bool
  reads : Nat → Bool

section

variable {ι : Type} [DecidableEq ι] (caller : ι)

/-- A lookup in `read_conns` that clones the `Arc`. -/
def lookupSlot : Prog (ReadCache ι) Unit (Option Nat) :=
  .atomically fun cache => (cache.conn, (cache.conn.map (cache.hold caller)).getD cache)

/-- Drop the `Arc` of a slot. -/
def dropSlot (id : Nat) : Prog (ReadCache ι) Unit PUnit := .modify fun cache => cache.release caller id

/-- `remove_if` with `Arc::ptr_eq`. -/
def removeEntry (id : Nat) : Prog (ReadCache ι) Unit PUnit := .modify fun cache => cache.removeIf id

/-- The read guard of a slot, with the state that it shows. -/
def enterSlot (id : Nat) : Prog (ReadCache ι) Unit SlotState :=
  .step (fun cache => (cache.slots id).writer = none)
    (fun cache => cache.setSlot id { cache.slots id with readers := insert caller (cache.slots id).readers })
    fun cache => .done (cache.slots id).state

/-- The end of a read guard. -/
def leaveSlot (id : Nat) : Prog (ReadCache ι) Unit PUnit :=
  .modify fun cache =>
    cache.setSlot id { cache.slots id with readers := (cache.slots id).readers.erase caller }

/-- `invoke_via_slot`. -/
def invokeViaSlot (reads : Bool) (id : Nat) : Prog (ReadCache ι) Unit SlotRead := do
  let state ← enterSlot caller id
  leaveSlot caller id
  match state with
  | .ready => pure (if reads then .done true else .failed)
  | .tombstone => pure (.done false)
  | .opening => pure .opening
  | .evicted => pure .evicted

/-- A new slot, with its guard. -/
def newSlot : Prog (ReadCache ι) Unit Nat := .atomically fun cache => (cache.next, cache.newSlot caller)

/-- `or_insert_with` of a new slot: the slot in the map, and whether it is the own one. The new slot is dropped when
another one is there. -/
def publishSlot (id : Nat) : Prog (ReadCache ι) Unit (Nat × Bool) :=
  .atomically fun cache =>
    match cache.conn with
    | none => ((id, true), { cache with conn := some id })
    | some other => ((other, false),
        (cache.setSlot id { cache.slots id with holders := ∅, writer := none }).hold caller other)

/-- The end of `OpeningTransition`: the slot gets its final state and the guard is released. -/
def finishOpening (id : Nat) (state : SlotState) : Prog (ReadCache ι) Unit PUnit :=
  .modify fun cache => cache.setSlot id { cache.slots id with state := state, writer := none }

/-- Slot-before-open: a slot to read through, and whether this call opened it. The failure of the open is the
failure of the read, or an absent world. -/
def openSlot (opens vanished : Bool) : Prog (ReadCache ι) Unit (Option (Nat × Bool)) := do
  let id ← newSlot caller
  let (arc, own) ← publishSlot caller id
  if own && !opens then do
    finishOpening id .evicted
    removeEntry id
    dropSlot caller id
    if vanished then pure none else throw ()
  else if own then do
    finishOpening id .ready
    pure (some (arc, own))
  else pure (some (arc, own))

/-- What follows a read through a slot: the answer, or another pass. -/
def afterRead (id : Nat) (again : Prog (ReadCache ι) Unit Bool) : SlotRead → Prog (ReadCache ι) Unit Bool
  | .done found => do
    dropSlot caller id
    pure found
  | .failed => do
    dropSlot caller id
    throw ()
  | .opening => do
    dropSlot caller id
    again
  | .evicted => do
    removeEntry id
    dropSlot caller id
    again

/-- The drain of a transient slot after its read. -/
def drainOwn (id : Nat) : Prog (ReadCache ι) Unit PUnit :=
  .await (fun cache => (cache.slots id).Free) fun cache => cache.setState id .evicted

/-- `invoke_transient`, with the passes that are left. -/
def invokeTransient (env : ReadEnv) : Nat → Prog (ReadCache ι) Unit Bool
  | 0 => throw ()
  | pass + 1 => do
    match ← lookupSlot caller with
    | some id =>
      let read ← invokeViaSlot caller (env.reads pass) id
      afterRead caller id (invokeTransient env pass) read
    | none =>
      match ← openSlot caller (env.opens pass) (env.vanished pass) with
      | none => pure false
      | some (id, own) =>
        match ← invokeViaSlot caller (env.reads pass) id with
        | .done found =>
          if own then do
            drainOwn id
            removeEntry id
          dropSlot caller id
          pure found
        | read => afterRead caller id (invokeTransient env pass) read

/-- `READ_CACHE_RETRY_BUDGET`. -/
def readCacheRetryBudget : Nat := 16

/-- The passes of `with_tracked_conn`; the last resort is a transient read. -/
def trackedPasses (env transient : ReadEnv) : Nat → Prog (ReadCache ι) Unit Bool
  | 0 => invokeTransient caller transient readCacheRetryBudget
  | pass + 1 => do
    match ← lookupSlot caller with
    | some id =>
      let read ← invokeViaSlot caller (env.reads pass) id
      afterRead caller id (trackedPasses env transient pass) read
    | none =>
      if env.capped pass then
        if env.evicts pass then trackedPasses env transient pass
        else invokeTransient caller transient readCacheRetryBudget
      else if env.missing pass then pure false
      else
        match ← openSlot caller (env.opens pass) (env.vanished pass) with
        | none => pure false
        | some (id, _) =>
          let read ← invokeViaSlot caller (env.reads pass) id
          afterRead caller id (trackedPasses env transient pass) read

/-- `with_tracked_conn`. -/
def withTrackedConn (env : ReadEnv × ReadEnv) : Prog (ReadCache ι) Unit Bool :=
  trackedPasses caller env.1 env.2 readCacheRetryBudget

/-- Reads one after the other; the first one that fails or finds nothing ends them. -/
def trackedReads : List (ReadEnv × ReadEnv) → Prog (ReadCache ι) Unit Bool
  | [] => pure true
  | env :: rest => do
    if ← withTrackedConn caller env then trackedReads rest else pure false

/-- The lock of the world around a call. -/
def withCacheLock (body : Prog (ReadCache ι) Unit Bool) : Prog (ReadCache ι) Unit Bool := do
  Prog.await (fun cache => cache.lock.isNone) fun cache => { cache with lock := some caller }
  body.ensuring fun cache => { cache with lock := none }

/-- `clear_tombstone`. -/
def clearTombstone : Prog (ReadCache ι) Unit PUnit := .modify fun cache => cache.clear

/-- What a replace or an append does to the cache: `clear_tombstone`, then the read of its preconditions. -/
def cacheWrite (reads : List (ReadEnv × ReadEnv)) : Prog (ReadCache ι) Unit Bool :=
  withCacheLock caller do
    clearTombstone
    trackedReads caller reads

/-- `install_tombstone_blocking`. -/
def installTombstone : Prog (ReadCache ι) Unit PUnit := do
  let prev ← Prog.atomically fun cache => (cache.conn, cache.install)
  match prev with
  | none => pure ⟨⟩
  | some id => Prog.await (fun cache => (cache.slots id).Free) fun cache => cache.setState id .tombstone

/-- What a delete does to the cache: its reads, the tombstone, the physical removal, `clear_tombstone`. -/
def cacheDelete (reads : List (ReadEnv × ReadEnv)) : Prog (ReadCache ι) Unit Bool :=
  withCacheLock caller do
    if ← trackedReads caller reads then do
      installTombstone
      Prog.modify fun cache => { cache with removing := true }
      Prog.modify fun cache => { cache with removing := false }
      clearTombstone
      pure true
    else pure false

/-- `try_evict_ready_slot` on the slot of the world, by a read of another world. -/
def evictSlot : Prog (ReadCache ι) Unit Bool := do
  match ← lookupSlot caller with
  | none => pure false
  | some id =>
    let evicted ← Prog.atomically fun cache =>
      if (cache.slots id).Free ∧ (cache.slots id).state = .ready then (true, cache.setState id .evicted)
      else (false, cache)
    if evicted then removeEntry id
    dropSlot caller id
    pure evicted

/-- The calls that use the cache entry of a world. -/
inductive CacheCall where
  | read (env : ReadEnv × ReadEnv)
  | write (reads : List (ReadEnv × ReadEnv))
  | delete (reads : List (ReadEnv × ReadEnv))
  | evict

/-- The program of a call. -/
def CacheCall.program : CacheCall → Prog (ReadCache ι) Unit Bool
  | read env => withTrackedConn caller env
  | write reads => cacheWrite caller reads
  | delete reads => cacheDelete caller reads
  | evict => evictSlot caller

end

/-- The calls of one engine on one world. -/
def cacheCalls {n : Nat} (calls : Fin n → CacheCall) : Pool (Fin n) (ReadCache (Fin n)) Unit Bool :=
  ⟨.empty, fun i => (calls i).program i⟩

end AuditeDB
