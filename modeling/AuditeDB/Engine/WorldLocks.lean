import Mathlib
import AuditeDB.Types
import AuditeDB.Library.Interleaving

/-!
# One live lock for each world

The table of world locks has weak references only. A mutex lives as long as a call has a handle of it or its guard,
and the entries of dead mutexes are swept away while other calls look theirs up. An operation on one key of the table
is one step, and the mutex excludes other owners; everything else interleaves.
-/

namespace AuditeDB

open Interleaving

/-- A mutex of the table: the world it was made for, the calls with a strong reference of it, and the call with its
guard. -/
structure WorldMutex (ι : Type) where
  world : Option ValidatedWorldPath
  handles : Finset ι
  owner : Option ι

/-- `strong_count`. -/
def WorldMutex.strongCount {ι : Type} (lock : WorldMutex ι) : Nat := lock.handles.card

/-- The mutexes that were ever made, the weak references in `world_locks` and `world_lock_sweep_tick`. -/
structure LockTable (ι : Type) where
  mutexes : Nat → WorldMutex ι
  next : Nat
  worldLocks : AList fun _ : ValidatedWorldPath => Nat
  sweepTick : Nat

/-- `WORLD_LOCK_SWEEP_INTERVAL`. -/
def worldLockSweepInterval : Nat := 256

namespace LockTable

variable {ι : Type} [DecidableEq ι]

/-- A table without locks. -/
def empty : LockTable ι := ⟨fun _ => ⟨none, ∅, none⟩, 0, ∅, 0⟩

/-- Change one mutex. -/
def setMutex (table : LockTable ι) (id : Nat) (lock : WorldMutex ι) : LockTable ι :=
  { table with mutexes := Function.update table.mutexes id lock }

/-- A successful `upgrade`: one more strong reference. -/
def addHandle (table : LockTable ι) (caller : ι) (id : Nat) : LockTable ι :=
  table.setMutex id { table.mutexes id with handles := insert caller (table.mutexes id).handles }

/-- A strong reference is dropped. -/
def dropHandle (table : LockTable ι) (caller : ι) (id : Nat) : LockTable ι :=
  table.setMutex id { table.mutexes id with handles := (table.mutexes id).handles.erase caller }

/-- The mutex gets or loses its owner. -/
def setOwner (table : LockTable ι) (id : Nat) (owner : Option ι) : LockTable ι :=
  table.setMutex id { table.mutexes id with owner := owner }

/-- A new mutex whose weak reference is put into the table. -/
def newLock (table : LockTable ι) (caller : ι) (world : ValidatedWorldPath) : LockTable ι :=
  { table.setMutex table.next ⟨some world, {caller}, none⟩ with
    next := table.next + 1
    worldLocks := table.worldLocks.insert world table.next }

/-- What `world_lock_handle` does under the entry of the world: an entry that can be upgraded is used, any other is
replaced. -/
def entry (caller : ι) (world : ValidatedWorldPath) (table : LockTable ι) : Nat × LockTable ι :=
  match table.worldLocks.lookup world with
  | some id =>
    if (table.mutexes id).strongCount ≠ 0 then (id, table.addHandle caller id)
    else (table.next, table.newLock caller world)
  | none => (table.next, table.newLock caller world)

/-- `retain` at one key. -/
def retain (world : ValidatedWorldPath) (table : LockTable ι) : LockTable ι :=
  match table.worldLocks.lookup world with
  | some id =>
    if (table.mutexes id).strongCount ≠ 0 then table
    else { table with worldLocks := table.worldLocks.erase world }
  | none => table

/-- A mutex with a strong reference. -/
def Live (table : LockTable ι) (id : Nat) : Prop := (table.mutexes id).strongCount ≠ 0

end LockTable

section

variable {ι : Type} [DecidableEq ι] (caller : ι)

/-- `prune_expired_world_locks`: a sweep over the keys, in the order of the map. -/
def pruneExpiredWorldLocks : List ValidatedWorldPath → Prog (LockTable ι) Empty PUnit
  | [] => pure ⟨⟩
  | world :: rest => do
    Prog.modify (LockTable.retain world)
    pruneExpiredWorldLocks rest

/-- `maybe_prune_world_locks`, with the keys that a sweep would visit. -/
def maybePruneWorldLocks (visited : List ValidatedWorldPath) : Prog (LockTable ι) Empty PUnit := do
  let tick ← Prog.atomically fun table =>
    (table.sweepTick, { table with sweepTick := (table.sweepTick + 1) % (usizeMax + 1) })
  if tick % worldLockSweepInterval = worldLockSweepInterval - 1 then pruneExpiredWorldLocks visited else pure ⟨⟩

/-- `world_lock_handle`. -/
def worldLockHandle (visited : List ValidatedWorldPath) (world : ValidatedWorldPath) :
    Prog (LockTable ι) Empty Nat := do
  maybePruneWorldLocks visited
  Prog.atomically (LockTable.entry caller world)

/-- `lock_owned`, which moves the handle into the guard. -/
def lockOwned (id : Nat) : Prog (LockTable ι) Empty PUnit :=
  .await (fun table => (table.mutexes id).owner.isNone) fun table => table.setOwner id (some caller)

/-- `acquire_world_lock`. -/
def acquireWorldLock (visited : List ValidatedWorldPath) (world : ValidatedWorldPath) :
    Prog (LockTable ι) Empty Nat := do
  let lock ← worldLockHandle caller visited world
  lockOwned caller lock
  pure lock

/-- The end of a handle that never became a guard. -/
def dropLockHandle (id : Nat) : Prog (LockTable ι) Empty PUnit := .modify fun table => table.dropHandle caller id

/-- The end of a guard: the mutex is released, then its strong reference is dropped. -/
def dropLockGuard (id : Nat) : Prog (LockTable ι) Empty PUnit := do
  Prog.modify fun table => table.setOwner id none
  dropLockHandle caller id

/-- The calls on the table: a lock that is acquired and released, one whose future is dropped while it waits, and a
sweep. -/
inductive LockCall where
  | acquire (world : ValidatedWorldPath) (visited : List ValidatedWorldPath)
  | abandon (world : ValidatedWorldPath) (visited : List ValidatedWorldPath)
  | sweep (visited : List ValidatedWorldPath)

/-- The program of a call. -/
def LockCall.program : LockCall → Prog (LockTable ι) Empty PUnit
  | acquire world visited => do
    let lock ← acquireWorldLock caller visited world
    dropLockGuard caller lock
  | abandon world visited => do
    let lock ← worldLockHandle caller visited world
    dropLockHandle caller lock
  | sweep visited => pruneExpiredWorldLocks visited

end

/-- Any number of calls on one table. -/
def lockCalls {ι : Type} [DecidableEq ι] (calls : ι → LockCall) : Pool ι (LockTable ι) Empty PUnit :=
  ⟨.empty, fun i => (calls i).program i⟩

/-- What a call has of the mutexes. -/
inductive LockLocal where
  | idle
  | handle (id : Nat)
  | guard (id : Nat)

/-- The mutex that a call has a strong reference of. -/
def LockLocal.mutex : LockLocal → Option Nat
  | idle => none
  | handle id | guard id => some id

/-- The mutex that a call owns. -/
def LockLocal.owned : LockLocal → Option Nat
  | guard id => some id
  | _ => none

/-- A call has a strong reference of the mutex it owns. -/
theorem LockLocal.mutex_of_owned {l : LockLocal} {id : Nat} (h : l.owned = some id) : l.mutex = some id := by
  cases l with
  | idle | handle => cases h
  | guard => exact h

variable {ι : Type} [DecidableEq ι]

/-- The steps of a call. -/
inductive TableStep (caller : ι) : LockTable ι → LockLocal → LockTable ι → LockLocal → Prop where
  | tick {t l} (tick : Nat) : TableStep caller t l { t with sweepTick := tick } l
  | retain {t l} (world : ValidatedWorldPath) : TableStep caller t l (t.retain world) l
  | reuse {t} {world : ValidatedWorldPath} {id : Nat} (hentry : t.worldLocks.lookup world = some id)
      (hlive : t.Live id) : TableStep caller t .idle (t.addHandle caller id) (.handle id)
  | create {t} {world : ValidatedWorldPath} (hdead : ∀ id, t.worldLocks.lookup world = some id → ¬ t.Live id) :
      TableStep caller t .idle (t.newLock caller world) (.handle t.next)
  | lock {t} {id : Nat} (hfree : (t.mutexes id).owner = none) :
      TableStep caller t (.handle id) (t.setOwner id (some caller)) (.guard id)
  | unlock {t} {id : Nat} : TableStep caller t (.guard id) (t.setOwner id none) (.handle id)
  | drop {t} {id : Nat} : TableStep caller t (.handle id) (t.dropHandle caller id) .idle

/-- A live mutex is the one that the table names for its world, and the references and guards are those of the
calls. -/
structure LockInvariant (t : LockTable ι) (locals : ι → LockLocal) : Prop where
  entry : ∀ world id, t.worldLocks.lookup world = some id → id < t.next ∧ (t.mutexes id).world = some world
  live : ∀ id, t.Live id → ∃ world, (t.mutexes id).world = some world ∧ t.worldLocks.lookup world = some id
  handle : ∀ i id, i ∈ (t.mutexes id).handles ↔ (locals i).mutex = some id
  owner : ∀ i id, (t.mutexes id).owner = some i ↔ (locals i).owned = some id

namespace LockTable

variable {t : LockTable ι} {world other : ValidatedWorldPath} {id : Nat} {caller : ι}

omit [DecidableEq ι] in
/-- A mutex is live when a call has a strong reference of it. -/
theorem live_iff : t.Live id ↔ (t.mutexes id).handles.Nonempty := Finset.card_ne_zero

omit [DecidableEq ι] in
/-- A sweep changes no mutex. -/
theorem retain_mutexes : (t.retain world).mutexes = t.mutexes ∧ (t.retain world).next = t.next := by
  unfold retain
  split
  · split_ifs <;> exact ⟨rfl, rfl⟩
  · exact ⟨rfl, rfl⟩

omit [DecidableEq ι] in
/-- A sweep keeps the other entries, and those of live mutexes. -/
theorem lookup_retain : (t.retain world).worldLocks.lookup other = some id ↔
    t.worldLocks.lookup other = some id ∧ (other = world → t.Live id) := by
  unfold retain
  split
  · next found hfound =>
    split_ifs with hlive
    · refine ⟨fun hother => ⟨hother, fun heq => ?_⟩, fun hother => hother.1⟩
      subst heq
      obtain rfl := Option.some.inj (hfound.symm.trans hother)
      exact hlive
    · by_cases heq : other = world
      · subst heq
        rw [AList.lookup_erase]
        refine ⟨fun hother => (by cases hother), fun hother => ?_⟩
        obtain rfl := Option.some.inj (hfound.symm.trans hother.1)
        exact absurd (hother.2 rfl) hlive
      · simp [AList.lookup_erase_ne heq, heq]
  · next hnone =>
    refine ⟨fun hother => ⟨hother, fun heq => ?_⟩, fun hother => hother.1⟩
    subst heq
    rw [hnone] at hother
    cases hother

end LockTable

section

variable {t t' : LockTable ι} {locals : ι → LockLocal} {caller : ι} {world : ValidatedWorldPath} {id : Nat}

omit [DecidableEq ι] in
/-- A sweep at one key. -/
theorem LockInvariant.retain (h : LockInvariant t locals) : LockInvariant (t.retain world) locals := by
  obtain ⟨hmutexes, hnext⟩ : (t.retain world).mutexes = t.mutexes ∧ (t.retain world).next = t.next :=
    LockTable.retain_mutexes ..
  constructor
  · intro other found hfound
    rw [hmutexes, hnext]
    exact h.entry other found (LockTable.lookup_retain.mp hfound).1
  · intro found hlive
    have hlive : t.Live found := by rwa [LockTable.Live, hmutexes] at hlive
    obtain ⟨other, hworld, hentry⟩ := h.live found hlive
    rw [hmutexes]
    exact ⟨other, hworld, LockTable.lookup_retain.mpr ⟨hentry, fun _ => hlive⟩⟩
  · rw [hmutexes]
    exact h.handle
  · rw [hmutexes]
    exact h.owner

/-- A step that changes one mutex and what one call has of it. -/
theorem LockInvariant.setMutex {lock : WorldMutex ι} {l : LockLocal} (h : LockInvariant t locals)
    (hworld : lock.world = (t.mutexes id).world) (hlive : lock.strongCount ≠ 0 → t.Live id)
    (hhandle : ∀ i, i ∈ lock.handles ↔ (Function.update locals caller l i).mutex = some id)
    (howner : ∀ i, lock.owner = some i ↔ (Function.update locals caller l i).owned = some id)
    (hmutex : ∀ other ≠ id, l.mutex = some other ↔ (locals caller).mutex = some other)
    (howned : ∀ other ≠ id, l.owned = some other ↔ (locals caller).owned = some other) :
    LockInvariant (t.setMutex id lock) (Function.update locals caller l) := by
  have hself : (t.setMutex id lock).mutexes id = lock := Function.update_self ..
  have hother : ∀ other ≠ id, (t.setMutex id lock).mutexes other = t.mutexes other :=
    fun other hne => Function.update_of_ne hne ..
  have hworlds : ∀ other, ((t.setMutex id lock).mutexes other).world = (t.mutexes other).world := by
    intro other
    by_cases heq : other = id
    · rw [heq, hself, hworld]
    · rw [hother other heq]
  constructor
  · intro other found hfound
    rw [hworlds]
    exact h.entry other found hfound
  · intro found hfound
    rw [hworlds]
    refine h.live found ?_
    by_cases heq : found = id
    · rw [heq, LockTable.Live, hself] at hfound
      exact heq ▸ hlive hfound
    · rwa [LockTable.Live, hother found heq] at hfound
  · intro i found
    by_cases heq : found = id
    · rw [heq, hself]
      exact hhandle i
    · rw [hother found heq, h.handle]
      by_cases hi : i = caller
      · rw [hi, Function.update_self]
        exact (hmutex found heq).symm
      · rw [Function.update_of_ne hi]
  · intro i found
    by_cases heq : found = id
    · rw [heq, hself]
      exact howner i
    · rw [hother found heq, h.owner]
      by_cases hi : i = caller
      · rw [hi, Function.update_self]
        exact (howned found heq).symm
      · rw [Function.update_of_ne hi]

/-- A call gets one more reference of a live mutex. -/
theorem LockInvariant.reuse (h : LockInvariant t locals) (hidle : locals caller = .idle) (hlive : t.Live id) :
    LockInvariant (t.addHandle caller id) (Function.update locals caller (.handle id)) := by
  refine h.setMutex rfl (fun _ => hlive) (fun i => ?_) (fun i => ?_) (fun other hne => ?_) fun other hne => ?_
  · by_cases hi : i = caller
    · simp [hi, LockLocal.mutex]
    · simp [hi, h.handle i id]
  · rw [h.owner i id]
    by_cases hi : i = caller
    · simp [hi, hidle, LockLocal.owned]
    · rw [Function.update_of_ne hi]
  · simp [hidle, LockLocal.mutex, hne.symm]
  · simp [hidle, LockLocal.owned]

/-- A call makes a mutex for a world that has no live one. -/
theorem LockInvariant.create (h : LockInvariant t locals) (hidle : locals caller = .idle)
    (hdead : ∀ id, t.worldLocks.lookup world = some id → ¬ t.Live id) :
    LockInvariant (t.newLock caller world) (Function.update locals caller (.handle t.next)) := by
  have hfresh : ∀ i, (locals i).mutex ≠ some t.next := by
    intro i hi
    have hlive := LockTable.live_iff.mpr ⟨i, (h.handle i t.next).mpr hi⟩
    obtain ⟨other, -, hentry⟩ := h.live t.next hlive
    exact (h.entry other t.next hentry).1.false
  have hself : (t.newLock caller world).mutexes t.next = ⟨some world, {caller}, none⟩ := Function.update_self ..
  have hother : ∀ other ≠ t.next, (t.newLock caller world).mutexes other = t.mutexes other :=
    fun other hne => Function.update_of_ne hne ..
  constructor
  · intro other found hfound
    by_cases heq : other = world
    · subst heq
      obtain rfl := Option.some.inj ((AList.lookup_insert _).symm.trans hfound)
      rw [hself]
      exact ⟨Nat.lt_succ_self _, rfl⟩
    · obtain ⟨hbound, hworld⟩ := h.entry other found ((AList.lookup_insert_ne heq).symm.trans hfound)
      rw [hother found hbound.ne]
      exact ⟨Nat.lt_succ_of_lt hbound, hworld⟩
  · intro found hfound
    by_cases heq : found = t.next
    · rw [heq, hself]
      exact ⟨world, rfl, AList.lookup_insert _⟩
    · rw [LockTable.Live, hother found heq] at hfound
      obtain ⟨other, hworld, hentry⟩ := h.live found hfound
      rw [hother found heq]
      refine ⟨other, hworld, (AList.lookup_insert_ne fun hsame => ?_).trans hentry⟩
      exact hdead found (hsame ▸ hentry) hfound
  · intro i found
    by_cases hi : i = caller
    · subst hi
      rw [Function.update_self]
      by_cases heq : found = t.next
      · simp [heq, hself, LockLocal.mutex]
      · simp [hother found heq, h.handle, hidle, LockLocal.mutex, Ne.symm heq]
    · rw [Function.update_of_ne hi]
      by_cases heq : found = t.next
      · simp [heq, hself, hi, hfresh i]
      · rw [hother found heq, h.handle]
  · intro i found
    by_cases hi : i = caller
    · subst hi
      rw [Function.update_self]
      by_cases heq : found = t.next
      · simp [heq, hself, LockLocal.owned]
      · simp [hother found heq, h.owner, hidle, LockLocal.owned]
    · rw [Function.update_of_ne hi]
      by_cases heq : found = t.next
      · simpa [heq, hself] using fun howned => hfresh i (LockLocal.mutex_of_owned howned)
      · rw [hother found heq, h.owner]

/-- A call with a handle gets the guard of a free mutex. -/
theorem LockInvariant.lock (h : LockInvariant t locals) (hhandle : locals caller = .handle id)
    (hfree : (t.mutexes id).owner = none) :
    LockInvariant (t.setOwner id (some caller)) (Function.update locals caller (.guard id)) := by
  refine h.setMutex rfl (fun hlive => hlive) (fun i => ?_) (fun i => ?_) (fun other hne => ?_) fun other hne => ?_
  · rw [h.handle i id]
    by_cases hi : i = caller
    · simp [hi, hhandle, LockLocal.mutex]
    · rw [Function.update_of_ne hi]
  · by_cases hi : i = caller
    · simp [hi, LockLocal.owned]
    · have hnone := h.owner i id
      rw [hfree] at hnone
      simpa [Function.update_of_ne hi, Ne.symm hi] using hnone
  · simp [hhandle, LockLocal.mutex]
  · simp [hhandle, LockLocal.owned, hne.symm]

/-- The owner of a mutex releases it and keeps its handle. -/
theorem LockInvariant.unlock (h : LockInvariant t locals) (hguard : locals caller = .guard id) :
    LockInvariant (t.setOwner id none) (Function.update locals caller (.handle id)) := by
  have howner : (t.mutexes id).owner = some caller := (h.owner caller id).mpr (by rw [hguard]; rfl)
  refine h.setMutex rfl (fun hlive => hlive) (fun i => ?_) (fun i => ?_) (fun other hne => ?_) fun other hne => ?_
  · rw [h.handle i id]
    by_cases hi : i = caller
    · simp [hi, hguard, LockLocal.mutex]
    · rw [Function.update_of_ne hi]
  · by_cases hi : i = caller
    · simp [hi, LockLocal.owned]
    · have hother := h.owner i id
      rw [howner] at hother
      simpa [Function.update_of_ne hi, Ne.symm hi] using hother
  · simp [hguard, LockLocal.mutex]
  · simp [hguard, LockLocal.owned, hne.symm]

/-- A call drops its handle. -/
theorem LockInvariant.drop (h : LockInvariant t locals) (hhandle : locals caller = .handle id) :
    LockInvariant (t.dropHandle caller id) (Function.update locals caller .idle) := by
  refine h.setMutex rfl (fun hlive => ?_) (fun i => ?_) (fun i => ?_) (fun other hne => ?_) fun other hne => ?_
  · obtain ⟨i, hi⟩ := Finset.card_ne_zero.mp hlive
    exact LockTable.live_iff.mpr ⟨i, Finset.mem_of_mem_erase hi⟩
  · by_cases hi : i = caller
    · simp [hi, LockLocal.mutex]
    · simp [hi, h.handle i id]
  · rw [h.owner i id]
    by_cases hi : i = caller
    · simp [hi, hhandle, LockLocal.owned]
    · rw [Function.update_of_ne hi]
  · simp [hhandle, LockLocal.mutex, hne.symm]
  · simp [hhandle, LockLocal.owned]

/-- Every step keeps the invariant. -/
theorem LockInvariant.step {l : LockLocal} (h : LockInvariant t locals)
    (hstep : TableStep caller t (locals caller) t' l) : LockInvariant t' (Function.update locals caller l) := by
  generalize hlocal : locals caller = before at hstep
  cases hstep with
  | tick tick =>
    rw [← hlocal, Function.update_eq_self]
    exact ⟨h.entry, h.live, h.handle, h.owner⟩
  | retain world =>
    rw [← hlocal, Function.update_eq_self]
    exact h.retain
  | reuse hentry hlive => exact h.reuse hlocal hlive
  | create hdead => exact h.create hlocal hdead
  | lock hfree => exact h.lock hlocal hfree
  | unlock => exact h.unlock hlocal
  | drop => exact h.drop hlocal

omit [DecidableEq ι] in
/-- Two live mutexes of one world are the same mutex. -/
theorem LockInvariant.live_unique {a b : Nat} (h : LockInvariant t locals) (ha : t.Live a) (hb : t.Live b)
    (hworld : (t.mutexes a).world = (t.mutexes b).world) : a = b := by
  obtain ⟨world, haworld, haentry⟩ := h.live a ha
  obtain ⟨other, hbworld, hbentry⟩ := h.live b hb
  obtain rfl : world = other := Option.some.inj (haworld.symm.trans (hworld.trans hbworld))
  exact Option.some.inj (haentry.symm.trans hbentry)

omit [DecidableEq ι] in
/-- The mutex of a guard is live. -/
theorem LockInvariant.live_of_owner {i : ι} (h : LockInvariant t locals) (howner : (t.mutexes id).owner = some i) :
    t.Live id :=
  LockTable.live_iff.mpr ⟨i, (h.handle i id).mpr (LockLocal.mutex_of_owned ((h.owner i id).mp howner))⟩

end

section

variable {α : Type} {caller : ι} {l : LockLocal}

/-- A program takes the steps of a call. -/
abbrev LockFollows (caller : ι) (program : Prog (LockTable ι) Empty α) (l : LockLocal)
    (post : Except Empty α → LockLocal → Prop) : Prop :=
  Follows (fun _ _ => True) (TableStep caller) program l post

/-- A sweep leaves the call with what it has. -/
theorem pruneExpiredWorldLocks_follows (visited : List ValidatedWorldPath) :
    LockFollows caller (pruneExpiredWorldLocks visited) l (Returns fun _ l' => l' = l) := by
  induction visited with
  | nil => exact ⟨_, rfl, rfl⟩
  | cons world rest ih =>
    intro t _ _
    exact ⟨l, .retain world, ih⟩

/-- A sweep that may not be due. -/
theorem maybePruneWorldLocks_follows (visited : List ValidatedWorldPath) :
    LockFollows caller (maybePruneWorldLocks visited) l (Returns fun _ l' => l' = l) := by
  intro t _ _
  refine ⟨l, .tick _, ?_⟩
  change LockFollows caller
    (if t.sweepTick % worldLockSweepInterval = worldLockSweepInterval - 1 then pruneExpiredWorldLocks visited
      else pure ⟨⟩) l _
  split
  · exact pruneExpiredWorldLocks_follows visited
  · exact ⟨_, rfl, rfl⟩

/-- The entry of a world gives a handle. -/
theorem worldLockHandle_follows (visited : List ValidatedWorldPath) (world : ValidatedWorldPath) :
    LockFollows caller (worldLockHandle caller visited world) .idle (Returns fun id l' => l' = .handle id) := by
  refine (maybePruneWorldLocks_follows visited).bind_returns ?_
  rintro _ _ rfl
  refine .atomically fun t _ => ?_
  unfold LockTable.entry
  split
  · next id hentry =>
    split_ifs with hlive
    · exact ⟨_, .reuse hentry hlive, _, rfl, rfl⟩
    · refine ⟨_, .create fun other hother => ?_, _, rfl, rfl⟩
      obtain rfl := Option.some.inj (hentry.symm.trans hother)
      exact hlive
  · next hnone =>
    refine ⟨_, .create fun other hother => ?_, _, rfl, rfl⟩
    rw [hnone] at hother
    cases hother

/-- A handle is dropped. -/
theorem dropLockHandle_follows {id : Nat} :
    LockFollows caller (dropLockHandle caller id) (.handle id) (Returns fun _ l' => l' = .idle) :=
  .modify fun _ _ => ⟨_, .drop, _, rfl, rfl⟩

/-- The program of every call takes the steps of a call. -/
theorem LockCall.program_follows (call : LockCall) :
    LockFollows caller (call.program caller) .idle (Returns fun _ l' => l' = .idle) := by
  cases call with
  | acquire world visited =>
    have hacquire : LockFollows caller (acquireWorldLock caller visited world) .idle
        (Returns fun id l' => l' = .guard id) := by
      refine (worldLockHandle_follows visited world).bind_returns ?_
      rintro id _ rfl t _ hfree
      exact ⟨_, .lock (Option.isNone_iff_eq_none.mp hfree), _, rfl, rfl⟩
    refine hacquire.bind_returns ?_
    rintro id _ rfl t _ _
    exact ⟨_, .unlock, dropLockHandle_follows⟩
  | abandon world visited =>
    refine (worldLockHandle_follows visited world).bind_returns ?_
    rintro id _ rfl
    exact dropLockHandle_follows
  | sweep visited => exact pruneExpiredWorldLocks_follows visited

end

/-- Nothing acts on the table of locks but its calls. -/
def noLockEnvironment (_ _ : LockTable ι) : Prop := False

/-- In every interleaving of acquisitions, abandoned acquisitions and sweeps, two mutexes that were made for one world
and still have a strong reference are the same mutex, and two calls with a guard for one world are the same call. -/
theorem one_live_lock_per_world (calls : ι → LockCall) {pool : Pool ι (LockTable ι) Empty PUnit}
    (hreach : (lockCalls calls).Reaches noLockEnvironment pool) (world : ValidatedWorldPath) :
    (∀ a b, (pool.shared.mutexes a).world = some world → (pool.shared.mutexes b).world = some world →
      pool.shared.Live a → pool.shared.Live b → a = b) ∧
    ∀ a b i j, (pool.shared.mutexes a).world = some world → (pool.shared.mutexes b).world = some world →
      (pool.shared.mutexes a).owner = some i → (pool.shared.mutexes b).owner = some j → i = j := by
  have hinvariant : ProtocolInvariant (fun _ _ _ => True) TableStep (LockInvariant (ι := ι)) :=
    ⟨fun _ _ _ _ => trivial, fun _ _ _ _ _ h hstep => h.step hstep⟩
  have hstart : (lockCalls calls).Invariant (fun _ _ _ => True) TableStep LockInvariant
      fun _ => Returns fun _ l => l = .idle := by
    refine ⟨fun _ => .idle, ?_, fun i => (calls i).program_follows⟩
    constructor
    · intro world id hentry
      cases hentry
    · intro id hlive
      exact absurd rfl hlive
    · simp [lockCalls, LockTable.empty, LockLocal.mutex]
    · simp [lockCalls, LockTable.empty, LockLocal.owned]
  obtain ⟨locals, h, -⟩ := hstart.reaches hinvariant (fun _ _ _ _ hnone => hnone.elim) hreach
  have hunique : ∀ a b, (pool.shared.mutexes a).world = some world → (pool.shared.mutexes b).world = some world →
      pool.shared.Live a → pool.shared.Live b → a = b :=
    fun a b ha hb halive hblive => h.live_unique halive hblive (ha.trans hb.symm)
  refine ⟨hunique, fun a b i j ha hb hi hj => ?_⟩
  obtain rfl := hunique a b ha hb (h.live_of_owner hi) (h.live_of_owner hj)
  exact Option.some.inj (hi.symm.trans hj)

/-- A world that two calls lock. -/
def Sample.contended : ValidatedWorldPath := ⟨"home/contended", by decide +kernel⟩

/-- Two calls that lock one world, and a sweep. -/
def Sample.contending : Fin 3 → LockCall :=
  ![.acquire Sample.contended [], .acquire Sample.contended [], .sweep [Sample.contended]]

/-- The first call has the guard and the second one waits for the same mutex, after a sweep. -/
theorem one_live_lock_per_world_contended :
    ∃ pool, (lockCalls Sample.contending).Reaches noLockEnvironment pool ∧
      (pool.shared.mutexes 0).owner = some 0 ∧ (pool.shared.mutexes 0).handles = {0, 1} ∧
      ∀ b j, (pool.shared.mutexes b).world = some Sample.contended → (pool.shared.mutexes b).owner = some j →
        j = 0 := by
  obtain ⟨pool, hreach, hpool⟩ := Pool.reaches_of_schedule noLockEnvironment [0, 0, 0, 2, 1, 1]
    (show ([0, 0, 0, 2, 1, 1].foldlM Pool.next (lockCalls Sample.contending)).any (fun pool =>
      (pool.shared.mutexes 0).world = some Sample.contended ∧ (pool.shared.mutexes 0).owner = some 0 ∧
        (pool.shared.mutexes 0).handles = {0, 1}) = true by decide +kernel)
  obtain ⟨hworld, howner, hhandles⟩ := of_decide_eq_true hpool
  refine ⟨pool, hreach, howner, hhandles, fun b j hb hj => ?_⟩
  exact (one_live_lock_per_world Sample.contending hreach Sample.contended).2 b 0 j 0 hb hworld hj howner

end AuditeDB
