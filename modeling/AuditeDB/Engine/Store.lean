import Mathlib
import AuditeDB.World.Write

/-!
# Worlds kept in memory

Transient worlds live in a map with a budget over all their accounted bytes. Each operation changes the map
and the accounted bytes in one critical section.
-/

namespace AuditeDB

open Utf8 Results

/-- `MemEntry`. -/
structure MemEntry where
  body : Bytes
  bodyHash : String
  contentType : String
  headers : Headers
deriving DecidableEq

/-- `MemEntry::new`. -/
def MemEntry.new [HashSuite] (body : Bytes) (contentType : String) (headers : Headers) : MemEntry :=
  ⟨body, sha256Hex body, contentType, headers⟩

/-- `MemoryStore`. -/
structure MemoryStore where
  map : AList fun _ : ValidatedWorldPath => MemEntry
  accountedBytes : Nat

/-- `MemoryQuotaError`. -/
structure MemoryQuotaError where
  used : Nat
  quota : Nat
  projected : Nat
deriving DecidableEq

/-- `usize::checked_add`. -/
def checkedAdd (a b : Nat) : Option Nat := if a + b ≤ usizeMax then some (a + b) else none

/-- `usize::checked_sub`. -/
def checkedSub (a b : Nat) : Option Nat := if b ≤ a then some (a - b) else none

/-- `metadata_bytes`. -/
def metadataBytes (contentType : String) (headers : Headers) : Option Nat :=
  headers.foldlM (fun total h => do checkedAdd (← checkedAdd total (utf8Bytes h.1).length) (utf8Bytes h.2).length)
    (utf8Bytes contentType).length

/-- `accounted_entry_parts_bytes`, with the fixed overhead and the length of a digest. -/
def accountedEntryPartsBytes (world : ValidatedWorldPath) (bodyLen : Nat) (contentType : String)
    (headers : Headers) : Option Nat := do
  let total ← checkedAdd 128 (utf8Bytes world.name).length
  let total ← checkedAdd total bodyLen
  let total ← checkedAdd total 64
  checkedAdd total (← metadataBytes contentType headers)

/-- `accounted_entry_bytes`. -/
def accountedEntryBytes (world : ValidatedWorldPath) (entry : MemEntry) : Option Nat :=
  accountedEntryPartsBytes world entry.body.length entry.contentType entry.headers

/-- `projected_accounted_bytes`. -/
def projectedAccountedBytes (used previous next : Nat) : Option Nat := do checkedAdd (← checkedSub used previous) next

namespace MemoryStore

/-- `MemoryStore::new`. -/
def empty : MemoryStore := ⟨∅, 0⟩

/-- `MemoryStore::read_with_hash`. -/
def readWithHash (store : MemoryStore) (world : ValidatedWorldPath) : Option (Stage × String) :=
  (store.map.lookup world).map fun e => (⟨e.body, e.contentType, e.headers⟩, e.bodyHash)

/-- `MemoryStore::metadata`. -/
def metadata (store : MemoryStore) (world : ValidatedWorldPath) : Option (Nat × String × Headers) :=
  (store.map.lookup world).map fun e => (e.body.length, e.contentType, e.headers)

/-- `MemoryStore::accounting_overflow`. -/
def accountingOverflow (store : MemoryStore) (quota : Nat) : MemoryQuotaError :=
  ⟨store.accountedBytes, quota, usizeMax⟩

/-- The commit of an entry that both writes share: check the budget, store the entry, update the total. -/
def commitEntry (store : MemoryStore) (world : ValidatedWorldPath) (previousLen nextLen : Nat)
    (entry : MemEntry) (maxTotalBytes : Nat) : Except MemoryQuotaError MemoryStore := do
  let used := store.accountedBytes
  let projected ← requireSome ⟨used, maxTotalBytes, usizeMax⟩ (projectedAccountedBytes used previousLen nextLen)
  rejectIf (maxTotalBytes < projected) ⟨used, maxTotalBytes, projected⟩
  pure ⟨store.map.insert world entry, projected⟩

/-- `MemoryStore::write_with_quota`; the flag says whether the world existed before. -/
def writeWithQuota [HashSuite] (store : MemoryStore) (world : ValidatedWorldPath) (body : Bytes)
    (contentType : String) (headers : Headers) (maxTotalBytes : Nat) :
    Except MemoryQuotaError (Bool × MemoryStore) := do
  let nextLen ← requireSome (store.accountingOverflow maxTotalBytes)
    (accountedEntryPartsBytes world body.length contentType headers)
  let previousLen ← match store.map.lookup world with
    | some entry => requireSome (store.accountingOverflow maxTotalBytes) (accountedEntryBytes world entry)
    | none => pure 0
  let store' ← store.commitEntry world previousLen nextLen (.new body contentType headers) maxTotalBytes
  pure ((store.map.lookup world).isSome, store')

/-- `MemoryStore::append_with_quota`; returns the new entry, which has the digest of the new body, or nothing
for a missing world. -/
def appendWithQuota [HashSuite] (store : MemoryStore) (world : ValidatedWorldPath) (body : Bytes)
    (maxTotalBytes : Nat) : Except MemoryQuotaError (Option (MemEntry × MemoryStore)) :=
  match store.map.lookup world with
  | none => pure none
  | some entry => do
    let previousLen ← requireSome (store.accountingOverflow maxTotalBytes) (accountedEntryBytes world entry)
    let next := MemEntry.new (entry.body ++ body) entry.contentType entry.headers
    let nextLen ← requireSome (store.accountingOverflow maxTotalBytes) (accountedEntryBytes world next)
    let store' ← store.commitEntry world previousLen nextLen next maxTotalBytes
    pure (some (next, store'))

/-- A committed entry is in the map. -/
theorem map_of_commitEntry {store store' : MemoryStore} {world : ValidatedWorldPath}
    {previousLen nextLen maxTotalBytes : Nat} {entry : MemEntry}
    (h : store.commitEntry world previousLen nextLen entry maxTotalBytes = .ok store') :
    store'.map = store.map.insert world entry := by
  simp only [commitEntry, bind_eq_ok, pure_eq_ok] at h
  obtain ⟨projected, -, -, -, rfl⟩ := h
  rfl

/-- What a write to memory leaves. -/
theorem writeWithQuota_eq_ok [HashSuite] {store store' : MemoryStore} {world : ValidatedWorldPath} {body : Bytes}
    {contentType : String} {headers : Headers} {maxTotalBytes : Nat} {existed : Bool}
    (h : store.writeWithQuota world body contentType headers maxTotalBytes = .ok (existed, store')) :
    existed = (store.map.lookup world).isSome ∧
      store'.map = store.map.insert world (.new body contentType headers) := by
  obtain ⟨nextLen, -, h⟩ := bind_eq_ok.mp h
  split at h <;>
  · simp only [bind_eq_ok, pure_eq_ok, Prod.mk.injEq] at h
    obtain ⟨previousLen, -, committed, hcommit, rfl, rfl⟩ := h
    exact ⟨rfl, map_of_commitEntry hcommit⟩

/-- What an append to memory leaves. -/
theorem appendWithQuota_eq_ok [HashSuite] {store store' : MemoryStore} {world : ValidatedWorldPath} {body : Bytes}
    {maxTotalBytes : Nat} {next : MemEntry}
    (h : store.appendWithQuota world body maxTotalBytes = .ok (some (next, store'))) :
    ∃ entry, store.map.lookup world = some entry ∧
      next = .new (entry.body ++ body) entry.contentType entry.headers ∧
      store'.map = store.map.insert world next := by
  unfold appendWithQuota at h
  split at h
  · cases h
  · next entry hentry =>
    simp only [bind_eq_ok, pure_eq_ok, Option.some.injEq, Prod.mk.injEq] at h
    obtain ⟨previousLen, -, nextLen, -, committed, hcommit, rfl, rfl⟩ := h
    exact ⟨entry, hentry, rfl, map_of_commitEntry hcommit⟩

/-- `MemoryStore::delete`; the flag says whether the world was removed. -/
def delete (store : MemoryStore) (world : ValidatedWorldPath) : Bool × MemoryStore :=
  match (store.map.lookup world).bind (accountedEntryBytes world) with
  | none => (false, store)
  | some removedLen =>
    match checkedSub store.accountedBytes removedLen with
    | none => (false, store)
    | some projected => (true, ⟨store.map.erase world, projected⟩)

end MemoryStore

end AuditeDB
