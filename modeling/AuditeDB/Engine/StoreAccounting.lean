import Mathlib
import AuditeDB.Engine.System
import AuditeDB.Library.Interleaving

/-!
# Accounting of the memory store under interleavings

The calls of the memory store step by step. A call first takes the guard of its entry and then the mutex of the
accounted total; it commits the entry under both and updates the total before it releases the mutex. A journal records
what each call found, committed and settled.
-/

namespace AuditeDB

open Utf8 Results Interleaving

universe u

variable {ι : Type u} [DecidableEq ι]

/-- What a call did: it found its world present or not, committed its entry, and updated the total. -/
inductive StoreEvent (ι : Type u) where
  | looked (caller : ι) (present : Bool)
  | committed (caller : ι)
  | settled (caller : ι) (total : Nat)
deriving DecidableEq

/-- The call of an event. -/
def StoreEvent.caller : StoreEvent ι → ι
  | looked caller _ => caller
  | committed caller => caller
  | settled caller _ => caller

/-- The store with the holders of its guards and of its mutex. The map guards shards of entries; a guard for each
entry allows more interleavings. -/
structure SharedStore (ι : Type u) where
  store : MemoryStore
  guard : ValidatedWorldPath → Option ι
  mutex : Option ι
  journal : List (StoreEvent ι)

namespace SharedStore

/-- A new store. -/
def new : SharedStore ι := ⟨.empty, fun _ => none, none, []⟩

/-- `DashMap::entry`: take the guard of an entry. -/
def takeGuard (s : SharedStore ι) (self : ι) (world : ValidatedWorldPath) : SharedStore ι :=
  { s with
    guard := Function.update s.guard world (some self)
    journal := s.journal ++ [.looked self (s.store.map.lookup world).isSome] }

/-- Drop the guard of an entry. -/
def dropGuard (s : SharedStore ι) (world : ValidatedWorldPath) : SharedStore ι :=
  { s with guard := Function.update s.guard world none }

/-- `accounted_guard`: take the mutex of the total. -/
def takeMutex (s : SharedStore ι) (self : ι) : SharedStore ι := { s with mutex := some self }

/-- Drop the mutex of the total. -/
def dropMutex (s : SharedStore ι) : SharedStore ι := { s with mutex := none }

/-- Insert or remove the guarded entry. -/
def commit (s : SharedStore ι) (self : ι) (world : ValidatedWorldPath) (entry : Option MemEntry) : SharedStore ι :=
  { s with
    store := { s.store with map := entry.elim (s.store.map.erase world) (s.store.map.insert world) }
    journal := s.journal ++ [.committed self] }

/-- Update the total. -/
def settle (s : SharedStore ι) (self : ι) (total : Nat) : SharedStore ι :=
  { s with store := { s.store with accountedBytes := total }, journal := s.journal ++ [.settled self total] }

end SharedStore

/-- A call of the memory store. -/
inductive StoreCall where
  | write (world : ValidatedWorldPath) (body : Bytes) (contentType : String) (headers : Headers)
      (maxTotalBytes : Nat)
  | append (world : ValidatedWorldPath) (body : Bytes) (maxTotalBytes : Nat)
  | delete (world : ValidatedWorldPath)

/-- The world of a call. -/
def StoreCall.world : StoreCall → ValidatedWorldPath
  | write world _ _ _ _ => world
  | append world _ _ => world
  | delete world => world

/-- The quota of a call; a delete has none. -/
def StoreCall.quota : StoreCall → Nat
  | write _ _ _ _ maxTotalBytes => maxTotalBytes
  | append _ _ maxTotalBytes => maxTotalBytes
  | delete _ => 0

/-- What a call returns: `MemoryWriteOutcome`, `AppendResult` or nothing for a missing world, and the flag of a
delete. -/
inductive StoreOutcome where
  | wrote (existed : Bool)
  | appended (bodySha256After : String)
  | missing
  | deleted (removed : Bool)
deriving DecidableEq

/-- The steps of a call. -/
abbrev StoreProg (ι : Type u) (α : Type) : Type u := Prog (SharedStore ι) MemoryQuotaError α

section

variable (self : ι)

/-- Take the guard of an entry when it is free, and read the entry. -/
def lockEntry (world : ValidatedWorldPath) : StoreProg ι (Option MemEntry) :=
  .step (fun s => (s.guard world).isNone) (fun s => s.takeGuard self world) fun s => .done (s.store.map.lookup world)

/-- Take the mutex when it is free, and read the total. -/
def lockTotal : StoreProg ι Nat :=
  .step (fun s => s.mutex.isNone) (fun s => s.takeMutex self) fun s => .done s.store.accountedBytes

/-- `accounting_overflow`: read the total under the mutex and fail. -/
def overflow (quota : Nat) : StoreProg ι StoreOutcome :=
  .step (fun s => s.mutex.isNone) id fun s => .fail ⟨s.store.accountedBytes, quota, usizeMax⟩

/-- `accounting_overflow` while an entry is guarded. -/
def overflowGuarded (world : ValidatedWorldPath) (quota : Nat) : StoreProg ι StoreOutcome :=
  .step (fun s => s.mutex.isNone) id fun s =>
    .step (fun _ => true) (·.dropGuard world) fun _ => .fail ⟨s.store.accountedBytes, quota, usizeMax⟩

/-- The budget check of both writes. -/
def checkBudget (used previousLen nextLen quota : Nat) : Except MemoryQuotaError Nat := do
  let projected ← requireSome ⟨used, quota, usizeMax⟩ (projectedAccountedBytes used previousLen nextLen)
  rejectIf (quota < projected) ⟨used, quota, projected⟩
  pure projected

/-- Leave both critical sections with an error. -/
def abandon (world : ValidatedWorldPath) (error : MemoryQuotaError) : StoreProg ι StoreOutcome := do
  Prog.modify SharedStore.dropMutex
  Prog.modify (·.dropGuard world)
  throw error

/-- The commit of a write and of a delete: the entry consumes its guard before the total is updated. -/
def commitConsuming (world : ValidatedWorldPath) (entry : Option MemEntry) (projected : Nat) (outcome : StoreOutcome) :
    StoreProg ι StoreOutcome := do
  Prog.modify (·.commit self world entry)
  Prog.modify (·.dropGuard world)
  Prog.modify (·.settle self projected)
  Prog.modify SharedStore.dropMutex
  pure outcome

/-- The commit of an append, which keeps the guard to the end. -/
def commitGuarded (world : ValidatedWorldPath) (entry : MemEntry) (projected : Nat) (outcome : StoreOutcome) :
    StoreProg ι StoreOutcome := do
  Prog.modify (·.commit self world (some entry))
  Prog.modify (·.settle self projected)
  Prog.modify SharedStore.dropMutex
  Prog.modify (·.dropGuard world)
  pure outcome

/-- `write_with_quota` under the guard of its entry. -/
def writeGuarded [HashSuite] (world : ValidatedWorldPath) (body : Bytes) (contentType : String) (headers : Headers)
    (maxTotalBytes nextLen : Nat) (previous : Option MemEntry) : StoreProg ι StoreOutcome :=
  match previous.elim (some 0) (accountedEntryBytes world) with
  | none => overflowGuarded world maxTotalBytes
  | some previousLen => do
    let used ← lockTotal self
    match checkBudget used previousLen nextLen maxTotalBytes with
    | .error error => abandon world error
    | .ok projected =>
      commitConsuming self world (some (.new body contentType headers)) projected (.wrote previous.isSome)

/-- `append_with_quota` under the guard of a present entry. -/
def appendGuarded [HashSuite] (world : ValidatedWorldPath) (body : Bytes) (maxTotalBytes : Nat) (entry : MemEntry) :
    StoreProg ι StoreOutcome :=
  match accountedEntryBytes world entry with
  | none => overflowGuarded world maxTotalBytes
  | some previousLen =>
    let next := MemEntry.new (entry.body ++ body) entry.contentType entry.headers
    match accountedEntryBytes world next with
    | none => overflowGuarded world maxTotalBytes
    | some nextLen => do
      let used ← lockTotal self
      match checkBudget used previousLen nextLen maxTotalBytes with
      | .error error => abandon world error
      | .ok projected => commitGuarded self world next projected (.appended next.bodyHash)

/-- `delete` under the guard of a present entry. -/
def deleteGuarded (world : ValidatedWorldPath) (entry : MemEntry) : StoreProg ι StoreOutcome :=
  match accountedEntryBytes world entry with
  | none => do
    Prog.modify (·.dropGuard world)
    pure (.deleted false)
  | some removedLen => do
    let used ← lockTotal self
    match checkedSub used removedLen with
    | none => do
      Prog.modify SharedStore.dropMutex
      Prog.modify (·.dropGuard world)
      pure (.deleted false)
    | some projected => commitConsuming self world none projected (.deleted true)

/-- The steps of a call of the memory store. -/
def StoreCall.program [HashSuite] : StoreCall → StoreProg ι StoreOutcome
  | .write world body contentType headers maxTotalBytes =>
    match accountedEntryPartsBytes world body.length contentType headers with
    | none => overflow maxTotalBytes
    | some nextLen => do
      let previous ← lockEntry self world
      writeGuarded self world body contentType headers maxTotalBytes nextLen previous
  | .append world body maxTotalBytes => do
    match ← lockEntry self world with
    | none => do
      Prog.modify (·.dropGuard world)
      pure .missing
    | some entry => appendGuarded self world body maxTotalBytes entry
  | .delete world => do
    match ← lockEntry self world with
    | none => do
      Prog.modify (·.dropGuard world)
      pure (.deleted false)
    | some entry => deleteGuarded self world entry

end

/-- The calls of a new store. -/
def StoreCall.start [HashSuite] (calls : ι → StoreCall) : Pool ι (SharedStore ι) MemoryQuotaError StoreOutcome :=
  ⟨.new, fun self => (calls self).program self⟩

/-- The entries of a map, one of them first. -/
theorem entries_perm_of_lookup {α β : Type*} [DecidableEq α] {m : AList fun _ : α => β} {a : α} {b : β}
    (h : m.lookup a = some b) : m.entries.Perm (⟨a, b⟩ :: (m.erase a).entries) := by
  have hinsert : (m.insert a b).entries = ⟨a, b⟩ :: (m.erase a).entries := AList.entries_insert
  rw [← hinsert]
  refine List.lookup_ext m.nodupKeys (AList.nodupKeys _) fun key value => ?_
  have hlookup : (m.insert a b).lookup key = m.lookup key := by
    by_cases hkey : key = a
    · subst hkey
      rw [AList.lookup_insert, h]
    · rw [AList.lookup_insert_ne hkey]
  exact iff_of_eq (congrArg (value ∈ ·) hlookup.symm)

namespace MemoryStore

/-- The sum of `accounted_entry_parts_bytes` over the present entries. -/
def entriesBytes (store : MemoryStore) : Nat :=
  (store.map.entries.map fun e => (accountedEntryBytes e.1 e.2).getD 0).sum

/-- Every present entry can be accounted for. -/
def Accountable (store : MemoryStore) : Prop :=
  ∀ world entry, store.map.lookup world = some entry → (accountedEntryBytes world entry).isSome = true

/-- The accounted bytes of an entry, if there is one. -/
def bytesOf (world : ValidatedWorldPath) (entry : Option MemEntry) : Nat :=
  entry.elim 0 fun entry => (accountedEntryBytes world entry).getD 0

/-- The entries of a world and of the others. -/
theorem entriesBytes_split (store : MemoryStore) (world : ValidatedWorldPath) :
    store.entriesBytes = bytesOf world (store.map.lookup world) +
      entriesBytes { store with map := store.map.erase world } := by
  cases hlookup : store.map.lookup world with
  | none =>
    have herase : (store.map.erase world).entries = store.map.entries :=
      List.kerase_of_notMem_keys (AList.lookup_eq_none.mp hlookup)
    simp only [entriesBytes, herase, bytesOf, Option.elim_none, Nat.zero_add]
  | some entry =>
    rw [entriesBytes, ((entries_perm_of_lookup hlookup).map _).sum_eq]
    rfl

end MemoryStore

/-- What a call knows of the total while it holds the mutex. -/
inductive TotalPhase where
  | checking (used : Nat)
  | committed (projected : Nat)
  | settled

/-- What a call holds: the guard with the entry under it, the mutex, and its own part of the journal. -/
structure StoreLocal (ι : Type u) where
  guard : Option (Option MemEntry)
  total : Option TotalPhase
  own : List (StoreEvent ι)

/-- A call that holds nothing and has done nothing. -/
def StoreLocal.idle : StoreLocal ι := ⟨none, none, []⟩

/-- The shared store agrees with what a call on a world holds. -/
structure StoreAgrees (world : ValidatedWorldPath) (caller : ι) (s : SharedStore ι) (l : StoreLocal ι) : Prop where
  accountable : s.store.Accountable
  free : s.mutex = none → s.store.accountedBytes = s.store.entriesBytes
  guard : ∀ other, s.guard other = some caller ↔ other = world ∧ l.guard.isSome = true
  entry : ∀ entry, l.guard = some entry → s.store.map.lookup world = entry
  mutex : s.mutex = some caller ↔ l.total.isSome = true
  checking : ∀ used, l.total = some (.checking used) →
    s.store.accountedBytes = used ∧ s.store.entriesBytes = used
  committed : ∀ projected, l.total = some (.committed projected) → s.store.entriesBytes = projected ∧
    ∃ present, l.own = [.looked caller present, .committed caller]
  settled : l.total = some .settled → s.store.accountedBytes = s.store.entriesBytes
  journal : s.journal.filter (·.caller = caller) = l.own

/-- The steps that calls on a world take. -/
inductive StoreStep (world : ValidatedWorldPath) (self : ι) :
    SharedStore ι → StoreLocal ι → SharedStore ι → StoreLocal ι → Prop where
  | quiet {s : SharedStore ι} {l : StoreLocal ι} : StoreStep world self s l s l
  | guard {s : SharedStore ι} {l : StoreLocal ι} (hfree : s.guard world = none) (htotal : l.total = none) :
      StoreStep world self s l (s.takeGuard self world)
        ⟨some (s.store.map.lookup world), l.total, l.own ++ [.looked self (s.store.map.lookup world).isSome]⟩
  | dropGuard {s : SharedStore ι} {l : StoreLocal ι} (hguard : l.guard.isSome = true) :
      StoreStep world self s l (s.dropGuard world) ⟨none, l.total, l.own⟩
  | mutex {s : SharedStore ι} {l : StoreLocal ι} (hfree : s.mutex = none) :
      StoreStep world self s l (s.takeMutex self) ⟨l.guard, some (.checking s.store.accountedBytes), l.own⟩
  | dropMutex {s : SharedStore ι} {l : StoreLocal ι}
      (htotal : l.total = some .settled ∨ ∃ used, l.total = some (.checking used)) :
      StoreStep world self s l s.dropMutex ⟨l.guard, none, l.own⟩
  | commit {s : SharedStore ι} {l : StoreLocal ι} {old new : Option MemEntry} {used projected : Nat} {present : Bool}
      (hguard : l.guard = some old) (htotal : l.total = some (.checking used))
      (hown : l.own = [.looked self present])
      (hnew : ∀ entry ∈ new, (accountedEntryBytes world entry).isSome = true)
      (hprojected : projected + MemoryStore.bytesOf world old = used + MemoryStore.bytesOf world new) :
      StoreStep world self s l (s.commit self world new)
        ⟨some new, some (.committed projected), l.own ++ [.committed self]⟩
  | settle {s : SharedStore ι} {l : StoreLocal ι} {projected : Nat}
      (htotal : l.total = some (.committed projected)) :
      StoreStep world self s l (s.settle self projected) ⟨l.guard, some .settled, l.own ++ [.settled self projected]⟩

namespace SharedStore

omit [DecidableEq ι]

/-- The entry of a world after a commit. -/
theorem lookup_commit (s : SharedStore ι) (self : ι) (world other : ValidatedWorldPath)
    (entry : Option MemEntry) : (s.commit self world entry).store.map.lookup other =
      if other = world then entry else s.store.map.lookup other := by
  by_cases hother : other = world
  · subst hother
    cases entry <;> simp [commit]
  · cases entry <;> simp [commit, hother]

/-- The bytes of the entries after a commit. -/
theorem entriesBytes_commit (s : SharedStore ι) (self : ι) (world : ValidatedWorldPath)
    (entry : Option MemEntry) :
    (s.commit self world entry).store.entriesBytes + MemoryStore.bytesOf world (s.store.map.lookup world) =
      s.store.entriesBytes + MemoryStore.bytesOf world entry := by
  have hcommit : (s.commit self world entry).store.entriesBytes = MemoryStore.bytesOf world entry +
      MemoryStore.entriesBytes ⟨s.store.map.erase world, s.store.accountedBytes⟩ := by
    cases entry with
    | none => exact (Nat.zero_add _).symm
    | some entry =>
      simp only [commit, MemoryStore.entriesBytes, Option.elim_some, AList.entries_insert]
      rfl
  have hsplit := s.store.entriesBytes_split world
  omega

/-- A commit of an accountable entry keeps the entries accountable. -/
theorem accountable_commit {s : SharedStore ι} {self : ι} {world : ValidatedWorldPath} {entry : Option MemEntry}
    (h : s.store.Accountable) (hentry : ∀ e ∈ entry, (accountedEntryBytes world e).isSome = true) :
    (s.commit self world entry).store.Accountable := by
  intro other found hfound
  rw [lookup_commit] at hfound
  split_ifs at hfound with hother
  · subst hother
    exact hentry found hfound
  · exact h other found hfound

end SharedStore

attribute [grind cases eager] StoreAgrees

/-- A step keeps the agreement of its own call. -/
theorem StoreStep.agrees_self {world : ValidatedWorldPath} {self : ι} {s s' : SharedStore ι} {l l' : StoreLocal ι}
    (h : StoreStep world self s l s' l') (hl : StoreAgrees world self s l) : StoreAgrees world self s' l' := by
  cases h with
  | quiet => exact hl
  | guard hfree htotal =>
    constructor <;> simp only [SharedStore.takeGuard, List.filter_append, Function.update_apply] <;>
      grind -ring -linarith [StoreEvent.caller]
  | dropGuard hguard =>
    constructor <;> simp only [SharedStore.dropGuard, Function.update_apply] <;> grind -ring -linarith
  | mutex hfree => constructor <;> simp only [SharedStore.takeMutex] <;> grind -ring -linarith
  | dropMutex htotal => constructor <;> simp only [SharedStore.dropMutex] <;> grind -ring -linarith
  | @commit old new used projected present hguard htotal hown hnew hprojected =>
    constructor
    case accountable => exact SharedStore.accountable_commit hl.accountable hnew
    case entry => grind -ring -linarith [SharedStore.lookup_commit]
    case committed =>
      -- the difference of the two entries is the difference of the totals
      have hbytes := s.entriesBytes_commit self world new
      have hused := (hl.checking used htotal).2
      rw [hl.entry old hguard] at hbytes
      grind -ring
    all_goals simp only [SharedStore.commit, List.filter_append]
    all_goals grind -ring -linarith [StoreEvent.caller]
  | settle htotal =>
    constructor <;> simp only [SharedStore.settle, List.filter_append] <;>
      grind -ring -linarith [StoreEvent.caller, MemoryStore.entriesBytes, MemoryStore.Accountable]

/-- A step of another call keeps the agreement of a call. -/
theorem StoreStep.agrees_other {world other : ValidatedWorldPath} {self caller : ι} {s s' : SharedStore ι}
    {l l' m : StoreLocal ι} (h : StoreStep other caller s m s' l') (hne : self ≠ caller)
    (hm : StoreAgrees other caller s m) (hl : StoreAgrees world self s l) : StoreAgrees world self s' l := by
  have hguarded := hm.guard other
  cases h with
  | quiet => exact hl
  | guard hfree htotal =>
    constructor <;> simp only [SharedStore.takeGuard, List.filter_append, Function.update_apply] <;>
      grind -ring -linarith [StoreEvent.caller]
  | dropGuard hguard =>
    constructor <;> simp only [SharedStore.dropGuard, Function.update_apply] <;> grind -ring -linarith
  | mutex hfree => constructor <;> simp only [SharedStore.takeMutex] <;> grind -ring -linarith
  | dropMutex htotal => constructor <;> simp only [SharedStore.dropMutex] <;> grind -ring -linarith
  | commit hguard htotal hown hnew hprojected =>
    constructor
    case accountable => exact SharedStore.accountable_commit hl.accountable hnew
    case entry => grind -ring -linarith [SharedStore.lookup_commit]
    all_goals simp only [SharedStore.commit, List.filter_append]
    all_goals grind -ring -linarith [StoreEvent.caller]
  | settle htotal =>
    constructor <;> simp only [SharedStore.settle, List.filter_append] <;>
      grind -ring -linarith [StoreEvent.caller, MemoryStore.entriesBytes, MemoryStore.Accountable]

/-- The invariant of calls on their worlds: the free store is balanced and agrees with every call. -/
structure StoreInvariant (worlds : ι → ValidatedWorldPath) (s : SharedStore ι) (locals : ι → StoreLocal ι) : Prop where
  accountable : s.store.Accountable
  free : s.mutex = none → s.store.accountedBytes = s.store.entriesBytes
  agrees : ∀ i, StoreAgrees (worlds i) i s (locals i)

/-- The steps of calls keep the invariant. -/
theorem storeStep_invariant (worlds : ι → ValidatedWorldPath) :
    ProtocolInvariant (fun i => StoreAgrees (worlds i) i) (fun i => StoreStep (worlds i) i)
      (StoreInvariant worlds) where
  agrees s locals h := h.agrees
  step s locals i s' g' h hstep := by
    have hself := hstep.agrees_self (h.agrees i)
    refine ⟨hself.accountable, hself.free, fun j => ?_⟩
    by_cases hj : j = i
    · subst hj
      rwa [Function.update_self]
    · rw [Function.update_of_ne hj]
      exact hstep.agrees_other hj (h.agrees i) (h.agrees j)

/-- The budget check of a write that it passes. -/
theorem checkBudget_eq_ok {used previousLen nextLen quota projected : Nat}
    (h : checkBudget used previousLen nextLen quota = .ok projected) :
    projected + previousLen = used + nextLen ∧ projected ≤ quota := by
  simp only [checkBudget, bind_eq_ok, requireSome_eq_ok, rejectIf_eq_ok, pure_eq_ok, projectedAccountedBytes,
    checkedSub, checkedAdd] at h
  grind

section Programs

variable {world : ValidatedWorldPath} {self : ι}

/-- A program takes the steps of a call on a world. -/
abbrev StoreFollows (world : ValidatedWorldPath) (self : ι) {α : Type} (program : StoreProg ι α) (l : StoreLocal ι)
    (post : Except MemoryQuotaError α → StoreLocal ι → Prop) : Prop :=
  Follows (StoreAgrees world self) (StoreStep world self) program l post

/-- A call that holds the guard of its entry. -/
def StoreLocal.guarding (self : ι) (entry : Option MemEntry) : StoreLocal ι :=
  ⟨some entry, none, [.looked self entry.isSome]⟩

/-- A call that holds the guard of its entry and the mutex. -/
def StoreLocal.deciding (self : ι) (entry : Option MemEntry) (used : Nat) : StoreLocal ι :=
  ⟨some entry, some (.checking used), [.looked self entry.isSome]⟩

/-- What a finished call left: a rejected call committed nothing, a write or append settled the total within its
quota, and a delete returns whether it found its world. -/
def StoreEnded (self : ι) (quota : Nat) : Except MemoryQuotaError StoreOutcome → StoreLocal ι → Prop
  | .error _, l => ∀ event ∈ l.own, ∃ present, event = .looked self present
  | .ok (.wrote _), l => ∃ total ≤ quota, .settled self total ∈ l.own
  | .ok (.appended _), l => ∃ total ≤ quota, .settled self total ∈ l.own
  | .ok .missing, l => ∀ event ∈ l.own, ∃ present, event = .looked self present
  | .ok (.deleted removed), l => ∀ present, .looked self present ∈ l.own ↔ present = removed

/-- The guarded entry is accountable. -/
theorem lockEntry_follows : StoreFollows world self (lockEntry self world) .idle (Returns fun entry l =>
    l = .guarding self entry ∧ ∀ e ∈ entry, (accountedEntryBytes world e).isSome = true) := by
  intro s hs hfree
  refine ⟨_, .guard (Option.isNone_iff_eq_none.mp hfree) rfl, s.store.map.lookup world, rfl, rfl, ?_⟩
  exact fun e he => hs.accountable world e he

/-- The total covers the guarded entry. -/
theorem lockTotal_follows {entry : Option MemEntry} :
    StoreFollows world self (lockTotal self) (.guarding self entry) (Returns fun used l =>
      l = .deciding self entry used ∧ MemoryStore.bytesOf world entry ≤ used) := by
  intro s hs hfree
  have hmutex : s.mutex = none := Option.isNone_iff_eq_none.mp hfree
  refine ⟨_, .mutex hmutex, s.store.accountedBytes, rfl, rfl, ?_⟩
  rw [hs.free hmutex, s.store.entriesBytes_split world, hs.entry entry rfl]
  exact Nat.le_add_right _ _

/-- A call that overflows leaves the store as it is. -/
theorem overflowGuarded_follows {entry : Option MemEntry} {quota maxTotalBytes : Nat} :
    StoreFollows world self (overflowGuarded world maxTotalBytes) (.guarding self entry) (StoreEnded self quota) := by
  intro s _ _
  refine ⟨_, .quiet, fun s' _ _ => ⟨_, .dropGuard rfl, ?_⟩⟩
  exact fun event hevent => ⟨_, List.mem_singleton.mp hevent⟩

/-- A call over its budget leaves the store as it is. -/
theorem abandon_follows {entry : Option MemEntry} {quota used : Nat} {error : MemoryQuotaError} :
    StoreFollows world self (abandon world error) (.deciding self entry used) (StoreEnded self quota) := by
  intro s _ _
  refine ⟨_, .dropMutex (.inr ⟨used, rfl⟩), fun s' _ _ => ⟨_, .dropGuard rfl, ?_⟩⟩
  exact fun event hevent => ⟨_, List.mem_singleton.mp hevent⟩

/-- A commit that consumes its guard. -/
theorem commitConsuming_follows {entry next : Option MemEntry} {used projected quota : Nat} {outcome : StoreOutcome}
    (hnext : ∀ e ∈ next, (accountedEntryBytes world e).isSome = true)
    (hprojected : projected + MemoryStore.bytesOf world entry = used + MemoryStore.bytesOf world next)
    (hended : ∀ l : StoreLocal ι, l.own = [.looked self entry.isSome, .committed self, .settled self projected] →
      StoreEnded self quota (.ok outcome) l) :
    StoreFollows world self (commitConsuming self world next projected outcome) (.deciding self entry used)
      (StoreEnded self quota) := by
  intro s _ _
  refine ⟨_, .commit rfl rfl rfl hnext hprojected, fun s _ _ => ⟨_, .dropGuard rfl, fun s _ _ => ?_⟩⟩
  exact ⟨_, .settle rfl, fun s _ _ => ⟨_, .dropMutex (.inl rfl), hended _ rfl⟩⟩

/-- A commit that keeps its guard. -/
theorem commitGuarded_follows {entry : Option MemEntry} {next : MemEntry} {used projected quota : Nat}
    {outcome : StoreOutcome} (hnext : (accountedEntryBytes world next).isSome = true)
    (hprojected : projected + MemoryStore.bytesOf world entry = used + MemoryStore.bytesOf world (some next))
    (hended : ∀ l : StoreLocal ι, l.own = [.looked self entry.isSome, .committed self, .settled self projected] →
      StoreEnded self quota (.ok outcome) l) :
    StoreFollows world self (commitGuarded self world next projected outcome) (.deciding self entry used)
      (StoreEnded self quota) := by
  have hsome : ∀ e ∈ some next, (accountedEntryBytes world e).isSome = true := by
    rintro e ⟨⟩
    exact hnext
  intro s _ _
  refine ⟨_, .commit rfl rfl rfl hsome hprojected, fun s _ _ => ⟨_, .settle rfl, fun s _ _ => ?_⟩⟩
  exact ⟨_, .dropMutex (.inl rfl), fun s _ _ => ⟨_, .dropGuard rfl, hended _ rfl⟩⟩

/-- The bytes of an entry that can be accounted for. -/
theorem bytesOf_of_accounted (entry : Option MemEntry) {bytes : Nat}
    (h : entry.elim (some 0) (accountedEntryBytes world) = some bytes) : MemoryStore.bytesOf world entry = bytes := by
  cases entry with
  | none => exact Option.some.inj h
  | some entry =>
    simp only [Option.elim_some] at h
    simp only [MemoryStore.bytesOf, Option.elim_some, h, Option.getD_some]

variable [HashSuite]

/-- A write under its guard. -/
theorem writeGuarded_follows {body : Bytes} {contentType : String} {headers : Headers} {maxTotalBytes nextLen : Nat}
    {previous : Option MemEntry}
    (hnext : accountedEntryPartsBytes world body.length contentType headers = some nextLen) :
    StoreFollows world self (writeGuarded self world body contentType headers maxTotalBytes nextLen previous)
      (.guarding self previous) (StoreEnded self maxTotalBytes) := by
  have hentry : accountedEntryBytes world (.new body contentType headers) = some nextLen := hnext
  unfold writeGuarded
  split
  · exact overflowGuarded_follows
  · next previousLen hprevious =>
    refine lockTotal_follows.bind_returns fun used l hl => ?_
    obtain ⟨rfl, -⟩ := hl
    split
    · exact abandon_follows
    · next projected hbudget =>
      obtain ⟨hprojected, hquota⟩ := checkBudget_eq_ok hbudget
      refine commitConsuming_follows ?_ ?_ ?_
      · rintro e ⟨⟩
        rw [hentry]
        rfl
      · rw [bytesOf_of_accounted previous hprevious, bytesOf_of_accounted (some _) hentry]
        exact hprojected
      · intro l hl
        exact ⟨projected, hquota, by rw [hl]; simp⟩

/-- An append under the guard of its entry. -/
theorem appendGuarded_follows {body : Bytes} {maxTotalBytes : Nat} {entry : MemEntry} :
    StoreFollows world self (appendGuarded self world body maxTotalBytes entry) (.guarding self (some entry))
      (StoreEnded self maxTotalBytes) := by
  unfold appendGuarded
  split
  · exact overflowGuarded_follows
  · next previousLen hprevious =>
    dsimp only
    split
    · exact overflowGuarded_follows
    · next nextLen hnext =>
      refine lockTotal_follows.bind_returns fun used l hl => ?_
      obtain ⟨rfl, -⟩ := hl
      split
      · exact abandon_follows
      · next projected hbudget =>
        obtain ⟨hprojected, hquota⟩ := checkBudget_eq_ok hbudget
        refine commitGuarded_follows ?_ ?_ ?_
        · rw [hnext]
          rfl
        · rw [bytesOf_of_accounted (some _) hprevious, bytesOf_of_accounted (some _) hnext]
          exact hprojected
        · intro l hl
          exact ⟨projected, hquota, by rw [hl]; simp⟩

omit [HashSuite] in
/-- A delete of a present entry removes it: the entry is accountable and the total covers it. -/
theorem deleteGuarded_follows {entry : MemEntry} {quota : Nat}
    (hentry : (accountedEntryBytes world entry).isSome = true) :
    StoreFollows world self (deleteGuarded self world entry) (.guarding self (some entry))
      (StoreEnded self quota) := by
  unfold deleteGuarded
  split
  · next hnone =>
    rw [hnone] at hentry
    cases hentry
  · next removedLen hremoved =>
    have hbytes := bytesOf_of_accounted (some entry) hremoved
    refine lockTotal_follows.bind_returns fun used l hl => ?_
    obtain ⟨rfl, hcovers⟩ := hl
    rw [hbytes] at hcovers
    split
    · next hnone => simp [checkedSub, hcovers] at hnone
    · next projected hprojected =>
      obtain rfl : used - removedLen = projected := by simpa [checkedSub, hcovers] using hprojected
      refine commitConsuming_follows ?_ ?_ ?_
      · nofun
      · rw [hbytes]
        exact Nat.sub_add_cancel hcovers
      · intro l hl
        simp [StoreEnded, hl]

/-- Every call takes the steps of the protocol. -/
theorem StoreCall.program_follows (call : StoreCall) :
    StoreFollows call.world self (call.program self) .idle (StoreEnded self call.quota) := by
  cases call with
  | write world body contentType headers maxTotalBytes =>
    simp only [StoreCall.program]
    split
    · exact fun s _ _ => ⟨_, .quiet, nofun⟩
    · next nextLen hnext =>
      refine lockEntry_follows.bind_returns fun previous l hl => ?_
      obtain ⟨rfl, -⟩ := hl
      exact writeGuarded_follows hnext
  | append world body maxTotalBytes =>
    refine lockEntry_follows.bind_returns fun found l hl => ?_
    obtain ⟨rfl, -⟩ := hl
    cases found with
    | none => exact fun s _ _ => ⟨_, .dropGuard rfl, fun event hevent => ⟨_, List.mem_singleton.mp hevent⟩⟩
    | some entry => exact appendGuarded_follows
  | delete world =>
    refine lockEntry_follows.bind_returns fun found l hl => ?_
    obtain ⟨rfl, hentry⟩ := hl
    cases found with
    | none =>
      refine fun s _ _ => ⟨_, .dropGuard rfl, fun present => ?_⟩
      simp [StoreLocal.guarding]
    | some entry => exact deleteGuarded_follows (hentry entry rfl)

end Programs

/-- What a step of a call on a world leaves in the journal. -/
inductive StoreRecord (world : ValidatedWorldPath) (self : ι) (s s' : SharedStore ι) : Prop where
  | kept (hstore : s'.store = s.store) (hjournal : s'.journal = s.journal)
  | looked (hstore : s'.store = s.store)
      (hjournal : s'.journal = s.journal ++ [.looked self (s.store.map.lookup world).isSome])
  | committed (entry : Option MemEntry) (htotal : s'.store.accountedBytes = s.store.accountedBytes)
      (hentries : ∀ other, s'.store.map.lookup other = if other = world then entry else s.store.map.lookup other)
      (hjournal : s'.journal = s.journal ++ [.committed self])
  | settled (total : Nat) (hstore : s'.store = ⟨s.store.map, total⟩)
      (hjournal : s'.journal = s.journal ++ [.settled self total])

omit [DecidableEq ι] in
/-- Every change of the store is in the journal. -/
theorem StoreStep.record {world : ValidatedWorldPath} {self : ι} {s s' : SharedStore ι} {l l' : StoreLocal ι}
    (h : StoreStep world self s l s' l') : StoreRecord world self s s' := by
  cases h with
  | quiet => exact .kept rfl rfl
  | guard => exact .looked rfl rfl
  | dropGuard => exact .kept rfl rfl
  | mutex => exact .kept rfl rfl
  | dropMutex => exact .kept rfl rfl
  | @commit old new => exact .committed new rfl (fun other => s.lookup_commit self world other new) rfl
  | settle => exact .settled _ rfl rfl

/-- A result of a call that stored an entry. -/
def StoreOutcome.Stored : StoreOutcome → Prop
  | wrote _ => True
  | appended _ => True
  | missing => False
  | deleted _ => False

/-- The accounting of a pool of calls. -/
structure StoreAccounted (calls : ι → StoreCall) (pool : Pool ι (SharedStore ι) MemoryQuotaError StoreOutcome) :
    Prop where
  /-- When no call is between its commit and its update, the total is the sum over the present entries. -/
  balanced : (∀ i, .committed i ∈ pool.shared.journal → ∃ total, .settled i total ∈ pool.shared.journal) →
    pool.shared.store.Accountable ∧ pool.shared.store.accountedBytes = pool.shared.store.entriesBytes
  /-- A call that stored an entry left the total within its quota. -/
  withinQuota : ∀ i outcome, pool.threads i = .done outcome → outcome.Stored →
    ∃ total ≤ (calls i).quota, .settled i total ∈ pool.shared.journal
  /-- A rejected call has at most looked. -/
  rejected : ∀ i error, pool.threads i = .fail error →
    ∀ event ∈ pool.shared.journal, event.caller = i → ∃ present, event = .looked i present
  /-- A delete returns whether it found its world. -/
  removed : ∀ i removed, pool.threads i = .done (.deleted removed) →
    ∀ present, .looked i present ∈ pool.shared.journal ↔ present = removed
  /-- Every step of a call that changes the store is in the journal. -/
  recorded : ∀ i enabled act next, pool.threads i = .step enabled act next → enabled pool.shared = true →
    StoreRecord (calls i).world i pool.shared (act pool.shared)

/-- The events of a call are its own part of the journal. -/
theorem StoreAgrees.mem_own {world : ValidatedWorldPath} {i : ι} {s : SharedStore ι} {l : StoreLocal ι}
    (h : StoreAgrees world i s l) {event : StoreEvent ι} (hcaller : event.caller = i) :
    event ∈ l.own ↔ event ∈ s.journal := by
  rw [← h.journal, List.mem_filter]
  simp [hcaller]

/-- The total is the sum over the entries unless the holder of the mutex is between its commit and its update. -/
theorem StoreAgrees.balanced {world : ValidatedWorldPath} {i : ι} {s : SharedStore ι} {l : StoreLocal ι}
    (h : StoreAgrees world i s l) (hmutex : s.mutex = some i)
    (hsettled : .committed i ∈ s.journal → ∃ total, .settled i total ∈ s.journal) :
    s.store.accountedBytes = s.store.entriesBytes := by
  obtain ⟨phase, hphase⟩ := Option.isSome_iff_exists.mp (h.mutex.mp hmutex)
  cases phase with
  | checking used =>
    obtain ⟨haccounted, hentries⟩ := h.checking used hphase
    rw [haccounted, hentries]
  | committed projected =>
    obtain ⟨-, present, hown⟩ := h.committed projected hphase
    have hcommitted : .committed i ∈ s.journal := by
      rw [← h.mem_own rfl, hown]
      simp
    obtain ⟨total, htotal⟩ := hsettled hcommitted
    rw [← h.mem_own rfl, hown] at htotal
    simp at htotal
  | settled => exact h.settled hphase

/-- The accounting of the memory store under every interleaving of its calls. -/
theorem memoryStore_accounting [HashSuite] (calls : ι → StoreCall)
    {pool : Pool ι (SharedStore ι) MemoryQuotaError StoreOutcome}
    (hreach : (StoreCall.start calls).Reaches (fun _ _ => False) pool) : StoreAccounted calls pool := by
  have hstart : (StoreCall.start calls).Invariant (fun i => StoreAgrees (calls i).world i)
      (fun i => StoreStep (calls i).world i) (StoreInvariant fun i => (calls i).world)
      (fun i => StoreEnded i (calls i).quota) := by
    refine ⟨fun _ => .idle, ⟨?_, fun _ => rfl, fun i => ?_⟩, fun i => (calls i).program_follows⟩
    · simp [StoreCall.start, SharedStore.new, MemoryStore.empty, MemoryStore.Accountable]
    · constructor <;> simp [StoreCall.start, SharedStore.new, StoreLocal.idle, MemoryStore.empty,
        MemoryStore.Accountable, MemoryStore.entriesBytes]
  obtain ⟨locals, hinv, hfollows⟩ := hstart.reaches (storeStep_invariant _) (fun _ _ _ _ h => h.elim) hreach
  have hagrees := hinv.agrees
  constructor
  case balanced =>
    refine fun hsettled => ⟨hinv.accountable, ?_⟩
    cases hmutex : pool.shared.mutex with
    | none => exact hinv.free hmutex
    | some i => exact (hagrees i).balanced hmutex (hsettled i)
  case withinQuota =>
    intro i outcome hdone hstored
    have hended := hfollows i
    rw [hdone] at hended
    cases outcome with
    | wrote existed =>
      obtain ⟨total, hquota, hmem⟩ := hended
      exact ⟨total, hquota, ((hagrees i).mem_own rfl).mp hmem⟩
    | appended bodySha256After =>
      obtain ⟨total, hquota, hmem⟩ := hended
      exact ⟨total, hquota, ((hagrees i).mem_own rfl).mp hmem⟩
    | missing => cases hstored
    | deleted removed => cases hstored
  case rejected =>
    intro i error hfail event hevent hcaller
    have hended := hfollows i
    rw [hfail] at hended
    exact hended event (((hagrees i).mem_own hcaller).mpr hevent)
  case removed =>
    intro i removed hdone present
    have hended := hfollows i
    rw [hdone] at hended
    exact ((hagrees i).mem_own rfl).symm.trans (hended present)
  case recorded =>
    intro i enabled act next hstep henabled
    have hprogram := hfollows i
    rw [hstep] at hprogram
    obtain ⟨l', hprotocol, -⟩ := hprogram pool.shared (hagrees i) henabled
    exact hprotocol.record

/-- A write and a delete of one world: the delete waits for the write, and the store is empty again. -/
theorem memoryStore_accounting_deleted :
    letI := sha2Suite
    let calls : Fin 2 → StoreCall :=
      ![.write Sample.scratch [] "text/plain" [] 1000, .delete Sample.scratch]
    ∃ pool, (StoreCall.start calls).Reaches (fun _ _ => False) pool ∧ StoreAccounted calls pool ∧
      pool.threads 1 = .done (.deleted true) := by
  let _ := sha2Suite
  obtain ⟨pool, hreach, hpool⟩ := Pool.reaches_of_schedule (fun _ _ => False) [0, 0, 0, 0, 1, 0, 0, 1, 1, 1, 1, 1]
    (show (([0, 0, 0, 0, 1, 0, 0, 1, 1, 1, 1, 1] : List (Fin 2)).foldlM Pool.next (StoreCall.start
      ![.write Sample.scratch [] "text/plain" [] 1000, .delete Sample.scratch])).any
        (fun pool => decide ((pool.threads 1).returned = some (.deleted true))) = true by decide +kernel)
  exact ⟨pool, hreach, memoryStore_accounting _ hreach, Prog.returned_eq_some.mp (of_decide_eq_true hpool)⟩

end AuditeDB
