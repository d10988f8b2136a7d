import Mathlib
import AuditeDB.Engine.System

/-!
# Appends of the Python client

The client appends to a world and, when there is none, creates it by a replace with an empty body and appends
again. Each engine call is atomic, but calls of other clients may come between them. A client that creates the
world after another one has appended removes what was appended.
-/

namespace AuditeDB

open Results Interleaving

/-- The errors that the client tells apart. -/
inductive SdkError where
  | notFound
  | other (message : String)
deriving DecidableEq

/-- The calls of an engine on one path, each of them atomic. An append without preconditions finds the world or
raises `NotFound`. -/
structure AtomicEngine (σ : Type) where
  body : σ → Option Bytes
  replace : Bytes → Preconditions → σ → Except SdkError σ
  append : Bytes → Preconditions → σ → Except SdkError σ
  replace_body : ∀ {data preconditions s s'}, replace data preconditions s = .ok s' → body s' = some data
  append_body : ∀ {data preconditions s s'}, append data preconditions s = .ok s' →
    ∃ before, body s = some before ∧ body s' = some (before ++ data)
  append_missing : ∀ {data preconditions s}, preconditions.isEmpty = true → body s = none →
    append data preconditions s = .error .notFound

/-- The state that the clients share: the engine, and the bodies that the replaces found, which no call reads. -/
structure SdkState (σ : Type) where
  engine : σ
  replaced : List (Option Bytes)

namespace AtomicEngine

variable {σ : Type} (engine : AtomicEngine σ)

/-- `Engine.put`. -/
def put (data : Bytes) (preconditions : Preconditions) : Prog (SdkState σ) SdkError Unit :=
  .attempt fun s => do
    let state ← engine.replace data preconditions s.engine
    pure ((), ⟨state, s.replaced ++ [engine.body s.engine]⟩)

/-- The call of `engine.append`. -/
def callAppend (data : Bytes) (preconditions : Preconditions) : Prog (SdkState σ) SdkError Unit :=
  .attempt fun s => do
    let state ← engine.append data preconditions s.engine
    pure ((), { s with engine := state })

/-- `Engine.append`. -/
def sdkAppend (data : Bytes) (preconditions : Preconditions) : Prog (SdkState σ) SdkError Unit :=
  (engine.callAppend data preconditions).tryCatch fun
    | .notFound =>
      if !preconditions.isEmpty then .fail .notFound
      else do
        engine.put [] ⟨[], []⟩
        engine.callAppend data preconditions
    | error => .fail error

/-- Clients that append to one path without preconditions. -/
def clients {n : Nat} (data : Fin n → Bytes) (s : σ) : Pool (Fin n) (SdkState σ) SdkError Unit :=
  ⟨⟨s, []⟩, fun i => engine.sdkAppend (data i) ⟨[], []⟩⟩

/-- The steps of a client, which knows whether it has appended: a call fails, the world is created, or the data
is appended. -/
inductive Client (data : Bytes) : SdkState σ → Bool → SdkState σ → Bool → Prop where
  | failed {s appended} : Client data s appended s appended
  | created {s state} (h : engine.body state = some []) :
      Client data s false ⟨state, s.replaced ++ [engine.body s.engine]⟩ false
  | appended {s state before} (hbefore : engine.body s.engine = some before)
      (hafter : engine.body state = some (before ++ data)) : Client data s false { s with engine := state } true

/-- A client follows its steps, and has appended when it returns. -/
theorem sdkAppend_follows (data : Bytes) :
    Follows (fun _ _ => True) (engine.Client data) (engine.sdkAppend data ⟨[], []⟩) false
      fun outcome appended => outcome = .ok () → appended = true := by
  have happend : Follows (fun _ _ => True) (engine.Client data) (engine.callAppend data ⟨[], []⟩) false
      fun outcome appended => (outcome = .ok () → appended = true) ∧ (outcome ≠ .ok () → appended = false) := by
    refine .attempt (fun s value s' _ h => ?_) fun s error _ _ => ⟨_, .failed, by simp⟩
    simp only [bind_eq_ok, pure_eq_ok, Prod.mk.injEq] at h
    obtain ⟨state, hcall, -, rfl⟩ := h
    obtain ⟨before, hbefore, hafter⟩ := engine.append_body hcall
    exact ⟨true, .appended hbefore hafter, by simp⟩
  refine happend.tryCatch (fun _ _ h => h.1) fun error appended h => ?_
  obtain rfl := h.2 (by simp)
  cases error with
  | other message => exact fun h => (by cases h)
  | notFound =>
    have hput : Follows (fun _ _ => True) (engine.Client data) (engine.put [] ⟨[], []⟩) false
        fun _ appended => appended = false := by
      refine .attempt (fun s value s' _ h => ?_) fun s error _ _ => ⟨_, .failed, rfl⟩
      simp only [bind_eq_ok, pure_eq_ok, Prod.mk.injEq] at h
      obtain ⟨state, hcall, -, rfl⟩ := h
      exact ⟨false, .created (engine.replace_body hcall), rfl⟩
    refine hput.bind (fun _ _ hfalse => ?_) fun _ _ _ h => (by cases h)
    subst hfalse
    exact happend.mono fun _ _ h => h.1

/-- The bytes of the bodies that were replaced. -/
def removedBytes (replaced : List (Option Bytes)) : Nat := (replaced.map fun found => (found.getD []).length).sum

/-- One more replaced body. -/
theorem removedBytes_concat (replaced : List (Option Bytes)) (found : Option Bytes) :
    removedBytes (replaced ++ [found]) = removedBytes replaced + (found.getD []).length := by
  simp [removedBytes]

/-- Nothing was removed when every replaced body was missing or empty. -/
theorem removedBytes_eq_zero {replaced : List (Option Bytes)} :
    removedBytes replaced = 0 ↔ ∀ found ∈ replaced, found.getD [] = [] := by
  simp [removedBytes, List.sum_eq_zero_iff]

section

variable {n : Nat} {data : Fin n → Bytes} {s : SdkState σ} {appended : Fin n → Bool} {order : List (Fin n)}

/-- What the clients keep: the body and the removed bytes are as long as the data of the clients that have
appended, and unless something was removed the body is their data in the order of the appends. -/
structure Accounted (data : Fin n → Bytes) (s : SdkState σ) (appended : Fin n → Bool) (order : List (Fin n)) :
    Prop where
  nodup : order.Nodup
  mem : ∀ i, i ∈ order ↔ appended i = true
  isSome : order ≠ [] → (engine.body s.engine).isSome = true
  length : ((engine.body s.engine).getD []).length + removedBytes s.replaced = (order.flatMap data).length
  body : removedBytes s.replaced = 0 → (engine.body s.engine).getD [] = order.flatMap data

variable {engine}

/-- A step of a client keeps the account. -/
theorem Accounted.step {s' : SdkState σ} {i : Fin n} {appended' : Bool}
    (h : engine.Accounted data s appended order)
    (hstep : engine.Client (data i) s (appended i) s' appended') :
    ∃ order', engine.Accounted data s' (Function.update appended i appended') order' := by
  generalize hi : appended i = before at hstep
  cases hstep with
  | failed => exact ⟨order, by rwa [← hi, Function.update_eq_self]⟩
  | created hbody =>
    rw [← hi, Function.update_eq_self]
    refine ⟨order, h.nodup, h.mem, fun _ => by simp [hbody], ?_, fun hzero => ?_⟩
    · rw [removedBytes_concat, hbody, ← h.length]
      simp [Nat.add_comm]
    · rw [removedBytes_concat] at hzero
      have hempty : (engine.body s.engine).getD [] = [] := List.length_eq_zero_iff.mp (by omega)
      rw [hbody, ← h.body (by omega), hempty]
      rfl
  | appended hbefore hafter =>
    have hnotMem : i ∉ order := fun hmem => by simp [(h.mem i).mp hmem] at hi
    have hlength := h.length
    rw [hbefore, Option.getD_some] at hlength
    refine ⟨order ++ [i], ?_, fun j => ?_, fun _ => by simp [hafter], ?_, fun hzero => ?_⟩
    · exact List.nodup_append.mpr ⟨h.nodup, List.nodup_singleton i, by simpa using fun a ha => ne_of_mem_of_not_mem ha hnotMem⟩
    · by_cases hj : j = i
      · simp [hj]
      · simp [hj, h.mem j]
    · simp [hafter, ← hlength]
      omega
    · have hbody := h.body hzero
      rw [hbefore, Option.getD_some] at hbody
      simp [hafter, hbody]

/-- When all clients have appended, the body is all the data in some order exactly when nothing was removed. -/
theorem Accounted.concatenates_iff (h : engine.Accounted data s appended order) (hall : ∀ i, appended i = true)
    (hn : 0 < n) :
    (∃ order : List (Fin n), order.Perm (List.finRange n) ∧ engine.body s.engine = some (order.flatMap data)) ↔
      ∀ found ∈ s.replaced, found.getD [] = [] := by
  have hmem : ∀ i, i ∈ order := fun i => (h.mem i).mpr (hall i)
  have hperm : order.Perm (List.finRange n) :=
    (List.perm_ext_iff_of_nodup h.nodup (List.nodup_finRange n)).mpr fun i => by simp [hmem i]
  obtain ⟨body, hbody⟩ := Option.isSome_iff_exists.mp (h.isSome (List.ne_nil_of_mem (hmem ⟨0, hn⟩)))
  have hlength := h.length
  rw [hbody, Option.getD_some] at hlength
  rw [← removedBytes_eq_zero]
  constructor
  · rintro ⟨order', hperm', heq⟩
    have hsame : (order'.flatMap data).length = (order.flatMap data).length :=
      ((hperm'.trans hperm.symm).flatMap_right data).length_eq
    cases Option.some.inj (hbody.symm.trans heq)
    omega
  · intro hzero
    refine ⟨order, hperm, ?_⟩
    rw [hbody, ← h.body hzero, hbody]
    rfl

end

/-- When all clients have returned, the body of a path that was absent is all their data in some order exactly
when every replace found it absent or empty. -/
theorem sdkAppend_concatenates_iff {n : Nat} {data : Fin (n + 1) → Bytes} {s : σ}
    {pool : Pool (Fin (n + 1)) (SdkState σ) SdkError Unit} (habsent : engine.body s = none)
    (hreach : (engine.clients data s).Reaches (fun _ _ => False) pool)
    (hreturned : ∀ i, pool.threads i = .done ()) :
    (∃ order : List (Fin (n + 1)), order.Perm (List.finRange (n + 1)) ∧
        engine.body pool.shared.engine = some (order.flatMap data)) ↔
      ∀ found ∈ pool.shared.replaced, found.getD [] = [] := by
  have hinvariant : ProtocolInvariant (fun _ _ _ => True) (fun i => engine.Client (data i))
      fun s appended => ∃ order, engine.Accounted data s appended order :=
    ⟨fun _ _ _ _ => trivial, fun _ _ _ _ _ ⟨_, h⟩ hstep => h.step hstep⟩
  have hstart : (engine.clients data s).Invariant (fun _ _ _ => True) (fun i => engine.Client (data i))
      (fun s appended => ∃ order, engine.Accounted data s appended order)
      fun _ outcome appended => outcome = .ok () → appended = true :=
    ⟨fun _ => false, ⟨[], .nil, by simp, by simp, by simp [clients, habsent, removedBytes],
      by simp [clients, habsent]⟩, fun i => engine.sdkAppend_follows (data i)⟩
  obtain ⟨appended, ⟨order, haccounted⟩, hfollows⟩ :=
    hstart.reaches hinvariant (fun _ _ _ _ h => h.elim) hreach
  refine haccounted.concatenates_iff (fun i => ?_) n.succ_pos
  have hi := hfollows i
  rw [hreturned i] at hi
  exact hi rfl

end AtomicEngine

/-- The calls on one path of the worlds in memory. -/
def MemoryStore.atomicEngine [HashSuite] (world : ValidatedWorldPath) (maxTotalBytes : Nat) :
    AtomicEngine MemoryStore where
  body store := (store.map.lookup world).map MemEntry.body
  replace data preconditions store := do
    (checkPreconditions preconditions ((store.readWithHash world).map fun read => "sha256-" ++ read.2)).mapError
      SdkError.other
    let (_, store) ← (store.writeWithQuota world data "application/octet-stream" [] maxTotalBytes).mapError
      fun _ => SdkError.other "quota exceeded"
    pure store
  append data preconditions store := do
    (checkPreconditions preconditions ((store.readWithHash world).map fun read => "sha256-" ++ read.2)).mapError
      SdkError.other
    let appended ← (store.appendWithQuota world data maxTotalBytes).mapError
      fun _ => SdkError.other "quota exceeded"
    let (_, store) ← requireSome .notFound appended
    pure store
  replace_body h := by
    simp only [bind_eq_ok, mapError_eq_ok, pure_eq_ok] at h
    obtain ⟨-, -, result, hwrite, rfl⟩ := h
    rw [(writeWithQuota_eq_ok hwrite).2, AList.lookup_insert]
    rfl
  append_body h := by
    simp only [bind_eq_ok, mapError_eq_ok, requireSome_eq_ok, pure_eq_ok] at h
    obtain ⟨-, -, _, happend, result, rfl, rfl⟩ := h
    obtain ⟨entry, hentry, hnext, hmap⟩ := appendWithQuota_eq_ok happend
    rw [hentry, hmap, AList.lookup_insert, hnext]
    exact ⟨entry.body, rfl, rfl⟩
  append_missing {data preconditions store} hempty hmissing := by
    have hlookup : store.map.lookup world = none := Option.map_eq_none_iff.mp hmissing
    obtain ⟨hmatch, hnone⟩ : preconditions.ifMatch = [] ∧ preconditions.ifNoneMatch = [] := by
      simpa [Preconditions.isEmpty] using hempty
    simp [appendWithQuota, readWithHash, hlookup, checkPreconditions, checkIfMatch, hmatch, hnone, requireSome,
      Except.mapError, bind, Except.bind, pure, Except.pure]

/-- A client alone creates the world and appends its data. -/
theorem sdkAppend_concatenates_alone :
    letI := sha2Suite
    let engine := MemoryStore.atomicEngine Sample.scratch 65536
    ∃ pool, (engine.clients (n := 1) (fun _ => [97]) .empty).Reaches (fun _ _ => False) pool ∧
      (∀ i, pool.threads i = .done ()) ∧
      ∃ order : List (Fin 1), order.Perm (List.finRange 1) ∧
        engine.body pool.shared.engine = some (order.flatMap fun _ => [97]) := by
  let _ := sha2Suite
  let engine := MemoryStore.atomicEngine Sample.scratch 65536
  obtain ⟨pool, hreach, hpool⟩ := Pool.reaches_of_schedule (fun _ _ => False) [0, 0, 0]
    (show (([0, 0, 0].foldlM Pool.next (engine.clients (n := 1) (fun _ => [97]) .empty)).any fun pool =>
      (∀ i, (pool.threads i).returned = some ()) ∧ ∀ found ∈ pool.shared.replaced, found.getD [] = []) = true by
        decide +kernel)
  obtain ⟨hreturned, hreplaced⟩ := of_decide_eq_true hpool
  simp only [Prog.returned_eq_some] at hreturned
  exact ⟨pool, hreach, hreturned, (engine.sdkAppend_concatenates_iff rfl hreach hreturned).mpr hreplaced⟩

/-- Two clients find no world; the second one creates it again after the first one has appended. -/
theorem sdkAppend_loses_data :
    letI := sha2Suite
    let engine := MemoryStore.atomicEngine Sample.scratch 65536
    ∃ pool, (engine.clients ![[97], [98]] .empty).Reaches (fun _ _ => False) pool ∧
      (∀ i, pool.threads i = .done ()) ∧ engine.body pool.shared.engine = some [98] ∧
      ¬ ∃ order : List (Fin 2), order.Perm (List.finRange 2) ∧
        engine.body pool.shared.engine = some (order.flatMap ![[97], [98]]) := by
  let _ := sha2Suite
  let engine := MemoryStore.atomicEngine Sample.scratch 65536
  obtain ⟨pool, hreach, hpool⟩ := Pool.reaches_of_schedule (fun _ _ => False) [0, 1, 0, 0, 1, 1]
    (show (([0, 1, 0, 0, 1, 1].foldlM Pool.next (engine.clients ![[97], [98]] .empty)).any fun pool =>
      (∀ i, (pool.threads i).returned = some ()) ∧ engine.body pool.shared.engine = some [98]) = true by
        decide +kernel)
  obtain ⟨hreturned, hbody⟩ := of_decide_eq_true hpool
  simp only [Prog.returned_eq_some] at hreturned
  refine ⟨pool, hreach, hreturned, hbody, ?_⟩
  rintro ⟨order, hperm, hsome⟩
  have hlength := (hperm.flatMap_right (![[97], [98]] : Fin 2 → Bytes)).length_eq
  rw [← Option.some.inj (hbody.symm.trans hsome)] at hlength
  revert hlength
  decide

end AuditeDB
