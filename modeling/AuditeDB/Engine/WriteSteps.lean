import Mathlib
import AuditeDB.Engine.Steps

/-!
# The steps of replace and append

A replace and an append follow the protocol, and what they return is what they have committed.
-/

namespace AuditeDB

open Results Interleaving

variable [HashSuite] {key : AuditHmacKey} {call : Call} {caller : Nat} {α : Type} {l : Local} {config : Config}
  {status : Status}

/-- Room for audit events is not part of the view. -/
theorem reserveAuditEvents_follows {ε : Type} (error : ε) :
    CallFollows key call caller (reserveAuditEvents error) l fun _ l' => l' = l := by
  refine attempt_follows fun core value core' h => ?_
  simp only [bind_eq_ok, pure_eq_ok, Prod.mk.injEq] at h
  obtain ⟨-, -, -, rfl⟩ := h
  rfl

/-- A reservation that is given back after a failure. -/
theorem reservedTransaction_follows (pending : PendingStorageReservation) {body : Prog Core WriteError α}
    {ok : α → Local → Prop} {error : Local → Prop} (hwrite : call.operation.isWrite = true) (hstart : error l)
    (hbody : CallFollows key call caller body l (Ends ok error)) :
    CallFollows key call caller (reservedTransaction pending body) l (Ends ok error) := by
  have hreserved : CallFollows key call caller
      (Prog.bind (reserveAuditEvents (.internal "audit event counter capacity exhausted")) fun _ =>
        Prog.onError (·.creditAuditEvents 2) body) l (Ends ok error) := by
    refine (reserveAuditEvents_follows _).bind ?_ ?_
    · rintro _ _ rfl
      exact hbody.onError (fun _ _ h => h) fun _ l' herror core _ => ⟨l', .quiet, herror⟩
    · rintro _ _ rfl
      exact hstart
  exact hreserved.onError (fun _ _ h => h) fun _ l' herror core _ => ⟨l', .account _ (.inl hwrite), herror⟩

/-- The counters of a committed write. -/
theorem settleWrite_follows {ε : Type} (pending : PendingStorageReservation)
    (candidateLen prunableLen prevLen newLen : Nat) (result : WriteAuditResult)
    (hwrite : call.operation.isWrite = true) :
    CallFollows key call caller
      (settleWrite pending candidateLen prunableLen prevLen newLen result : Prog Core ε PUnit) l
      (Returns fun _ l' => l' = l) := by
  refine (account_follows (fun _ => by exact ⟨_, rfl⟩) (.inl hwrite)).bind_returns ?_
  rintro _ _ rfl
  refine (account_follows (fun core => ?_) (.inl hwrite)).bind_returns ?_
  · split <;> exact ⟨_, rfl⟩
  rintro _ _ rfl
  refine (account_follows (fun _ => by exact ⟨_, rfl⟩) (.inl hwrite)).bind_returns ?_
  rintro _ _ rfl
  refine (account_follows (fun _ => by exact ⟨_, rfl⟩) (.inl hwrite)).bind_returns ?_
  rintro _ _ rfl
  refine (account_follows (fun _ => by exact ⟨_, rfl⟩) (.inl hwrite)).bind_returns ?_
  rintro _ _ rfl
  exact modify_follows fun _ => rfl

/-- A read of the database of a world. -/
theorem readDatabase_follows {fault : Option SqlError} {scope : String} {read : Option Database → SqlResult α} :
    CallFollows key call caller (readDatabase call.world fault scope read) l fun _ l' => l' = l := by
  refine attempt_follows fun core value core' h => ?_
  simp only [bind_eq_ok, pure_eq_ok, Prod.mk.injEq] at h
  obtain ⟨-, -, -, rfl⟩ := h
  rfl

/-- The size of a reservation. -/
theorem reserveNewLen_follows (bodyLen candidateLen : Nat) :
    CallFollows key call caller (reserveNewLen config bodyLen candidateLen) l fun _ l' => l' = l := by
  refine attempt_follows fun core value core' h => ?_
  simp only [bind_eq_ok, pure_eq_ok, Prod.mk.injEq] at h
  obtain ⟨-, -, -, rfl⟩ := h
  rfl

/-- A reservation of storage. -/
theorem reserveStorageAfterPrune_follows (prevLen newLen prunedLen : Nat) (hwrite : call.operation.isWrite = true) :
    CallFollows key call caller (reserveStorageAfterPrune config prevLen newLen prunedLen) l fun _ l' => l' = l := by
  refine .attempt (fun core value core' _ h => ?_) fun core error _ _ => ⟨l, .quiet, rfl⟩
  simp only [bind_eq_ok, pure_eq_ok, Prod.mk.injEq] at h
  obtain ⟨_, -, _, -, rfl, rfl⟩ := h
  exact ⟨l, .account _ (.inl hwrite), rfl⟩

/-- A passed precondition leaves the tag it was checked against. -/
theorem checkWritePreconditions_follows (env : WriteEnv) (hdurable : isMemoryWorld call.world = false)
    (hkey : config.hmacKey = key) (hheld : l.held .world = some ⟨status, []⟩) :
    CallFollows key call caller (checkWritePreconditions config env call.world call.operation.preconditions) l
      (Ends (fun _ l' => l'.MayWrite call.operation ∧ ∃ checked, l' = { l with checked := checked }) (· = l)) := by
  unfold checkWritePreconditions
  split
  · next hempty =>
    refine ⟨fun tag htag => ?_, l.checked, rfl⟩
    have hnone : call.operation.preconditions.ifMatch = [] := by
      simp only [Preconditions.isEmpty, Bool.and_eq_true, List.isEmpty_iff] at hempty
      exact hempty.1
    simp [Preconditions.requiredTag, hnone] at htag
  · refine .attempt (fun core value core' _ h => ?_) fun core error _ _ => ⟨l, .quiet, rfl⟩
    simp only [bind_eq_ok, mapError_eq_ok, pure_eq_ok, Prod.mk.injEq] at h
    obtain ⟨current, hread, _, hcheck, -, rfl⟩ := h
    obtain ⟨_, -, hread⟩ := bind_eq_ok.mp hread
    exact core.check_step hdurable hkey hheld hread hcheck

section Durable

omit [HashSuite] in
/-- A duty of the own world is done. -/
theorem Local.after_done (entry : JournalEntry) (opened : OpenedWorldKind) (pending : List SubscriptionEventId)
    (duties : Finset Duty) (duty : Duty) :
    (l.after entry opened pending duties).done duty = l.after entry opened pending (duties.erase duty) := rfl

omit [HashSuite] in
/-- The own world after a committed effect. -/
theorem Local.after_held (entry : JournalEntry) (opened : OpenedWorldKind) (pending : List SubscriptionEventId)
    (duties : Finset Duty) : (l.after entry opened pending duties).held .world = some ⟨.ready opened, pending⟩ := by
  simp [after, hold]

/-- The connection of a committed replace is marked. -/
theorem markExisting_follows {ε : Type} {opened : OpenedWorldKind} {result : WriteAuditResult} {duties : Finset Duty}
    (hduty : .mark ∈ duties) {l' : Local} (h : Wrote call caller l opened duties result l') :
    CallFollows key call caller (Prog.modify (·.markExisting call.world) : Prog Core ε PUnit) l'
      (Returns fun _ => Wrote call caller l opened (duties.erase .mark) result) := by
  obtain ⟨db, db', entry, hentry, rfl⟩ := h
  refine .modify fun core _ => ⟨_, ?_, _, rfl, db, db', entry, hentry, l.after_done entry opened _ duties .mark⟩
  have hstep := @Protocol.mark _ key call caller core.view _ _ (l.after_held entry opened entry.eventIds duties) hduty
  unfold Core.markExisting
  split
  · next hsome =>
    obtain ⟨kind, hkind⟩ := Option.isSome_iff_exists.mp hsome
    have hview : core.view.conn call.world = some kind := hkind
    rw [core.view_writeConns call.world (lookup_insert_eq_update _ _ _)]
    rw [hview] at hstep
    exact hstep
  · next hnone =>
    have hview : core.view.conn call.world = none := Option.not_isSome_iff_eq_none.mp hnone
    rw [hview, Option.map_none, View.setConn, ← hview, Function.update_eq_self] at hstep
    exact hstep

/-- The connection and the transaction of a replace. -/
theorem replaceTransaction_follows {env : WriteEnv} {request : ReplaceRequest}
    (hoperation : call.operation = .replace env request) (hkey : config.hmacKey = key)
    (hdurable : isMemoryWorld call.world = false) (hduties : l.duties = ∅) (hcheck : l.MayWrite call.operation) :
    CallFollows key call caller (replaceTransaction config env caller call.world request)
      (l.hold .world ⟨status, []⟩)
      (Ends (fun (opened, result) => Wrote call caller l opened (if opened = .created then {.count} else ∅) result)
        (Unsettled l .world [])) := by
  refine (cachedWriteConn_follows env.opening hdurable (by rw [hoperation]; rfl)).mapError_ends.bind ?_ fun _ _ h => h
  rintro opened _ rfl
  refine .lift_bind (fun _ _ => ?_) fun _ _ => ⟨_, rfl⟩
  refine (commitTransaction_follows env hdurable hcheck hduties (by rw [hoperation]; rfl) ?_).bind ?_ fun _ _ h => h
  · intro verified db result db' hrun
    rw [hoperation]
    rw [hkey] at hrun
    exact ⟨verified, _, hrun⟩
  · intro result l' h
    refine (markExisting_follows (by rw [hoperation, Operation.duties]; split <;> simp) h).bind_returns ?_
    intro _ l'' h
    have hrest : (call.operation.duties opened).erase .mark = if opened = .created then {.count} else ∅ := by
      rw [hoperation]
      cases opened <;> rfl
    rw [hrest] at h
    exact h

/-- A world that was created is counted. -/
theorem countCreated_follows {ε : Type} {opened : OpenedWorldKind} {result : WriteAuditResult} {l' : Local}
    (h : Wrote call caller l opened (if opened = .created then {.count} else ∅) result l') :
    CallFollows key call caller (Prog.modify fun core =>
        if opened = .created then { core with durableWorldCount := core.durableWorldCount + 1 } else core :
        Prog Core ε PUnit) l' (Returns fun _ => Wrote call caller l opened ∅ result) := by
  cases opened with
  | existing => exact .modify fun core _ => ⟨l', .quiet, _, rfl, h⟩
  | created =>
    obtain ⟨db, db', entry, hentry, rfl⟩ := h
    refine .modify fun core _ => ⟨_, ?_, _, rfl, db, db', entry, hentry, l.after_done entry .created _ {.count} .count⟩
    exact .count (l.after_held entry .created entry.eventIds _) (by simp [Local.after])

/-- The durable part of a replace. -/
theorem replaceDurable_follows {env : WriteEnv} {request : ReplaceRequest}
    (hoperation : call.operation = .replace env request) (hkey : config.hmacKey = key)
    (hdurable : isMemoryWorld call.world = false) (hduties : l.duties = ∅) (hcheck : l.MayWrite call.operation) :
    CallFollows key call caller (replaceDurable config env caller call.world request) (l.hold .world ⟨status, []⟩)
      (Ends (fun (opened, result) => Wrote call caller l opened ∅ result) (Unsettled l .world [])) := by
  have hwrite : call.operation.isWrite = true := by rw [hoperation]; rfl
  refine readDatabase_follows.bind ?_ (by rintro _ _ rfl; exact ⟨_, rfl⟩)
  rintro snapshot _ rfl
  refine (reserveNewLen_follows _ _).bind ?_ (by rintro _ _ rfl; exact ⟨_, rfl⟩)
  rintro newLen _ rfl
  refine (reserveStorageAfterPrune_follows _ _ _ hwrite).bind ?_ (by rintro _ _ rfl; exact ⟨_, rfl⟩)
  rintro pending _ rfl
  refine (reservedTransaction_follows pending hwrite ⟨_, rfl⟩
    (replaceTransaction_follows hoperation hkey hdurable hduties hcheck)).bind ?_ fun _ _ h => h
  rintro ⟨opened, result⟩ l' h
  refine (settleWrite_follows pending _ _ _ _ result hwrite).bind_returns ?_
  rintro _ _ rfl
  refine (countCreated_follows h).bind_returns ?_
  intro _ l'' h
  exact h

/-- The local state of a write that returns: its world is free of duties and pending rows. -/
def WriteDone (call : Call) (caller : Nat) (l : Local) (outcome : WriteOutcome) (l' : Local) : Prop :=
  ∃ opened db result db', l' = l.after
      (.wrote caller call.world (call.operation.treats opened) db result db') opened [] ∅ ∧
    outcome = ⟨if call.operation.treats opened = .existing then .updated else .created, hmacEtag result.hmac⟩

/-- The notifications and the outcome of a durable write. -/
theorem announceWrite_follows (verb : ChangeVerb) {opened treated : OpenedWorldKind} {result : WriteAuditResult}
    {l' : Local} (htreats : call.operation.treats opened = treated) (h : Wrote call caller l opened ∅ result l') :
    CallFollows key call caller (announceWrite config verb treated result) l'
      (Returns (WriteDone call caller l)) := by
  obtain ⟨db, db', entry, rfl, rfl⟩ := h
  refine (notifyFormat_follows config result.formatEvent (l.after_held _ opened _ ∅)).bind_returns ?_
  rintro _ _ rfl
  refine (notifyWithAux_follows config verb result.bodyEvent.bodyTarget _ .default rfl
    (Local.hold_held _ .world _)).bind_returns ?_
  rintro _ _ rfl
  refine ⟨_, rfl, opened, db, result, db', ?_, by rw [htreats]⟩
  simp [Local.after, Local.hold]

end Durable

section Calls

/-- The local state of a call that has ended with some entries in the journal. -/
def Local.Ended (own : List JournalEntry) (l : Local) : Prop :=
  l.held = Local.idle.held ∧ l.duties = ∅ ∧ l.own = own

/-- What a write that returned has committed: a row of its durable world, or an entry in memory. -/
inductive WriteReturned (call : Call) (caller : Nat) (outcome : WriteOutcome) (l : Local) : Prop
  | durable (opened : OpenedWorldKind) (db : Database) (result : WriteAuditResult) (db' : Database)
      (hdurable : isMemoryWorld call.world = false)
      (hended : l.Ended [.wrote caller call.world (call.operation.treats opened) db result db'])
      (houtcome : outcome =
        ⟨if call.operation.treats opened = .existing then .updated else .created, hmacEtag result.hmac⟩)
  | memory (entry : MemEntry) (hmemory : isMemoryWorld call.world = true)
      (hended : l.Ended [.stored caller call.world entry]) (houtcome : outcome.etag = "sha256-" ++ entry.bodyHash)

/-- The outcome of a write: it has committed exactly when it returns. -/
def WritePost (call : Call) (caller : Nat) : Except WriteError WriteOutcome → Local → Prop :=
  Ends (WriteReturned call caller) (Local.Ended [])

/-- The start of a write under the lock. -/
def Local.started (checked : Option String) : Local := { Local.idle with checked := checked }

omit [HashSuite] in
/-- A world that is given back after a failure. -/
theorem unsettled_ended (checked : Option String) {l' : Local}
    (h : Unsettled (.started checked) .world [] l') :
    (∃ status, l'.held .world = some ⟨status, []⟩) ∧ Disjoint l'.duties Slot.world.duties ∧
      (l'.release .world).Ended [] := by
  obtain ⟨status, rfl⟩ := h
  refine ⟨⟨status, Local.hold_held _ _ _⟩, Finset.disjoint_empty_left _, ?_, rfl, rfl⟩
  simp [Local.release, Local.hold, Local.started, Local.idle]

omit [HashSuite] in
/-- A world that is given back after a durable write. -/
theorem writeDone_ended {checked : Option String} {outcome : WriteOutcome} {l' : Local}
    (hdurable : isMemoryWorld call.world = false) (h : WriteDone call caller (.started checked) outcome l') :
    (∃ status, l'.held .world = some ⟨status, []⟩) ∧ Disjoint l'.duties Slot.world.duties ∧
      WriteReturned call caller outcome (l'.release .world) := by
  obtain ⟨opened, db, result, db', rfl, houtcome⟩ := h
  refine ⟨⟨_, Local.after_held _ _ _ _⟩, Finset.disjoint_empty_left _,
    .durable opened db result db' hdurable ⟨?_, rfl, rfl⟩ houtcome⟩
  simp [Local.release, Local.after, Local.hold, Local.started, Local.idle]

/-- `begin_file_op` is not part of the view. -/
theorem beginFileOp_follows {ε : Type} (error : ε) :
    CallFollows key call caller (beginFileOp error) l fun _ l' => l' = l := by
  refine attempt_follows fun core value core' h => ?_
  simp only [bind_eq_ok, pure_eq_ok, Prod.mk.injEq] at h
  obtain ⟨-, -, -, rfl⟩ := h
  rfl

/-- A new entry in memory. -/
theorem store_step {core : Core} {mem : MemoryStore} {entry : MemEntry} {holding : Holding}
    (hheld : l.held .world = some holding) (hmemory : isMemoryWorld call.world = true)
    (hmap : mem.map = core.mem.map.insert call.world entry)
    (hstores : call.operation.Stores (core.mem.map.lookup call.world) entry) :
    Protocol key call caller core.view l
      { core with mem := mem, journal := core.journal ++ [JournalEntry.stored caller call.world entry] }.view
      (l.record (.stored caller call.world entry)) := by
  have hstep := @Protocol.store _ key call caller core.view l holding entry hheld hmemory hstores
  have hview : { core with mem := mem, journal := core.journal ++ [JournalEntry.stored caller call.world entry] }.view =
      (core.view.setEntry call.world (some entry)).record (.stored caller call.world entry) := by
    simp only [Core.view, View.setEntry, View.record, hmap, lookup_insert_eq_update]
  rw [hview]
  exact hstep

/-- The memory part of a replace. -/
theorem replaceMemory_follows {env : WriteEnv} {request : ReplaceRequest}
    (hoperation : call.operation = .replace env request) (hmemory : isMemoryWorld call.world = true)
    {holding : Holding} (hheld : l.held .world = some holding) :
    CallFollows key call caller (replaceMemory config caller call.world request) l
      (Ends (fun outcome l' => ∃ entry, l' = l.record (.stored caller call.world entry) ∧
        outcome.etag = "sha256-" ++ entry.bodyHash) (· = l)) := by
  refine @Follows.bind _ _ _ _ _ _ _ _ _ _ (Ends (fun _ l' => l' = l.record (.stored caller call.world
    (.new request.body request.contentType request.headers))) (· = l)) _ (.attempt ?_ ?_) ?_ fun _ _ h => h
  · intro core existed core' _ h
    simp only [bind_eq_ok, mapError_eq_ok, pure_eq_ok, Prod.exists, Prod.mk.injEq] at h
    obtain ⟨_, mem, hwrite, rfl, rfl⟩ := h
    refine ⟨_, store_step hheld hmemory (MemoryStore.writeWithQuota_eq_ok hwrite).2 ?_, rfl⟩
    rw [hoperation]
    rfl
  · exact fun core error _ _ => ⟨l, .quiet, rfl⟩
  · rintro existed _ rfl
    refine (notifyWithAux_signal_follows config _ _ _ _ rfl).bind_returns ?_
    rintro _ _ rfl
    exact ⟨_, rfl, rfl⟩

/-- The preconditions of a write in memory. -/
theorem checkWritePreconditions_memory_follows (env : WriteEnv) (preconditions : Preconditions) :
    CallFollows key call caller (checkWritePreconditions config env call.world preconditions) l
      fun _ l' => l' = l := by
  unfold checkWritePreconditions
  split
  · exact rfl
  · refine attempt_follows fun core value core' h => ?_
    simp only [bind_eq_ok, pure_eq_ok, Prod.mk.injEq] at h
    obtain ⟨_, -, -, -, -, rfl⟩ := h
    rfl

omit [HashSuite] in
/-- A world in memory that is given back after a write. -/
theorem stored_ended {entry : MemEntry} {outcome : WriteOutcome} (hmemory : isMemoryWorld call.world = true)
    (hetag : outcome.etag = "sha256-" ++ entry.bodyHash) {l' : Local}
    (h : l' = (Local.idle.hold .world ⟨.unknown, []⟩).record (.stored caller call.world entry)) :
    (∃ status, l'.held .world = some ⟨status, []⟩) ∧ Disjoint l'.duties Slot.world.duties ∧
      WriteReturned call caller outcome (l'.release .world) := by
  subst h
  refine ⟨⟨.unknown, ?_⟩, Finset.disjoint_empty_left _, .memory entry hmemory ⟨?_, rfl, rfl⟩ hetag⟩
  · simp [Local.record, Local.hold]
  · simp [Local.release, Local.record, Local.hold, Local.idle]

/-- `replace_write` follows the protocol. -/
theorem replaceWrite_follows {env : WriteEnv} {request : ReplaceRequest}
    (hoperation : call.operation = .replace env request) (hkey : config.hmacKey = key)
    (hworld : call.world ≠ deleteLedgerWorld) :
    CallFollows key call caller (replaceWrite config env caller call.world request) .idle
      (WritePost call caller) := by
  have hpreconditions : request.preconditions = call.operation.preconditions := by rw [hoperation]; rfl
  refine .lift_bind (fun _ _ => ?_) fun _ _ => ⟨rfl, rfl, rfl⟩
  refine withWorldLock_follows hworld rfl rfl ?_
  refine (beginFileOp_follows _).bind ?_ (by rintro _ _ rfl; exact unsettled_ended none ⟨_, rfl⟩)
  rintro _ _ rfl
  cases hmemory : isMemoryWorld call.world with
  | true =>
    refine (checkWritePreconditions_memory_follows env _).bind ?_
      (by rintro _ _ rfl; exact unsettled_ended none ⟨_, rfl⟩)
    rintro _ _ rfl
    rw [if_pos rfl]
    refine (replaceMemory_follows hoperation hmemory (Local.hold_held _ _ _)).mono ?_
    rintro (_ | outcome) _ h
    · obtain rfl : _ = _ := h
      exact unsettled_ended none ⟨_, rfl⟩
    · obtain ⟨entry, hl', hetag⟩ := h
      exact stored_ended hmemory hetag hl'
  | false =>
    rw [hpreconditions]
    refine (checkWritePreconditions_follows env hmemory hkey (Local.hold_held _ _ _)).bind ?_
      (by rintro _ _ rfl; exact unsettled_ended none ⟨_, rfl⟩)
    rintro _ _ ⟨hcheck, checked, rfl⟩
    rw [if_neg (by simp)]
    refine (replaceDurable_follows (l := .started checked) hoperation hkey hmemory rfl hcheck).bind ?_
      fun _ _ h => unsettled_ended checked h
    rintro ⟨opened, result⟩ l' h
    refine (announceWrite_follows .replace (by rw [hoperation]; rfl) h).mono ?_
    rintro _ _ ⟨outcome, rfl, hdone⟩
    exact writeDone_ended hmemory hdone

/-- The metadata that an append starts from. -/
theorem appendMetadata_follows (env : WriteEnv) :
    CallFollows key call caller (appendMetadata env call.world) l fun _ l' => l' = l := by
  unfold appendMetadata
  split
  · exact .atomically fun core _ => ⟨l, .quiet, rfl⟩
  · exact readDatabase_follows

/-- A storage estimate of an append. -/
theorem appendEstimate_follows (fault : Option SqlError) (estimate : Database → SqlResult Nat) :
    CallFollows key call caller (appendEstimate call.world fault estimate) l fun _ l' => l' = l := by
  refine readDatabase_follows.bind ?_ fun _ _ h => h
  rintro _ _ rfl
  exact .lift rfl

/-- The connection and the transaction of an append. -/
theorem appendTransaction_follows {env : WriteEnv} {request : AppendRequest} (contentType : String) (headers : Headers)
    (hoperation : call.operation = .append env request) (hkey : config.hmacKey = key)
    (hdurable : isMemoryWorld call.world = false) (hduties : l.duties = ∅) (hcheck : l.MayWrite call.operation) :
    CallFollows key call caller (appendTransaction config env caller call.world request contentType headers)
      (l.hold .world ⟨status, []⟩)
      (Ends (fun result l' => ∃ opened, Wrote call caller l opened ∅ result l') (Unsettled l .world [])) := by
  refine (cachedExistingWriteConn_follows env.opening (by rw [hoperation]; rfl)).mapError_ends.bind ?_ fun _ _ h => h
  rintro conn _ ⟨status, rfl, hready⟩
  refine .lift_bind (fun opened hopened => ?_) fun _ _ => ⟨_, rfl⟩
  rw [hready opened (requireSome_eq_ok.mp hopened)]
  refine .lift_bind (fun _ _ => ?_) fun _ _ => ⟨_, rfl⟩
  refine (commitTransaction_follows env hdurable hcheck hduties (by rw [hoperation]; rfl) ?_).mono ?_
  · intro verified db result db' hrun
    rw [hoperation]
    rw [hkey] at hrun
    exact ⟨verified, _, _, _, hrun⟩
  · rintro (_ | result) l' h
    · exact h
    · have hnone : call.operation.duties opened = ∅ := by rw [hoperation]; rfl
      rw [hnone] at h
      exact ⟨opened, h⟩

/-- The durable part of an append. -/
theorem appendDurable_follows {env : WriteEnv} {request : AppendRequest} (bodyLen projected : Nat)
    (contentType : String) (headers : Headers) (hoperation : call.operation = .append env request)
    (hkey : config.hmacKey = key) (hdurable : isMemoryWorld call.world = false) (hduties : l.duties = ∅)
    (hcheck : l.MayWrite call.operation) :
    CallFollows key call caller
      (appendDurable config env caller call.world request bodyLen projected contentType headers)
      (l.hold .world ⟨status, []⟩)
      (Ends (fun result l' => ∃ opened, Wrote call caller l opened ∅ result l') (Unsettled l .world [])) := by
  have hwrite : call.operation.isWrite = true := by rw [hoperation]; rfl
  refine (appendEstimate_follows _ _).bind ?_ (by rintro _ _ rfl; exact ⟨_, rfl⟩)
  rintro candidateLen _ rfl
  refine (appendEstimate_follows _ _).bind ?_ (by rintro _ _ rfl; exact ⟨_, rfl⟩)
  rintro prunableLen _ rfl
  refine (reserveNewLen_follows _ _).bind ?_ (by rintro _ _ rfl; exact ⟨_, rfl⟩)
  rintro newLen _ rfl
  refine (reserveStorageAfterPrune_follows _ _ _ hwrite).bind ?_ (by rintro _ _ rfl; exact ⟨_, rfl⟩)
  rintro pending _ rfl
  refine (reservedTransaction_follows pending hwrite ⟨_, rfl⟩
    (appendTransaction_follows contentType headers hoperation hkey hdurable hduties hcheck)).bind ?_ fun _ _ h => h
  intro result l' h
  refine (settleWrite_follows pending _ _ _ _ result hwrite).bind_returns ?_
  rintro _ _ rfl
  exact h

/-- The memory part of an append. -/
theorem appendMemory_follows {env : WriteEnv} {request : AppendRequest}
    (hoperation : call.operation = .append env request) (hmemory : isMemoryWorld call.world = true)
    {holding : Holding} (hheld : l.held .world = some holding) :
    CallFollows key call caller (appendMemory config caller call.world request) l
      (Ends (fun outcome l' => ∃ entry, l' = l.record (.stored caller call.world entry) ∧
        outcome.etag = "sha256-" ++ entry.bodyHash) (· = l)) := by
  refine @Follows.bind _ _ _ _ _ _ _ _ _ _ (Ends (fun hash l' => ∃ entry, l' = l.record (.stored caller call.world
    entry) ∧ hash = entry.bodyHash) (· = l)) _ (.attempt ?_ ?_) ?_ fun _ _ h => h
  · intro core hash core' _ h
    simp only [bind_eq_ok, mapError_eq_ok, requireSome_eq_ok, pure_eq_ok, Prod.exists, Prod.mk.injEq] at h
    obtain ⟨_, happend, entry, mem, rfl, rfl, rfl⟩ := h
    obtain ⟨old, hold, hnext, hmap⟩ := MemoryStore.appendWithQuota_eq_ok happend
    refine ⟨_, store_step hheld hmemory hmap ?_, entry, rfl, rfl⟩
    rw [hoperation]
    exact ⟨old, hold, hnext⟩
  · exact fun core error _ _ => ⟨l, .quiet, rfl⟩
  · rintro hash _ ⟨entry, rfl, rfl⟩
    refine (notifyWithAux_signal_follows config _ _ _ _ rfl).bind_returns ?_
    rintro _ _ rfl
    exact ⟨entry, rfl, rfl⟩

/-- `append_write` follows the protocol. -/
theorem appendWrite_follows {env : WriteEnv} {request : AppendRequest}
    (hoperation : call.operation = .append env request) (hkey : config.hmacKey = key)
    (hworld : call.world ≠ deleteLedgerWorld) :
    CallFollows key call caller (appendWrite config env caller call.world request) .idle
      (WritePost call caller) := by
  have hpreconditions : request.preconditions = call.operation.preconditions := by rw [hoperation]; rfl
  refine withWorldLock_follows hworld rfl rfl ?_
  refine (beginFileOp_follows _).bind ?_ (by rintro _ _ rfl; exact unsettled_ended none ⟨_, rfl⟩)
  rintro _ _ rfl
  cases hmemory : isMemoryWorld call.world with
  | true =>
    refine (checkWritePreconditions_memory_follows env _).bind ?_
      (by rintro _ _ rfl; exact unsettled_ended none ⟨_, rfl⟩)
    rintro _ _ rfl
    refine (appendMetadata_follows env).bind ?_
      (by rintro _ _ rfl; exact unsettled_ended none ⟨_, rfl⟩)
    rintro found _ rfl
    refine .lift_bind (fun start _ => ?_) fun _ _ => unsettled_ended none ⟨_, rfl⟩
    obtain ⟨bodyLen, contentType, headers⟩ := start
    refine .lift_bind (fun projected _ => ?_) fun _ _ => unsettled_ended none ⟨_, rfl⟩
    rw [if_pos rfl]
    refine (appendMemory_follows hoperation hmemory (Local.hold_held _ _ _)).mono ?_
    rintro (_ | outcome) _ h
    · obtain rfl : _ = _ := h
      exact unsettled_ended none ⟨_, rfl⟩
    · obtain ⟨entry, hl', hetag⟩ := h
      exact stored_ended hmemory hetag hl'
  | false =>
    rw [hpreconditions]
    refine (checkWritePreconditions_follows env hmemory hkey (Local.hold_held _ _ _)).bind ?_
      (by rintro _ _ rfl; exact unsettled_ended none ⟨_, rfl⟩)
    rintro _ _ ⟨hcheck, checked, rfl⟩
    refine (appendMetadata_follows env).bind ?_
      (by rintro _ _ rfl; exact unsettled_ended checked ⟨_, rfl⟩)
    rintro found _ rfl
    refine .lift_bind (fun start _ => ?_) fun _ _ => unsettled_ended checked ⟨_, rfl⟩
    obtain ⟨bodyLen, contentType, headers⟩ := start
    refine .lift_bind (fun projected _ => ?_) fun _ _ => unsettled_ended checked ⟨_, rfl⟩
    rw [if_neg (by simp)]
    refine (appendDurable_follows (l := .started checked) bodyLen projected contentType headers hoperation hkey
      hmemory rfl hcheck).bind ?_ fun _ _ h => unsettled_ended checked h
    rintro result l' ⟨opened, h⟩
    refine (announceWrite_follows .append (by rw [hoperation]; rfl) h).mono ?_
    rintro _ _ ⟨outcome, rfl, hdone⟩
    exact writeDone_ended hmemory hdone

end Calls

end AuditeDB
