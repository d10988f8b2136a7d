import Mathlib
import AuditeDB.Engine.WriteSteps

/-!
# The steps of delete

A delete follows the protocol. Its entries in the journal are its intent, the removal and its commit, in this order,
and it returns exactly when the commit is among them.
-/

namespace AuditeDB

open Results Interleaving

variable [HashSuite] {key : AuditHmacKey} {call : Call} {caller : Nat} {l : Local} {config : Config} {status : Status}

section Ledger

/-- A row of the ledger reports the job it was appended for. -/
theorem appendTxInner_row {audit : VerifiedAuditTx} {clock : String} {kind : AuditEventKind}
    {target : ValidatedWorldPath} {bodySha256 : BodySha256} {size : Int} {contentType : String} {headers : Headers}
    {db db' : Database} {row : AppendedAuditRow}
    (h : appendTxInner audit clock kind target bodySha256 size contentType headers db = .ok (row, db')) :
    row.eventType = kind ∧ row.target = target := by
  unfold appendTxInner at h
  simp only [bind_eq_ok, pure_eq_ok, Prod.exists, Prod.mk.injEq] at h
  obtain ⟨_, -, _, -, _, _, -, _, -, rfl, -⟩ := h
  exact ⟨rfl, rfl⟩

/-- The event of a ledger transaction has the kind, the target and the subject of its job. -/
theorem ledgerTransaction_event {clock : TxClock} {job : AuditAppendJob} {isEmpty : Bool} {db db' : Database}
    {event : AppendedLedgerEvent} (h : ledgerTransaction config clock job isEmpty db = .ok (event, db')) :
    event.eventType = job.eventType ∧ event.target = job.target ∧ event.deleteSubject = job.headers.deleteSubject := by
  unfold ledgerTransaction at h
  split at h
  · simp only [bind_eq_ok, pure_eq_ok, Prod.exists, Prod.mk.injEq] at h
    obtain ⟨format, row, _, hrow, rfl, rfl⟩ := h
    unfold appendGenesisRow at hrow
    simp only [bind_eq_ok, liftSql_eq_ok, pure_eq_ok, Prod.exists, Prod.mk.injEq] at hrow
    obtain ⟨_, -, _, _, -, _, _, hinner, ⟨-, rfl⟩, -⟩ := hrow
    exact ⟨(appendTxInner_row hinner).1, (appendTxInner_row hinner).2, rfl⟩
  · simp only [bind_eq_ok, pure_eq_ok, Prod.exists, Prod.mk.injEq] at h
    obtain ⟨row, _, hrow, rfl, rfl⟩ := h
    unfold appendExistingRow at hrow
    simp only [bind_eq_ok, liftSql_eq_ok] at hrow
    obtain ⟨_, -, hinner⟩ := hrow
    exact ⟨(appendTxInner_row hinner).1, (appendTxInner_row hinner).2, rfl⟩

omit [HashSuite] in
/-- The ledger is a durable world. -/
theorem isMemoryWorld_deleteLedgerWorld : isMemoryWorld deleteLedgerWorld = false := by decide +kernel

/-- The lazy connection of the ledger. -/
theorem openLedger_follows (env : OpenEnv) :
    CallFollows key call caller (openLedger env) (l.hold .ledger ⟨status, []⟩)
      (Ends (fun _ l' => ∃ opened, l' = l.hold .ledger ⟨.ready opened, []⟩) (Unsettled l .ledger [])) := by
  have hlook : CallFollows key call caller (Prog.atomically fun core => (core.ledgerConn, core) : Prog Core SqlError Bool)
      (l.hold .ledger ⟨status, []⟩) (Returns fun cached l' =>
        l' = l.hold .ledger ⟨if cached then .ready .existing else status, []⟩) := by
    refine .atomically fun core _ => ?_
    cases hcached : core.ledgerConn with
    | true => exact ⟨_, .reuseLedger (l.hold_held .ledger _) hcached, true, rfl, by simp⟩
    | false => exact ⟨_, .quiet, false, rfl, rfl⟩
  refine hlook.bind_returns ?_
  rintro (_ | _) _ rfl
  · refine (openWorldPaths_follows .ledger env isMemoryWorld_deleteLedgerWorld nofun).bind ?_ fun _ _ h => h
    rintro opened _ rfl
    exact .modify fun core _ => ⟨_, .cacheLedger (l.hold_held .ledger _), opened, rfl⟩
  · exact ⟨.existing, rfl⟩

/-- `ledger_is_empty` changes nothing. -/
theorem ledgerIsEmpty_follows (fault : Option SqlError) :
    CallFollows key call caller (ledgerIsEmpty fault) l (Ends (fun _ l' => l' = l) (· = l)) := by
  refine .attempt (fun core value core' _ h => ?_) fun core error _ _ => ⟨l, .quiet, rfl⟩
  simp only [bind_eq_ok, pure_eq_ok, Prod.mk.injEq] at h
  obtain ⟨-, -, -, -, -, rfl⟩ := h
  exact ⟨l, .quiet, rfl⟩

/-- What a delete has to do after a row of the ledger. -/
def AuditAppendJob.duties (job : AuditAppendJob) : Finset Duty :=
  if job.eventType = .deleteIntent then {.countLedger} else ∅

/-- The local state after a row of the ledger with pending notifications. -/
def Local.logged (l : Local) (opened : OpenedWorldKind) (pending : List SubscriptionEventId) (entry : JournalEntry)
    (duties : Finset Duty) : Local :=
  ((l.hold .ledger ⟨.ready opened, pending⟩).record entry).owe duties

omit [HashSuite] in
/-- The ledger after one of its rows. -/
theorem Local.logged_held (opened : OpenedWorldKind) (pending : List SubscriptionEventId) (entry : JournalEntry)
    (duties : Finset Duty) : (l.logged opened pending entry duties).held .ledger = some ⟨.ready opened, pending⟩ :=
  l.hold_held .ledger _

omit [HashSuite] in
/-- The notification of a row of the ledger. -/
theorem Local.logged_hold (opened : OpenedWorldKind) (pending rest : List SubscriptionEventId) (entry : JournalEntry)
    (duties : Finset Duty) : (l.logged opened pending entry duties).hold .ledger ⟨.ready opened, rest⟩ =
      l.logged opened rest entry duties := by
  simp [logged, owe, record, hold]

/-- The event of a row that was committed for a job. -/
def AuditAppendJob.Logged (job : AuditAppendJob) (event : AppendedLedgerEvent) : Prop :=
  event.eventType = job.eventType ∧ event.target = job.target ∧ event.deleteSubject = job.headers.deleteSubject

section Append

variable {job : AuditAppendJob} (hkey : config.hmacKey = key) (hworld : (l.held .world).isSome = true)
  (hjob : DeleteJob call.world job)
  (hremoved : job.eventType ≠ .deleteIntent → .removed caller call.world ∈ l.own)
  (hdelete : call.operation.isWrite = false)

include hkey hworld hjob hremoved hdelete

/-- The transaction of one ledger append commits with its journal entry. -/
theorem commitLedger_follows (env : LedgerEnv) (isEmpty : Bool) {opened : OpenedWorldKind} :
    CallFollows key call caller (commitLedger config caller env job isEmpty) (l.hold .ledger ⟨.ready opened, []⟩)
      (Ends (fun event l' => job.Logged event ∧
          l' = l.logged opened (JournalEntry.eventIds (.logged caller event)) (.logged caller event) job.duties)
        (Unsettled l .ledger [])) := by
  refine .attempt ?_ fun core error _ _ => ⟨_, .quiet, _, rfl⟩
  intro core event core' _ h
  simp only [mapError_eq_ok, bind_eq_ok, requireSome_eq_ok, pure_eq_ok, Prod.exists, Prod.mk.injEq] at h
  obtain ⟨_, -, db, hdb, _, db', htransaction, rfl, rfl⟩ := h
  have hheld : (l.hold .ledger ⟨.ready opened, []⟩).held .world = l.held .world := by simp [Local.hold]
  have hstep := @Protocol.log _ key call caller core.view (l.hold .ledger ⟨.ready opened, []⟩) config env.clock job
    isEmpty opened db db' _ (l.hold_held .ledger _) (by rw [hheld]; exact hworld) hkey
    ((core.database_eq_some _).mp hdb) hjob hremoved hdelete htransaction
  rw [← core.view_setDir] at hstep
  refine ⟨_, hstep, ledgerTransaction_event htransaction, ?_⟩
  simp [Local.logged, AuditAppendJob.duties]

/-- `LedgerWriter::append` under the stream lock. -/
theorem appendToLedger_follows (env : LedgerEnv) :
    CallFollows key call caller (appendToLedger config caller env job) (l.hold .ledger ⟨status, []⟩)
      (Ends (fun event l' => job.Logged event ∧ ∃ opened,
          l' = l.logged opened (JournalEntry.eventIds (.logged caller event)) (.logged caller event) job.duties)
        (Unsettled l .ledger [])) := by
  refine (openLedger_follows env.opening).mapError_ends.bind ?_ fun _ _ h => h
  rintro _ _ ⟨opened, rfl⟩
  refine (ledgerIsEmpty_follows env.count).mapError_ends.bind ?_ ?_
  · rintro isEmpty _ rfl
    refine (commitLedger_follows hkey hworld hjob hremoved hdelete env isEmpty).mono ?_
    rintro (_ | event) l' h
    · exact h
    · exact ⟨h.1, opened, h.2⟩
  · rintro error _ rfl
    exact ⟨_, rfl⟩

/-- `append_ledger_event_and_notify` under the stream lock. -/
theorem appendLedgerEventAndNotify_follows (env : LedgerEnv) :
    CallFollows key call caller (appendLedgerEventAndNotify config caller env job) (l.hold .ledger ⟨status, []⟩)
      (Ends (fun event l' => job.Logged event ∧ ∃ opened,
          l' = l.logged opened [] (.logged caller event) job.duties) (Unsettled l .ledger [])) := by
  refine (reserveAuditEvents_follows _).bind ?_ (by rintro _ _ rfl; exact ⟨_, rfl⟩)
  rintro _ _ rfl
  have happend : CallFollows key call caller (Prog.onError (·.creditAuditEvents 2) (appendToLedger config caller env job))
      (l.hold .ledger ⟨status, []⟩) (Ends (fun event l' => job.Logged event ∧ ∃ opened,
        l' = l.logged opened (JournalEntry.eventIds (.logged caller event)) (.logged caller event) job.duties)
        (Unsettled l .ledger [])) :=
    (appendToLedger_follows hkey hworld hjob hremoved hdelete env).onError (fun _ _ h => h)
      fun _ l' herror core _ => ⟨l', .quiet, herror⟩
  refine happend.bind ?_ fun _ _ h => h
  rintro event _ ⟨hlogged, opened, rfl⟩
  refine (modify_follows fun _ => rfl).bind_returns ?_
  rintro _ _ rfl
  refine (notifyFormat_follows config event.formatEvent (Local.logged_held opened _ _ _)).bind_returns ?_
  rintro _ _ rfl
  rw [Local.logged_hold]
  refine (notifyWithAux_follows config (ledgerVerb event.eventType) event.changeTarget _ .default rfl
    (Local.logged_held opened _ _ _)).bind_returns ?_
  rintro _ _ rfl
  exact ⟨hlogged, opened, Local.logged_hold opened _ _ _ _⟩

end Append

end Ledger

section Delete

/-- The local state of a delete under the lock of its world. -/
def Local.inDelete (checked : Option String) (status : Status) (own : List JournalEntry) : Local :=
  ⟨(Local.idle.hold .world ⟨status, []⟩).held, ∅, checked, own⟩

/-- The local state of a delete under both locks. -/
def Local.inBoth (checked : Option String) (status : Status) (own : List JournalEntry) (ledger : Status) : Local :=
  (Local.inDelete checked status own).hold .ledger ⟨ledger, []⟩

omit [HashSuite] in
/-- The world of a delete under both locks. -/
theorem Local.inBoth_held (checked : Option String) (status : Status) (own : List JournalEntry) (ledger : Status) :
    (Local.inBoth checked status own ledger).held .world = some ⟨status, []⟩ := by
  simp [inBoth, inDelete, hold]

omit [HashSuite] in
/-- What a delete learns about its world. -/
theorem Local.inBoth_hold (checked : Option String) (status status' : Status) (own : List JournalEntry)
    (ledger : Status) : (Local.inBoth checked status own ledger).hold .world ⟨status', []⟩ =
      .inBoth checked status' own ledger := by
  simp only [inBoth, inDelete, hold, Local.mk.injEq, and_true]
  funext slot
  cases slot <;> simp

/-- A delete holds the stream lock of the ledger while its body runs. -/
theorem withStreamLock_follows {ε α : Type} {body : Prog Core ε α} {post : Except ε α → Local → Prop}
    (hworld : call.world ≠ deleteLedgerWorld) (hnone : l.held .ledger = none) (hchecked : l.checked = none)
    (hbody : CallFollows key call caller body (l.hold .ledger ⟨.unknown, []⟩) fun outcome l' =>
      (∃ status, l'.held .ledger = some ⟨status, []⟩) ∧ Disjoint l'.duties Slot.ledger.duties ∧
        post outcome (l'.release .ledger)) :
    CallFollows key call caller (withStreamLock body) l post := by
  have hview : ∀ (core : Core) (locked : Bool),
      { core with deleteLedgerStreamLock := locked }.view = core.view.setLock deleteLedgerWorld locked := by
    intro core locked
    simp only [Core.view, View.setLock, View.mk.injEq, true_and, and_true]
    funext path
    by_cases hpath : path = deleteLedgerWorld <;> simp [hpath]
  intro core _ hfree
  have hlocked : core.view.locked deleteLedgerWorld = false := by simpa [Core.view] using hfree
  refine ⟨l.hold .ledger ⟨.unknown, []⟩, ?_, hbody.ensuring ?_⟩
  · show Protocol key call caller core.view l { core with deleteLedgerStreamLock := true }.view _
    rw [hview core true]
    exact .lock .ledger hworld hlocked hnone hchecked
  · rintro outcome l' ⟨⟨status, hheld⟩, hduties, hpost⟩ core' _
    refine ⟨l'.release .ledger, ?_, hpost⟩
    rw [hview core' false]
    exact .unlock .ledger hheld hduties

/-- A passed precondition of a delete leaves the tag it was checked against. -/
theorem checkDeletePreconditions_follows (env : DeleteEnv) (hkey : config.hmacKey = key) {holding : Holding}
    (hheld : l.held .world = some holding) :
    CallFollows key call caller (checkDeletePreconditions config env call.world call.operation.preconditions) l
      (Ends (fun _ l' => (isMemoryWorld call.world = false → l'.MayWrite call.operation) ∧
        ∃ checked, l' = { l with checked := checked }) (· = l)) := by
  unfold checkDeletePreconditions
  split
  · next hempty =>
    refine ⟨fun _ tag htag => ?_, l.checked, rfl⟩
    have hnone : call.operation.preconditions.ifMatch = [] := by
      simp only [Preconditions.isEmpty, Bool.and_eq_true, List.isEmpty_iff] at hempty
      exact hempty.1
    simp [Preconditions.requiredTag, hnone] at htag
  · refine .attempt (fun core value core' _ h => ?_) fun core error _ _ => ⟨l, .quiet, rfl⟩
    simp only [bind_eq_ok, mapError_eq_ok, pure_eq_ok, Prod.mk.injEq] at h
    obtain ⟨current, hread, _, hcheck, -, rfl⟩ := h
    obtain ⟨_, -, hread⟩ := bind_eq_ok.mp hread
    cases hmemory : isMemoryWorld call.world with
    | true => exact ⟨l, .quiet, fun hdurable => (by cases hdurable), l.checked, rfl⟩
    | false =>
      obtain ⟨l', hstep, hmay, hchecked⟩ := core.check_step hmemory hkey hheld hread hcheck
      exact ⟨l', hstep, fun _ => hmay, hchecked⟩

/-- A durable world that was read has an open database. -/
theorem Core.look_of_read {core : Core} {world : ValidatedWorldPath} {stage : Stage} {tag : String}
    (hdurable : isMemoryWorld world = false) (h : core.readWorldWithEtag config world = .ok (some (stage, tag))) :
    ∃ db, core.view.dir world = some (.database db) ∧ verifyOpenShape db = .ok () := by
  obtain ⟨db, -, -, hdir, hshape, -⟩ := core.hasTag_of_read hdurable h
  exact ⟨db, hdir, hshape⟩

/-- The status of the world of a delete after it was read. -/
def readStatus (world : ValidatedWorldPath) (status : Status) : Status :=
  if isMemoryWorld world then status else .ready .existing

/-- A delete reads its world. -/
theorem readSubject_follows (env : DeleteEnv) {checked : Option String} {own : List JournalEntry} {ledger : Status} :
    CallFollows key call caller (readSubject config env call.world) (.inBoth checked status own ledger)
      (Ends (fun _ l' => l' = .inBoth checked (readStatus call.world status) own ledger)
        (· = .inBoth checked status own ledger)) := by
  refine .attempt (fun core stage core' _ h => ?_) fun core error _ _ => ⟨_, .quiet, rfl⟩
  simp only [bind_eq_ok, mapError_eq_ok, requireSome_eq_ok, pure_eq_ok, Prod.exists, Prod.mk.injEq] at h
  obtain ⟨current, hread, _, tag, rfl, rfl, rfl⟩ := h
  obtain ⟨_, -, hread⟩ := bind_eq_ok.mp hread
  cases hmemory : isMemoryWorld call.world with
  | true => exact ⟨_, .quiet, by simp [Ends, readStatus, hmemory]⟩
  | false =>
    obtain ⟨db, hdir, hshape⟩ := core.look_of_read hmemory hread
    refine ⟨_, .look .world (Local.inBoth_held checked status own ledger) hdir hshape, ?_⟩
    rw [Local.inBoth_hold]
    simp [Ends, readStatus, hmemory]

/-- The usage of a durable world is only read. -/
theorem accountedStorageUsage_follows (env : DeleteEnv) :
    CallFollows key call caller (accountedStorageUsage env call.world) l fun _ l' => l' = l := by
  refine attempt_follows fun core value core' h => ?_
  simp only [bind_eq_ok, pure_eq_ok, Prod.mk.injEq] at h
  obtain ⟨-, -, -, rfl⟩ := h
  rfl

/-- The subject of a durable world is its verified newest body event. -/
theorem captureDeleteSubjectProof_follows (env : DeleteEnv) (hdurable : isMemoryWorld call.world = false) :
    CallFollows key call caller (captureDeleteSubjectProof config env call.world) l
      (Ends (fun subject l' => l' = l ∧ subject.Verified call.world) (· = l)) := by
  refine .attempt (fun core subject core' hkeyed h => ?_) fun core error _ _ => ⟨l, .quiet, rfl⟩
  simp only [bind_eq_ok, mapError_eq_ok, requireSome_eq_ok, pure_eq_ok, Prod.mk.injEq] at h
  obtain ⟨head, hhead, _, rfl, rfl, rfl⟩ := h
  obtain ⟨_, -, hhead⟩ := bind_eq_ok.mp hhead
  refine ⟨l, .quiet, rfl, ?_⟩
  simp only [bind_eq_ok, liftSql_eq_ok] at hhead
  obtain ⟨found, hfound, hhead⟩ := hhead
  cases found with
  | none => cases hhead
  | some db =>
    have hdir : core.view.dir call.world = some (.database db) := by
      unfold Core.openExisting at hfound
      split at hfound
      · cases hfound
      · next db' hdatabase =>
        simp only [bind_eq_ok, pure_eq_ok, Option.some.injEq] at hfound
        obtain ⟨_, -, rfl⟩ := hfound
        exact (core.database_eq_some call.world).mp hdatabase
    obtain ⟨hunique, hids⟩ := hkeyed call.world db hdurable hdir
    exact verifiedLatestBodyHead_verified hunique hids hhead

/-- What a delete knows before its intent: its rows name the world and its subject. -/
structure DeleteSubject.Prepared (subject : DeleteSubject) (world : ValidatedWorldPath) (contentType : String) :
    Prop where
  usage : subject.usage.isSome = !isMemoryWorld world
  job : ∀ kind : AuditEventKind, kind.isDelete = true →
    DeleteJob world ⟨kind, world, subject.bodySha256, contentType, subject.headers⟩

/-- The reads of a delete in front of its intent. -/
theorem prepareDelete_follows {env : DeleteEnv} {request : DeleteRequest}
    (hoperation : call.operation = .delete env request) (hkey : config.hmacKey = key) :
    CallFollows key call caller (prepareDelete config env call.world request) (.inBoth none .unknown [] .unknown)
      (Ends (fun subject l' => subject.Prepared call.world request.contentType ∧ ∃ checked,
          l' = .inBoth checked (readStatus call.world .unknown) [] .unknown ∧
          (isMemoryWorld call.world = false → l'.MayWrite call.operation))
        (fun l' => ∃ checked status, l' = .inBoth checked status [] .unknown)) := by
  have hpreconditions : request.preconditions = call.operation.preconditions := by rw [hoperation]; rfl
  unfold prepareDelete
  rw [hpreconditions]
  refine (checkDeletePreconditions_follows env hkey (Local.inBoth_held _ _ _ _)).bind ?_ ?_
  · rintro _ _ ⟨hmay, checked, rfl⟩
    have hchecked : { Local.inBoth none .unknown [] .unknown with checked := checked } =
        Local.inBoth checked .unknown [] .unknown := rfl
    rw [hchecked] at hmay ⊢
    refine .lift_bind (fun _ _ => ?_) fun _ _ => ⟨_, _, rfl⟩
    refine .lift_bind (fun userHeaders huser => ?_) fun _ _ => ⟨_, _, rfl⟩
    have hnone : userHeaders.deleteSubject = none := by
      have huser := requireSome_eq_ok.mp huser
      unfold AuditHeaders.fromUser at huser
      split at huser
      · cases huser
        rfl
      · cases huser
    refine (readSubject_follows env).bind ?_ fun _ _ h => ⟨_, _, h⟩
    rintro stage _ rfl
    have hmayRead : isMemoryWorld call.world = false →
        (Local.inBoth checked (readStatus call.world .unknown) [] .unknown).MayWrite call.operation :=
      fun hdurable tag htag => hmay hdurable tag htag
    cases hmemory : isMemoryWorld call.world with
    | true =>
      rw [if_pos rfl]
      refine ⟨⟨by simp [hmemory], fun kind hkind => ⟨rfl, hkind, fun _ => hnone, ?_⟩⟩, checked, rfl, ?_⟩
      · rw [hmemory]
        intro hdurable
        cases hdurable
      · intro hdurable
        cases hdurable
    | false =>
      rw [if_neg Bool.false_ne_true]
      refine (accountedStorageUsage_follows env).bind ?_ (by rintro _ _ rfl; exact ⟨_, _, rfl⟩)
      rintro usage _ rfl
      refine (captureDeleteSubjectProof_follows env hmemory).bind ?_ fun _ _ h => ⟨_, _, h⟩
      rintro subject _ ⟨rfl, hverified⟩
      refine ⟨⟨by simp [hmemory], fun kind hkind => ⟨rfl, hkind, ?_, fun _ => ⟨subject, rfl, hverified, rfl⟩⟩⟩,
        checked, rfl, fun _ => hmayRead hmemory⟩
      rw [hmemory]
      intro hmemory
      cases hmemory
  · rintro _ _ rfl
    exact ⟨_, _, rfl⟩

/-- A row of the ledger that a delete of a world committed. -/
structure LedgerRow (world : ValidatedWorldPath) (kind : AuditEventKind) (event : AppendedLedgerEvent) : Prop where
  kind_eq : event.eventType = kind
  target_eq : event.target = world

/-- The entries of a delete in the journal, by its outcome. -/
inductive DeleteOwn (world : ValidatedWorldPath) (caller : Nat) : Except DeleteError Unit → List JournalEntry → Prop where
  | refused (error : DeleteError) : DeleteOwn world caller (.error error) []
  | intended {intent : AppendedLedgerEvent} (hintent : LedgerRow world .deleteIntent intent) :
      DeleteOwn world caller (.error .deleteFailedAfterIntent) [.logged caller intent]
  | removed {intent : AppendedLedgerEvent} (hintent : LedgerRow world .deleteIntent intent) :
      DeleteOwn world caller (.error .auditCommitFailed) [.logged caller intent, .removed caller world]
  | failed {intent failed : AppendedLedgerEvent} (hintent : LedgerRow world .deleteIntent intent)
      (hfailed : LedgerRow world .deleteCommitFailed failed) :
      DeleteOwn world caller (.error .auditCommitFailed)
        [.logged caller intent, .removed caller world, .logged caller failed]
  | committed {intent commit : AppendedLedgerEvent} (hintent : LedgerRow world .deleteIntent intent)
      (hcommit : LedgerRow world .deleteCommit commit) :
      DeleteOwn world caller (.ok ()) [.logged caller intent, .removed caller world, .logged caller commit]

/-- The local state at the end of a delete under both locks. -/
def DeleteBody (call : Call) (caller : Nat) (outcome : Except DeleteError Unit) (l : Local) : Prop :=
  ∃ checked status own ledger, l = .inBoth checked status own ledger ∧ DeleteOwn call.world caller outcome own

omit [HashSuite] in
/-- A delete from memory that reports a removal has removed the entry. -/
theorem MemoryStore.map_of_delete {store store' : MemoryStore} {world : ValidatedWorldPath}
    (h : store.delete world = (true, store')) : store'.map = store.map.erase world := by
  unfold MemoryStore.delete at h
  split at h
  · cases h
  · split at h
    · cases h
    · cases h
      rfl

/-- The outcome of a removal: a failure leaves everything as it was. -/
def Removes (before after : Local) : Except DeleteError Unit → Local → Prop
  | .ok _, l => l = after
  | .error error, l => error = .deleteFailedAfterIntent ∧ l = before

section Removal

variable (env : DeleteEnv) {checked : Option String} {ledger : Status} {own : List JournalEntry}

omit [HashSuite] in
/-- A removal fails in one way. -/
theorem removeWorld_error {removed : Bool × Core} {world : ValidatedWorldPath} {error : DeleteError}
    (h : (match removed with
      | (true, core) => pure ((), { core with journal := core.journal ++ [.removed caller world] })
      | (false, _) => throw .deleteFailedAfterIntent : Except DeleteError (Unit × Core)) = .error error) :
    error = .deleteFailedAfterIntent := by
  obtain ⟨_ | _, _⟩ := removed <;> cases h
  rfl

/-- The removal of a world in memory. -/
theorem removeWorld_memory_follows (hmemory : isMemoryWorld call.world = true)
    (hintent : (Local.inBoth checked .unknown own ledger).HasIntent caller call.world) :
    CallFollows key call caller (removeWorld caller env call.world) (.inBoth checked .unknown own ledger)
      (Removes (.inBoth checked .unknown own ledger)
        (.inBoth none .unknown (own ++ [.removed caller call.world]) ledger)) := by
  refine .attempt (fun core value core' _ h => ?_) fun core error _ h => ⟨_, .quiet, removeWorld_error h, rfl⟩
  unfold Core.deleteWorldNow at h
  rw [hmemory, if_pos rfl] at h
  split at h
  · next removed hremoved =>
    obtain ⟨hdelete, rfl⟩ := Prod.mk.inj hremoved
    cases h
    have hmap := MemoryStore.map_of_delete (Prod.ext hdelete rfl)
    refine ⟨_, ?_, rfl⟩
    have hstep := @Protocol.removeMemory _ key call caller core.view _ _
      (Local.inBoth_held checked .unknown own ledger) hmemory hintent
    have hview : (core.view.setEntry call.world none).record (.removed caller call.world) =
        Core.view { core with
          mem := (core.mem.delete call.world).2
          journal := core.journal ++ [JournalEntry.removed caller call.world] } := by
      simp only [Core.view, View.setEntry, View.record, hmap, lookup_erase_eq_update]
    rw [hview] at hstep
    exact hstep
  · cases h

/-- The removal of a durable world. -/
theorem removeWorld_durable_follows (hdurable : isMemoryWorld call.world = false) {opened : OpenedWorldKind}
    (hmay : (Local.inBoth checked (.ready opened) own ledger).MayWrite call.operation)
    (hintent : (Local.inBoth checked (.ready opened) own ledger).HasIntent caller call.world)
    (hdelete : call.operation.isWrite = false) :
    CallFollows key call caller (removeWorld caller env call.world) (.inBoth checked (.ready opened) own ledger)
      (Removes (.inBoth checked (.ready opened) own ledger)
        ((Local.inBoth none .unknown (own ++ [.removed caller call.world]) ledger).owe {.discount})) := by
  refine .attempt (fun core value core' _ h => ?_) fun core error _ h => ⟨_, .quiet, removeWorld_error h, rfl⟩
  unfold Core.deleteWorldNow at h
  rw [hdurable, if_neg Bool.false_ne_true] at h
  split_ifs at h
  · cases h
    have hstep := @Protocol.remove _ key call caller core.view _ _ _
      (Local.inBoth_held checked (.ready opened) own ledger) hdurable hmay hintent hdelete
    rw [Local.inBoth_hold] at hstep
    have hview : (core.view.setDir call.world none).record (.removed caller call.world) =
        Core.view { core with
          data := core.data.erase call.world
          journal := core.journal ++ [JournalEntry.removed caller call.world] } := by
      simp only [Core.view, View.setDir, View.record, lookup_erase_eq_update]
    rw [hview] at hstep
    exact ⟨_, hstep, rfl⟩

/-- The counters after the removal of a durable world. -/
theorem forgetUsage_follows (usage : StorageUsageSnapshot) (hremoved : .removed caller call.world ∈ own) :
    CallFollows key call caller (forgetUsage (some usage))
      ((Local.inBoth checked status own ledger).owe {.discount})
      (Returns fun _ l' => l' = .inBoth checked status own ledger) := by
  have hmay : call.operation.isWrite = true ∨ .removed caller call.world ∈
      ((Local.inBoth checked status own ledger).owe {.discount}).own := .inr hremoved
  have hsubtract : CallFollows key call caller (subtractStorageUsage usage : Prog Core DeleteError PUnit)
      ((Local.inBoth checked status own ledger).owe {.discount})
      (Returns fun _ l' => l' = (Local.inBoth checked status own ledger).owe {.discount}) := by
    refine (account_follows (fun _ => by exact ⟨_, rfl⟩) hmay).bind_returns ?_
    rintro _ _ rfl
    refine (account_follows (fun _ => by exact ⟨_, rfl⟩) hmay).bind_returns ?_
    rintro _ _ rfl
    refine (account_follows (fun _ => by exact ⟨_, rfl⟩) hmay).bind_returns ?_
    rintro _ _ rfl
    exact modify_follows fun _ => rfl
  refine hsubtract.bind_returns ?_
  rintro _ _ rfl
  refine .modify fun core _ => ⟨_, .discount (Local.inBoth_held checked status own ledger) ?_, _, rfl, ?_⟩
  · simp [Local.owe]
  · simp [Local.done, Local.owe, Local.inBoth, Local.inDelete, Local.hold]

end Removal

section Rows

variable {env : DeleteEnv} {checked : Option String} {ledger : Status} {own : List JournalEntry}
  {subject : DeleteSubject} {contentType : String}

/-- A row of the ledger that a delete appends under both locks. -/
theorem deleteRow_follows (hkey : config.hmacKey = key) (hprepared : subject.Prepared call.world contentType)
    {kind : AuditEventKind} (hkind : kind.isDelete = true)
    (hremoved : kind ≠ .deleteIntent → .removed caller call.world ∈ own)
    (hdelete : call.operation.isWrite = false) (ledgerEnv : LedgerEnv) :
    CallFollows key call caller (appendLedgerEventAndNotify config caller ledgerEnv
        ⟨kind, call.world, subject.bodySha256, contentType, subject.headers⟩) (.inBoth checked status own ledger)
      (Ends (fun event l' => LedgerRow call.world kind event ∧ ∃ opened, l' =
          (Local.inBoth checked status (own ++ [.logged caller event]) (.ready opened)).owe
            (if kind = .deleteIntent then {.countLedger} else ∅))
        (fun l' => ∃ ledger, l' = .inBoth checked status own ledger)) := by
  have hheld : ((Local.inDelete checked status own).held .world).isSome = true := by
    simp [Local.inDelete, Local.hold]
  refine (appendLedgerEventAndNotify_follows hkey hheld (hprepared.job kind hkind) hremoved hdelete ledgerEnv).mono ?_
  rintro (_ | event) l' h
  · exact h
  · obtain ⟨⟨hkind, htarget, -⟩, opened, rfl⟩ := h
    exact ⟨⟨hkind, htarget⟩, opened, rfl⟩

/-- A row of the ledger that a delete appends after the removal, with its outcome as a value. -/
theorem deleteRow_result_follows (hkey : config.hmacKey = key) (hprepared : subject.Prepared call.world contentType)
    (kind : AuditEventKind) (hkind : kind.isDelete = true) (hintent : kind ≠ .deleteIntent)
    (hremoved : .removed caller call.world ∈ own) (hdelete : call.operation.isWrite = false) (ledgerEnv : LedgerEnv) :
    CallFollows key call caller ((appendLedgerEventAndNotify config caller ledgerEnv
        ⟨kind, call.world, subject.bodySha256, contentType, subject.headers⟩).result :
        Prog Core DeleteError (Except BlockingSqliteError AppendedLedgerEvent)) (.inBoth checked status own ledger)
      (Returns fun outcome l' => ∃ ledger, match outcome with
        | .ok event => LedgerRow call.world kind event ∧
            l' = .inBoth checked status (own ++ [.logged caller event]) ledger
        | .error _ => l' = .inBoth checked status own ledger) := by
  refine .result ((deleteRow_follows hkey hprepared hkind (fun _ => hremoved) hdelete ledgerEnv).mono ?_)
  rintro (error | event) l' h
  · obtain ⟨ledger, rfl⟩ := h
    exact ⟨_, rfl, ledger, rfl⟩
  · obtain ⟨hrow, opened, rfl⟩ := h
    refine ⟨_, rfl, .ready opened, hrow, ?_⟩
    simp [hintent, Local.owe, Local.inBoth, Local.inDelete, Local.hold]

/-- The commit row of a delete, or the row that says that it failed. -/
theorem commitDelete_follows (hkey : config.hmacKey = key) (hprepared : subject.Prepared call.world contentType)
    {intent : AppendedLedgerEvent} (hintent : LedgerRow call.world .deleteIntent intent)
    (hdelete : call.operation.isWrite = false) :
    CallFollows key call caller (commitDelete config caller env fun kind =>
        ⟨kind, call.world, subject.bodySha256, contentType, subject.headers⟩)
      (.inBoth checked status [.logged caller intent, .removed caller call.world] ledger)
      (DeleteBody call caller) := by
  have hremoved : JournalEntry.removed caller call.world ∈
      [.logged caller intent, .removed caller call.world] := by simp
  refine (deleteRow_result_follows hkey hprepared .deleteCommit rfl nofun hremoved hdelete env.commit).bind_returns ?_
  rintro (_ | commit) l' ⟨ledger, h⟩
  · obtain rfl := h
    refine (deleteRow_result_follows hkey hprepared .deleteCommitFailed rfl nofun hremoved hdelete
      env.commitFailed).bind_returns ?_
    rintro (_ | failed) l' ⟨ledger, h⟩
    · obtain rfl := h
      exact ⟨checked, status, _, ledger, rfl, .removed hintent⟩
    · obtain ⟨hfailed, rfl⟩ := h
      exact ⟨checked, status, _, ledger, rfl, .failed hintent hfailed⟩
  · obtain ⟨hcommit, rfl⟩ := h
    exact ⟨checked, status, _, ledger, rfl, .committed hintent hcommit⟩

end Rows

/-- After the intent row, the ledger counts as a world. -/
theorem countLedger_follows {l : Local} {opened : OpenedWorldKind} (hheld : l.held .ledger = some ⟨.ready opened, []⟩)
    (hduties : l.duties = ∅) :
    CallFollows key call caller (Prog.modify fun core =>
        if core.deleteLedgerCreated then core
        else { core with deleteLedgerCreated := true, durableWorldCount := core.durableWorldCount + 1 } :
          Prog Core DeleteError PUnit)
      (l.owe {.countLedger}) (Returns fun _ l' => l' = l) := by
  have hdone : (l.owe {.countLedger}).done .countLedger = l := by
    obtain ⟨held, duties, checked, own⟩ := l
    obtain rfl : duties = ∅ := hduties
    simp [Local.owe, Local.done]
  refine .modify fun core _ => ⟨(l.owe {.countLedger}).done .countLedger, ?_, _, rfl, hdone⟩
  have hview : (if core.deleteLedgerCreated then core
      else { core with deleteLedgerCreated := true, durableWorldCount := core.durableWorldCount + 1 }).view =
      { core.view with
        count := if core.view.ledgerCreated then core.view.count else core.view.count + 1
        ledgerCreated := true } := by
    cases hcreated : core.deleteLedgerCreated <;> simp [Core.view, hcreated]
  rw [hview]
  exact .countLedger hheld (by simp [Local.owe])

/-- The duty that a removal leaves. -/
def removalDuties (world : ValidatedWorldPath) : Finset Duty :=
  if isMemoryWorld world then ∅ else {.discount}

section Removed

variable {checked : Option String} {ledger : Status} {own : List JournalEntry}

/-- The removal of the world of a delete. -/
theorem removeWorld_follows (env : DeleteEnv)
    (hintent : (Local.inBoth checked (readStatus call.world .unknown) own ledger).HasIntent caller call.world)
    (hmay : isMemoryWorld call.world = false →
      (Local.inBoth checked (readStatus call.world .unknown) own ledger).MayWrite call.operation)
    (hdelete : call.operation.isWrite = false) :
    CallFollows key call caller (removeWorld caller env call.world)
      (.inBoth checked (readStatus call.world .unknown) own ledger)
      (Removes (.inBoth checked (readStatus call.world .unknown) own ledger)
        ((Local.inBoth none .unknown (own ++ [.removed caller call.world]) ledger).owe
          (removalDuties call.world))) := by
  unfold removalDuties
  cases hmemory : isMemoryWorld call.world with
  | true =>
    rw [readStatus, hmemory, if_pos rfl] at hintent ⊢
    exact removeWorld_memory_follows env hmemory hintent
  | false =>
    have hmay := hmay hmemory
    rw [readStatus, hmemory, if_neg Bool.false_ne_true] at hintent hmay ⊢
    exact removeWorld_durable_follows env hmemory hmay hintent hdelete

/-- The counters after the removal of the world of a delete. -/
theorem forgetRemoved_follows {subject : DeleteSubject} {contentType : String}
    (hprepared : subject.Prepared call.world contentType) (hremoved : .removed caller call.world ∈ own) :
    CallFollows key call caller (forgetUsage subject.usage)
      ((Local.inBoth checked status own ledger).owe (removalDuties call.world))
      (Returns fun _ l' => l' = .inBoth checked status own ledger) := by
  have husage := hprepared.usage
  unfold removalDuties
  cases hmemory : isMemoryWorld call.world with
  | true =>
    have hnone : subject.usage = none := by simpa [hmemory] using husage
    rw [hnone]
    exact ⟨_, rfl, rfl⟩
  | false =>
    rw [hmemory] at husage
    obtain ⟨usage, husage⟩ := Option.isSome_iff_exists.mp (husage.trans rfl)
    rw [husage]
    exact forgetUsage_follows usage hremoved

end Removed

/-- `delete_blocking` follows the protocol. -/
theorem deleteBlocking_follows {env : DeleteEnv} {request : DeleteRequest}
    (hoperation : call.operation = .delete env request) (hkey : config.hmacKey = key) :
    CallFollows key call caller (deleteBlocking config caller env call.world request)
      (.inBoth none .unknown [] .unknown) (DeleteBody call caller) := by
  refine (beginFileOp_follows _).bind ?_ (by rintro error _ rfl; exact ⟨_, _, _, _, rfl, .refused error⟩)
  rintro _ _ rfl
  refine (prepareDelete_follows hoperation hkey).bind ?_
    (by rintro error _ ⟨checked, status, rfl⟩; exact ⟨_, _, _, _, rfl, .refused error⟩)
  rintro subject _ ⟨hprepared, checked, rfl, hmay⟩
  have hdelete : call.operation.isWrite = false := by rw [hoperation]; rfl
  refine (deleteRow_follows hkey hprepared rfl nofun hdelete env.intent).mapError_ends.bind ?_
    (by rintro error _ ⟨ledger, rfl⟩; exact ⟨_, _, _, _, rfl, .refused error⟩)
  rintro intent _ ⟨hintent, opened, rfl⟩
  refine (countLedger_follows (Local.hold_held _ _ _) rfl).bind_returns ?_
  rintro _ _ rfl
  have hforget : CallFollows key call caller (Prog.modify fun core =>
      { core with writeConns := core.writeConns.erase call.world } : Prog Core DeleteError PUnit)
      (.inBoth checked (readStatus call.world .unknown) [.logged caller intent] (.ready opened))
      (Returns fun _ l' => l' = .inBoth checked (readStatus call.world .unknown) [.logged caller intent]
        (.ready opened)) := by
    refine .modify fun core _ => ⟨_, ?_, _, rfl, rfl⟩
    rw [core.view_writeConns call.world (lookup_erase_eq_update _ _)]
    exact .forget (Local.inBoth_held _ _ _ _)
  refine hforget.bind_returns ?_
  rintro _ _ rfl
  have hhasIntent : (Local.inBoth checked (readStatus call.world .unknown) [.logged caller intent]
      (.ready opened)).HasIntent caller call.world :=
    ⟨intent, List.mem_singleton.mpr rfl, hintent.kind_eq, hintent.target_eq⟩
  refine (removeWorld_follows env hhasIntent (fun hdurable => hmay hdurable) hdelete).bind ?_
    (by rintro error _ ⟨rfl, rfl⟩; exact ⟨_, _, _, _, rfl, .intended hintent⟩)
  rintro _ _ rfl
  refine (modify_follows fun _ => rfl).bind_returns ?_
  rintro _ _ rfl
  refine (forgetRemoved_follows hprepared (by simp)).bind_returns ?_
  rintro _ _ rfl
  refine (notifyWithAux_signal_follows config _ _ _ _ rfl).bind_returns ?_
  rintro _ _ rfl
  exact commitDelete_follows hkey hprepared hintent hdelete

/-- What a delete that ended has committed. -/
def DeletePost (call : Call) (caller : Nat) (outcome : Except DeleteError Unit) (l : Local) : Prop :=
  ∃ own, l.Ended own ∧ DeleteOwn call.world caller outcome own

/-- `delete` follows the protocol. -/
theorem delete_follows {env : DeleteEnv} {request : DeleteRequest}
    (hoperation : call.operation = .delete env request) (hkey : config.hmacKey = key)
    (hworld : call.world ≠ deleteLedgerWorld) :
    CallFollows key call caller (delete config caller env call.world request) .idle (DeletePost call caller) := by
  refine withWorldLock_follows hworld rfl rfl (withStreamLock_follows hworld rfl rfl ?_)
  refine (deleteBlocking_follows hoperation hkey).mono ?_
  rintro outcome _ ⟨checked, status, own, ledger, rfl, hown⟩
  refine ⟨⟨ledger, Local.hold_held _ _ _⟩, Finset.disjoint_empty_left _, ⟨status, ?_⟩,
    Finset.disjoint_empty_left _, own, ⟨?_, rfl, rfl⟩, hown⟩
  · simp [Local.release, Local.inBoth, Local.inDelete, Local.hold]
  · funext slot
    cases slot <;> simp [Local.release, Local.inBoth, Local.inDelete, Local.hold, Local.idle]

end Delete

/-- What a call that ended has committed. -/
inductive CallPost (call : Call) (caller : Nat) : Except CallError Reply → Local → Prop
  | refused (error : CallError) {l : Local} (hended : l.Ended []) : CallPost call caller (.error error) l
  | written {outcome : WriteOutcome} {l : Local} (hwrite : call.operation.isWrite = true)
      (hreturned : WriteReturned call caller outcome l) : CallPost call caller (.ok (.written outcome)) l
  | deleteFailed (error : DeleteError) {l : Local} {own : List JournalEntry} (hdelete : call.operation.isWrite = false)
      (hended : l.Ended own) (hown : DeleteOwn call.world caller (.error error) own) :
      CallPost call caller (.error (.delete error)) l
  | deleted {l : Local} {own : List JournalEntry} (hdelete : call.operation.isWrite = false) (hended : l.Ended own)
      (hown : DeleteOwn call.world caller (.ok ()) own) : CallPost call caller (.ok .deleted) l

omit [HashSuite] in
/-- Only deletes of the engine touch the ledger. -/
theorem authorizeWrite_ne_ledger {world : ValidatedWorldPath} {tier : Tier}
    (h : authorizeWrite world tier = .ok ()) : world ≠ deleteLedgerWorld := by
  rintro rfl
  simp only [authorizeWrite, bind_eq_ok, rejectIf_eq_ok] at h
  obtain ⟨_, -, h⟩ := h
  exact absurd h (by decide +kernel)

omit [HashSuite] in
/-- The ledger is never the world of a delete. -/
theorem authorizeDelete_ne_ledger {world : ValidatedWorldPath} {tier : Tier}
    (h : authorizeDelete world tier = .ok ()) : world ≠ deleteLedgerWorld := by
  rintro rfl
  simp only [authorizeDelete, bind_eq_ok, rejectIf_eq_ok] at h
  obtain ⟨_, -, h⟩ := h
  exact absurd h (by decide +kernel)

/-- The shutdown flag is only read. -/
theorem ensureNotShutdown_follows {ε : Type} {l : Local} (error : ε) :
    CallFollows key call caller (ensureNotShutdown error) l fun _ l' => l' = l := by
  refine attempt_follows fun core value core' h => ?_
  simp only [bind_eq_ok, pure_eq_ok, Prod.mk.injEq] at h
  obtain ⟨-, -, -, rfl⟩ := h
  rfl

section Program

variable {config : Config}

omit [HashSuite] in
/-- A call that has not started has nothing to give back. -/
theorem Local.idle_ended : Local.idle.Ended [] := ⟨rfl, rfl, rfl⟩

/-- A replace of the engine follows the protocol. -/
theorem engineReplace_follows {env : WriteEnv} {request : ReplaceRequest}
    (hoperation : call.operation = .replace env request) (hkey : config.hmacKey = key) :
    CallFollows key call caller (engineReplace config caller call.world call.tier env request) .idle
      (CallPost call caller) := by
  refine .lift_bind (fun _ hauthorized => ?_) fun error _ => .refused error Local.idle_ended
  have hworld := authorizeWrite_ne_ledger (mapError_eq_ok.mp hauthorized)
  refine (ensureNotShutdown_follows _).bind ?_ (by rintro error _ rfl; exact .refused error Local.idle_ended)
  rintro _ _ rfl
  refine .lift_bind (fun _ _ => ?_) fun error _ => .refused error Local.idle_ended
  refine (replaceWrite_follows hoperation hkey hworld).mapError_ends.bind ?_ fun error _ h => .refused error h
  intro outcome l' hreturned
  exact .written (by rw [hoperation]; rfl) hreturned

/-- An append of the engine follows the protocol. -/
theorem engineAppend_follows {env : WriteEnv} {request : AppendRequest}
    (hoperation : call.operation = .append env request) (hkey : config.hmacKey = key) :
    CallFollows key call caller (engineAppend config caller call.world call.tier env request) .idle
      (CallPost call caller) := by
  refine .lift_bind (fun _ hauthorized => ?_) fun error _ => .refused error Local.idle_ended
  have hworld := authorizeWrite_ne_ledger (mapError_eq_ok.mp hauthorized)
  refine (ensureNotShutdown_follows _).bind ?_ (by rintro error _ rfl; exact .refused error Local.idle_ended)
  rintro _ _ rfl
  refine (appendWrite_follows hoperation hkey hworld).mapError_ends.bind ?_ fun error _ h => .refused error h
  intro outcome l' hreturned
  exact .written (by rw [hoperation]; rfl) hreturned

/-- A delete of the engine follows the protocol. -/
theorem engineDelete_follows {env : DeleteEnv} {request : DeleteRequest}
    (hoperation : call.operation = .delete env request) (hkey : config.hmacKey = key) :
    CallFollows key call caller (engineDelete config caller call.world call.tier env request) .idle
      (CallPost call caller) := by
  have hdelete : call.operation.isWrite = false := by rw [hoperation]; rfl
  refine .lift_bind (fun _ hauthorized => ?_) fun error _ => .refused error Local.idle_ended
  have hworld := authorizeDelete_ne_ledger (mapError_eq_ok.mp hauthorized)
  refine (ensureNotShutdown_follows _).bind ?_ (by rintro error _ rfl; exact .refused error Local.idle_ended)
  rintro _ _ rfl
  have hrun : CallFollows key call caller ((delete config caller env call.world request).mapError CallError.delete)
      .idle fun outcome => CallPost call caller (outcome.map fun _ => Reply.deleted) := by
    refine .mapError ((delete_follows hoperation hkey hworld).mono ?_)
    rintro (error | _) l' ⟨own, hended, hown⟩
    · exact .deleteFailed error hdelete hended hown
    · exact .deleted hdelete hended hown
  exact hrun.bind (fun _ _ h => h) fun _ _ h => h

/-- The program of a call follows the protocol. -/
theorem Call.program_follows (call : Call) (hkey : config.hmacKey = key) :
    CallFollows key call caller (call.program config caller) .idle (CallPost call caller) := by
  unfold Call.program
  split
  · next hoperation => exact engineReplace_follows hoperation hkey
  · next hoperation => exact engineAppend_follows hoperation hkey
  · next hoperation => exact engineDelete_follows hoperation hkey

end Program

end AuditeDB
