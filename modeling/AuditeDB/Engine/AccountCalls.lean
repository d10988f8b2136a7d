import Mathlib
import AuditeDB.Engine.AccountSteps

/-!
# The storage counters of the calls

Replaces, appends and deletes keep the books: whatever their outcome, they give their locks back with counters that
hold what their worlds take.
-/

namespace AuditeDB

open Results Interleaving Bookkeeping

/-- The database of a directory. -/
def databaseOf : Option WorldDir → Option Database
  | some (.database db) => some db
  | _ => none

/-- The database of a directory that has none. -/
theorem databaseOf_eq_none {dir : Option WorldDir} (hdir : ∀ db, dir ≠ some (.database db)) : databaseOf dir = none := by
  match dir with
  | none => rfl
  | some .empty => rfl
  | some (.database db) => exact absurd rfl (hdir db)

/-- The database of a directory that has one. -/
theorem databaseOf_eq_some {dir : Option WorldDir} {db : Database} (h : databaseOf dir = some db) :
    dir = some (.database db) := by
  match dir with
  | none => cases h
  | some .empty => cases h
  | some (.database db) =>
    cases h
    rfl

/-- An opened database is the one of the directory. -/
theorem Core.openExisting_eq_ok {core : Core} {world : ValidatedWorldPath} {found : Option Database}
    (h : core.openExisting world = .ok found) : found = databaseOf (core.data.lookup world) := by
  have hdatabase : core.database world = databaseOf (core.data.lookup world) := rfl
  unfold openExisting at h
  rw [← hdatabase]
  cases hfound : core.database world with
  | none =>
    rw [hfound] at h
    cases h
    rfl
  | some db =>
    rw [hfound] at h
    simp only [bind_eq_ok, pure_eq_ok] at h
    obtain ⟨_, -, rfl⟩ := h
    rfl

variable [HashSuite] {key : AuditHmacKey} {quota : Nat} {world : ValidatedWorldPath} {ε α : Type} {a : Account}
  {slot : Slot} {dir : Option WorldDir} {c : Charge} {config : Config}

/-- Renaming errors keeps what holds at every outcome. -/
theorem mapError_books {ε' : Type} {rename : ε → ε'} {program : Prog Core ε α} {P : Account → Prop}
    (h : BooksFollow key quota world program a fun _ => P) :
    BooksFollow key quota world (program.mapError rename) a fun _ => P :=
  .mapError h

section Preflight

variable {body : Bytes} {retained : RetainedBodyCount} {db : Database}

/-- A new database has no bodies to prune. -/
theorem prunableBodyLenAfterNextBody_created (generation : WorldGeneration) :
    prunableBodyLenAfterNextBody body retained (createdUpTo generation 11) = .ok 0 := by
  unfold prunableBodyLenAfterNextBody retainedFloorAfterNextBody
  by_cases hone : retained.count = 1
  · rw [if_neg (by rw [hone]; exact Nat.lt_irrefl 1), if_pos hone]
    rfl
  · have hpositive := retained.positive
    have hcount : (createdUpTo generation 11).bodyEvents.length + 1 < retained.count := by
      show 0 + 1 < retained.count
      omega
    rw [if_pos hcount]
    rfl

/-- The preflight of a replace is the same before and after the database was opened. -/
theorem Reopened.snapshot_eq (h : Reopened key world dir db) :
    replaceQuotaSnapshot body retained (databaseOf dir) = replaceQuotaSnapshot body retained (some db) := by
  cases h with
  | existing hdir hsame hrep =>
    rw [hdir, hsame]
    rfl
  | created hdir generation hdb =>
    rw [databaseOf_eq_none hdir, hdb]
    simp only [replaceQuotaSnapshot, prunableBodyLenAfterNextBody_created]
    rfl

/-- The estimates of an append are the same before and after the database was opened. -/
theorem Reopened.estimates_eq (h : Reopened key world dir db) (body : Bytes) (retained : RetainedBodyCount)
    {older : Database} (hdir : databaseOf dir = some older) :
    appendBodyLenIfMissing body older = appendBodyLenIfMissing body db ∧
      appendPrunableBodyLenAfterNextWrite body retained older = appendPrunableBodyLenAfterNextWrite body retained db ∧
      older.liveBytes = db.liveBytes := by
  cases h with
  | existing hfound hsame hrep =>
    rw [hfound] at hdir
    cases hdir
    rw [hsame]
    exact ⟨rfl, rfl, rfl⟩
  | created hfound =>
    rw [databaseOf_eq_none hfound] at hdir
    cases hdir

end Preflight

section Writes

variable {env : WriteEnv} {body : Bytes} {result : WriteAuditResult} {pending : PendingStorageReservation}
  {old new : Charge}

/-- The charges of a world after the reservation of storage. -/
def PendingStorageReservation.reserved (pending : PendingStorageReservation) (old : Charge) : Charge :=
  { old with body := old.body + pending.reservedIncrease }

/-- The charges of a world between the reservations of a write and its settlement. -/
def PendingStorageReservation.charge (pending : PendingStorageReservation) (old : Charge) : Charge :=
  { old with body := old.body + pending.reservedIncrease, events := old.events + 2 }

omit [HashSuite] in
/-- What a database takes in body bytes. -/
theorem chargeOf_body (dir : Option WorldDir) : (chargeOf dir).body = (chargeOf dir).current + (chargeOf dir).retained := by
  match dir with
  | none => rfl
  | some .empty => rfl
  | some (.database db) => rfl

/-- A read of the database of a held world. -/
theorem readDatabase_books {fault : Option SqlError} {scope : String} {read : Option Database → SqlResult α} :
    BooksFollow key quota world (readDatabase world fault scope read) (a.put .world dir c)
      (Ends (fun value a' => a' = a.put .world dir c ∧ read (databaseOf dir) = .ok value) (· = a.put .world dir c)) := by
  refine .attempt (fun core value core' hagrees h => ?_) fun core error _ _ => ⟨_, .quiet, rfl⟩
  simp only [bind_eq_ok, mapError_eq_ok, pure_eq_ok, Prod.mk.injEq] at h
  obtain ⟨_, hread, rfl, rfl⟩ := h
  obtain ⟨_, -, hread⟩ := bind_eq_ok.mp hread
  obtain ⟨found, hfound, hread⟩ := bind_eq_ok.mp hread
  have hitem : core.data.lookup world = dir := hagrees.item .world _ (Account.put_self ..)
  rw [Core.openExisting_eq_ok hfound, hitem] at hread
  exact ⟨_, .quiet, rfl, hread⟩

/-- The size of a reservation. -/
theorem reserveNewLen_books (bodyLen candidateLen : Nat) :
    BooksFollow key quota world (reserveNewLen config bodyLen candidateLen) a
      (Ends (fun newLen a' => a' = a ∧ newLen = bodyLen + candidateLen) (· = a)) := by
  refine .attempt (fun core value core' _ h => ?_) fun core error _ _ => ⟨_, .quiet, rfl⟩
  simp only [bind_eq_ok, requireSome_eq_ok, pure_eq_ok, Prod.mk.injEq] at h
  obtain ⟨_, hsum, rfl, rfl⟩ := h
  unfold checkedAdd at hsum
  split_ifs at hsum
  exact ⟨_, .quiet, rfl, (Option.some.inj hsum).symm⟩

/-- A reservation that is given back after a failure. -/
theorem reservedTransaction_books {program : Prog Core WriteError α} {ok : α → Account → Prop}
    (hbody : BooksFollow key quota world program (a.put .world dir (pending.charge (chargeOf dir)))
      (Ends ok (Kept a .world (chargeOf dir) (pending.charge (chargeOf dir))))) :
    BooksFollow key quota world (reservedTransaction pending program)
      (a.put .world dir (pending.reserved (chargeOf dir))) (Ends ok (Kept a .world (chargeOf dir) (chargeOf dir))) := by
  have hreserved : BooksFollow key quota world
      (Prog.bind (reserveAuditEvents (.internal "audit event counter capacity exhausted")) fun _ =>
        Prog.onError (·.creditAuditEvents 2) program)
      (a.put .world dir (pending.reserved (chargeOf dir)))
      (Ends ok (Kept a .world (chargeOf dir) (pending.reserved (chargeOf dir)))) := by
    refine (reserveAuditEvents_books (c := pending.reserved (chargeOf dir)) _ le_rfl).bind ?_
      (by rintro _ _ rfl; exact ⟨dir, rfl, rfl⟩)
    rintro _ _ rfl
    refine hbody.onError_modify (fun _ _ h => h) ?_
    rintro error _ ⟨dir', hdir', rfl⟩
    refine (creditAuditEvents_books (Nat.le_add_left _ _) (by rw [hdir']; exact le_rfl)).mono ?_
    rintro _ _ ⟨_, rfl, rfl⟩
    exact ⟨_, rfl, dir', hdir', rfl⟩
  refine hreserved.onError_modify (fun _ _ h => h) ?_
  rintro error _ ⟨dir', hdir', rfl⟩
  refine (creditStorage_books (Nat.le_add_left _ _)
    (by rw [hdir', PendingStorageReservation.reserved, Nat.add_sub_cancel])).mono ?_
  rintro _ _ ⟨_, rfl, rfl⟩
  exact ⟨_, rfl, dir', hdir', by rw [PendingStorageReservation.reserved, Nat.add_sub_cancel]⟩

/-- The settlement of a committed write leaves what the world takes. -/
theorem settleWrite_books {candidateLen prunableLen prevLen newLen : Nat} (hdir : chargeOf dir = new)
    (hmoves : result.Moves body old new) (hnewLen : newLen = body.length) (hprevLen : prevLen = old.current)
    (hcandidate : candidateLen = result.insertedBytes body) (hprunable : prunableLen = result.prunedCas)
    (hold : old.body = old.current + old.retained)
    (hbalance : old.body + pending.reservedIncrease = new.body + pending.deferredCredit)
    (hquota : old.body + pending.reservedIncrease ≤ quota) :
    BooksFollow key quota world
      (settleWrite pending candidateLen prunableLen prevLen newLen result : Prog Core ε PUnit)
      (a.put .world dir (pending.charge old)) (Returns fun _ a' => a' = a.put .world dir new) := by
  obtain ⟨hcurrent, hretained, hevents⟩ := hmoves
  have hnew : new.body = new.current + new.retained := by
    rw [← hdir]
    exact chargeOf_body dir
  -- the reservation without its deferred part is what the world takes
  refine (creditStorage_books (by simp only [PendingStorageReservation.charge]; omega)
    (by simp only [PendingStorageReservation.charge]; rw [hdir]; omega)).bind_returns ?_
  rintro _ _ rfl
  have hinserted : BooksFollow key quota world (Prog.modify fun core : Core =>
      if result.casBodyInserted then core.adjustRetainedCas 0 newLen else core.creditStorage candidateLen :
        Prog Core ε PUnit)
      (a.put .world dir ⟨new.body, old.current, old.retained, old.events + 2⟩)
      (Returns fun _ a' => a' =
        a.put .world dir ⟨new.body, old.current, old.retained + result.insertedBytes body, old.events + 2⟩) := by
    cases hinsert : result.casBodyInserted with
    | true =>
      have hbytes : result.insertedBytes body = newLen := by simp [WriteAuditResult.insertedBytes, hinsert, hnewLen]
      rw [hbytes]
      simp only [if_true]
      refine (adjustRetainedCas_books (Nat.zero_le _) ?_).mono ?_
      · simp only
        omega
      · rintro _ _ ⟨_, rfl, rfl⟩
        exact ⟨_, rfl, rfl⟩
    | false =>
      have hbytes : result.insertedBytes body = 0 := by simp [WriteAuditResult.insertedBytes, hinsert]
      rw [hbytes] at hcandidate ⊢
      rw [hcandidate]
      simp only [Bool.false_eq_true, if_false]
      refine (creditStorage_books (Nat.zero_le _) (by rw [hdir]; exact le_rfl)).mono ?_
      rintro _ _ ⟨_, rfl, rfl⟩
      exact ⟨_, rfl, rfl⟩
  have hstart : ({ pending.charge old with body := (pending.charge old).body - pending.deferredCredit } : Charge) =
      ⟨new.body, old.current, old.retained, old.events + 2⟩ := by
    simp only [PendingStorageReservation.charge, Charge.mk.injEq, and_true]
    omega
  rw [hstart]
  refine hinserted.bind_returns ?_
  rintro _ _ rfl
  refine (adjustRetainedCas_books (by simp only; omega) (by simp only; omega)).bind_returns ?_
  rintro _ _ rfl
  refine (creditStorage_books (by simp only; omega) (by simp only; rw [hdir]; omega)).bind_returns ?_
  rintro _ _ rfl
  refine (adjustCurrentBody_books (by simp only; omega) (by simp only; omega)).bind_returns ?_
  rintro _ _ rfl
  refine (creditAuditEvents_books (by simp only; omega) (by simp only; rw [hdir]; omega)).mono ?_
  rintro _ _ ⟨_, rfl, rfl⟩
  refine ⟨_, rfl, congrArg (a.put .world dir) ?_⟩
  obtain ⟨body', current', retained', events'⟩ := new
  simp only [Charge.mk.injEq] at *
  omega

omit [HashSuite] in
/-- A reservation is what a write adds, up to the part whose credit is deferred. -/
theorem WriteAuditResult.Moves.balance (hmoves : result.Moves body old new) (hold : old.body = old.current + old.retained)
    (hnew : new.body = new.current + new.retained) {newLen credit : Nat}
    (hlen : newLen + old.current + result.prunedCas = credit + body.length + result.insertedBytes body) :
    old.body + (PendingStorageReservation.mint newLen credit).reservedIncrease =
      new.body + (PendingStorageReservation.mint newLen credit).deferredCredit := by
  obtain ⟨hcurrent, hretained, -⟩ := hmoves
  simp only [PendingStorageReservation.mint]
  omega

omit [HashSuite] in
/-- The reservations of a write cover it. -/
theorem WriteAuditResult.Moves.covers (hmoves : result.Moves body old new)
    (hbalance : old.body + pending.reservedIncrease = new.body + pending.deferredCredit) :
    (pending.charge old).Covers new := by
  have hevents := hmoves.events
  simp only [Charge.Covers, PendingStorageReservation.charge]
  omega

variable {caller : Nat}

/-- A committed transaction replaces the database of its world. -/
theorem commitTransaction_books {opened : OpenedWorldKind} {db : Database}
    {transaction : Bool → Database → WriteResult (WriteAuditResult × Database)}
    (hcover : ∀ verified result db', transaction verified db = .ok (result, db') → c.Covers db'.charge) :
    BooksFollow key quota world (commitTransaction env caller world opened transaction)
      (a.put .world (some (.database db)) c)
      (Ends (fun result a' => ∃ verified db', transaction verified db = .ok (result, db') ∧
        a' = a.put .world (some (.database db')) c) (· = a.put .world (some (.database db)) c)) := by
  refine .attempt (fun core result core' hagrees h => ?_) fun core error _ _ => ⟨_, .quiet, rfl⟩
  simp only [mapError_eq_ok, bind_eq_ok, requireSome_eq_ok, pure_eq_ok, Prod.exists, Prod.mk.injEq] at h
  obtain ⟨_, -, found, hfound, _, db', htransaction, rfl, rfl⟩ := h
  have hitem : core.data.lookup world = some (.database db) := hagrees.item .world _ (Account.put_self ..)
  cases hitem.symm.trans ((core.database_eq_some _).mp hfound)
  obtain ⟨hbody, hevents⟩ := hcover _ _ _ htransaction
  exact ⟨_, replace_step .world (core.books_setDir _ _) hbody hevents, _, db', htransaction, rfl⟩

/-- The connection and the transaction of a replace. -/
theorem replaceTransaction_books (request : ReplaceRequest) {snapshot : ReplaceQuotaSnapshot}
    (hkey : config.hmacKey = key) (hdurable : isMemoryWorld world = false)
    (hsnapshot : replaceQuotaSnapshot request.body config.retainedBodyCount (databaseOf dir) = .ok snapshot)
    (hpending : pending = .mint (request.body.length + snapshot.candidateCasLen)
      (snapshot.previousBodyLen + snapshot.prunableCasLen)) :
    BooksFollow key quota world (replaceTransaction config env caller world request)
      (a.put .world dir (pending.charge (chargeOf dir)))
      (Ends (fun opened a' => ∃ db', opened.2.Moves request.body (chargeOf dir) db'.charge ∧
          snapshot = ⟨(chargeOf dir).current, opened.2.insertedBytes request.body, opened.2.prunedCas⟩ ∧
          a' = a.put .world (some (.database db')) (pending.charge (chargeOf dir)))
        (Kept a .world (chargeOf dir) (pending.charge (chargeOf dir)))) := by
  have hstart : (pending.charge (chargeOf dir)).Covers (chargeOf dir) :=
    ⟨Nat.le_add_right _ _, Nat.le_add_right _ _⟩
  refine (cachedWriteConn_books env.opening hdurable hstart).mapError_ends.bind ?_ fun _ _ h => h
  rintro opened _ ⟨db, hopened, rfl⟩
  have hcharge := hopened.charge_eq
  have hkept : Kept a .world (chargeOf dir) (pending.charge (chargeOf dir))
      (a.put .world (some (.database db)) (pending.charge (chargeOf dir))) := ⟨some (.database db), hcharge, rfl⟩
  obtain ⟨log, hrep⟩ := hopened.represents
  have hpredicted : ∀ {verified result db'}, writeWithAudit config.hmacKey world env.clock verified opened request.body
      request.contentType request.headers config.retainedBodyCount db = .ok (result, db') →
      result.Moves request.body (chargeOf dir) db'.charge ∧
        snapshot = ⟨(chargeOf dir).current, result.insertedBytes request.body, result.prunedCas⟩ := by
    intro verified result db' hwrite
    rw [hkey] at hwrite
    obtain ⟨hmoves, hpreflight⟩ := writeWithAudit_moves hrep hwrite
    rw [← hopened.snapshot_eq, hsnapshot] at hpreflight
    rw [hcharge] at hmoves
    exact ⟨hmoves, by rw [Except.ok.inj hpreflight, ← hcharge]; rfl⟩
  refine .lift_bind (fun _ _ => ?_) fun _ _ => hkept
  refine (commitTransaction_books ?_).bind ?_ (by rintro _ _ rfl; exact hkept)
  · intro verified result db' hwrite
    obtain ⟨hmoves, rfl⟩ := hpredicted hwrite
    refine hmoves.covers ?_
    rw [hpending]
    exact hmoves.balance (chargeOf_body dir) rfl (by simp only; omega)
  · rintro result _ ⟨verified, db', hwrite, rfl⟩
    obtain ⟨hmoves, hsnapshot⟩ := hpredicted hwrite
    have hmark : BooksFollow key quota world (Prog.modify (·.markExisting world) : Prog Core WriteError PUnit)
        (a.put .world (some (.database db')) (pending.charge (chargeOf dir)))
        (Returns fun _ a' => a' = a.put .world (some (.database db')) (pending.charge (chargeOf dir))) := by
      refine modify_books fun core => ?_
      unfold Core.markExisting
      split <;> rfl
    refine hmark.bind_returns ?_
    rintro _ _ rfl
    exact ⟨db', hmoves, hsnapshot, rfl⟩

/-- A held world whose charges are what its directory takes. -/
def Settled (a : Account) (slot : Slot) (a' : Account) : Prop := ∃ dir, a' = a.settle slot dir

omit [HashSuite] in
/-- A world that takes what it took is settled. -/
theorem Kept.settled {charge : Charge} {a' : Account} (h : Kept a slot charge charge a') : Settled a slot a' := by
  obtain ⟨dir, hdir, rfl⟩ := h
  exact ⟨dir, by rw [Account.settle, hdir]⟩

/-- The durable part of a replace. -/
theorem replaceDurable_books (request : ReplaceRequest) (hkey : config.hmacKey = key)
    (hquota : config.storageQuota ≤ quota) (hdurable : isMemoryWorld world = false) :
    BooksFollow key quota world (replaceDurable config env caller world request) (a.settle .world dir)
      fun _ => Settled a .world := by
  refine readDatabase_books.bind ?_ (by rintro _ _ rfl; exact ⟨dir, rfl⟩)
  rintro snapshot _ ⟨rfl, hsnapshot⟩
  refine (reserveNewLen_books _ _).bind ?_ (by rintro _ _ rfl; exact ⟨dir, rfl⟩)
  rintro _ _ ⟨rfl, rfl⟩
  refine (reserveStorageAfterPrune_books hquota _ _ _ le_rfl).bind ?_ (by rintro _ _ rfl; exact ⟨dir, rfl⟩)
  rintro pending _ ⟨hpending, hlimit, rfl⟩
  refine (reservedTransaction_books (replaceTransaction_books request hkey hdurable hsnapshot hpending)).bind ?_
    fun _ _ h => h.settled
  rintro ⟨opened, result⟩ _ ⟨db', hmoves, rfl, rfl⟩
  refine (settleWrite_books rfl hmoves rfl rfl rfl rfl (chargeOf_body dir) ?_ hlimit).bind_returns ?_
  · rw [hpending]
    exact hmoves.balance (chargeOf_body dir) rfl (by simp only; omega)
  rintro _ _ rfl
  refine (modify_books fun core => by split <;> rfl).bind_returns ?_
  rintro _ _ rfl
  exact ⟨some (.database db'), rfl⟩

/-- A storage estimate of an append. -/
theorem appendEstimate_books {fault : Option SqlError} {estimate : Database → SqlResult Nat} :
    BooksFollow key quota world (appendEstimate world fault estimate) (a.put .world dir c)
      (Ends (fun bytes a' => a' = a.put .world dir c ∧ ∃ db, databaseOf dir = some db ∧ estimate db = .ok bytes)
        (· = a.put .world dir c)) := by
  refine readDatabase_books.bind ?_ fun _ _ h => h
  rintro found _ ⟨rfl, hread⟩
  cases hdir : databaseOf dir with
  | none =>
    rw [hdir] at hread
    cases hread
    exact rfl
  | some db =>
    rw [hdir] at hread
    simp only [bind_eq_ok, pure_eq_ok] at hread
    obtain ⟨bytes, hestimate, rfl⟩ := hread
    exact ⟨rfl, db, rfl, hestimate⟩

/-- The connection and the transaction of an append. -/
theorem appendTransaction_books (request : AppendRequest) (contentType : String) (headers : Headers) {db : Database}
    {candidateLen prunableLen : Nat} (hkey : config.hmacKey = key) (hdurable : isMemoryWorld world = false)
    (hdir : databaseOf dir = some db) (hcandidate : appendBodyLenIfMissing request.body db = .ok candidateLen)
    (hprunable : appendPrunableBodyLenAfterNextWrite request.body config.retainedBodyCount db = .ok prunableLen)
    (hpending : pending = .mint (request.body.length + candidateLen) (0 + prunableLen)) :
    BooksFollow key quota world (appendTransaction config env caller world request contentType headers)
      (a.put .world dir (pending.charge (chargeOf dir)))
      (Ends (fun result a' => ∃ whole db', whole.length = db.liveBytes + request.body.length ∧
          result.Moves whole (chargeOf dir) db'.charge ∧ candidateLen = result.insertedBytes whole ∧
          prunableLen = result.prunedCas ∧ a' = a.put .world (some (.database db')) (pending.charge (chargeOf dir)))
        (Kept a .world (chargeOf dir) (pending.charge (chargeOf dir)))) := by
  have hstart : (pending.charge (chargeOf dir)).Covers (chargeOf dir) :=
    ⟨Nat.le_add_right _ _, Nat.le_add_right _ _⟩
  refine (cachedExistingWriteConn_books env.opening hdurable hstart).mapError_ends.bind ?_ fun _ _ h => h
  rintro (_ | opened) _ h
  · obtain rfl := h
    exact ⟨dir, rfl, rfl⟩
  obtain ⟨opened, hopened, rfl⟩ := h
  have hcharge := hopened.charge_eq
  have hkept : Kept a .world (chargeOf dir) (pending.charge (chargeOf dir))
      (a.put .world (some (.database opened)) (pending.charge (chargeOf dir))) :=
    ⟨some (.database opened), hcharge, rfl⟩
  obtain ⟨log, hrep⟩ := hopened.represents
  have hpredicted : ∀ {verified result db'}, appendWithAudit config.hmacKey world env.clock verified request.body
      contentType headers config.retainedBodyCount opened = .ok (result, db') →
      ∃ whole, whole.length = db.liveBytes + request.body.length ∧ result.Moves whole (chargeOf dir) db'.charge ∧
        candidateLen = result.insertedBytes whole ∧ prunableLen = result.prunedCas := by
    intro verified result db' hwrite
    rw [hkey] at hwrite
    obtain ⟨whole, hlength, hmoves, hinserted, hpruned⟩ := appendWithAudit_moves hrep hwrite
    obtain ⟨hsame, hsame', hlive⟩ := hopened.estimates_eq request.body config.retainedBodyCount hdir
    rw [← hsame, hcandidate] at hinserted
    rw [← hsame', hprunable] at hpruned
    rw [hcharge] at hmoves
    exact ⟨whole, by rw [hlength, hlive], hmoves, Except.ok.inj hinserted, Except.ok.inj hpruned⟩
  refine .lift_bind (fun _ _ => ?_) fun _ _ => hkept
  refine .lift_bind (fun _ _ => ?_) fun _ _ => hkept
  have hlive : db.liveBytes = (chargeOf dir).current := by
    rw [databaseOf_eq_some hdir]
    rfl
  refine (commitTransaction_books ?_).mono ?_
  · intro verified result db' hwrite
    obtain ⟨whole, hlength, hmoves, rfl, rfl⟩ := hpredicted hwrite
    refine hmoves.covers ?_
    rw [hpending]
    exact hmoves.balance (chargeOf_body dir) rfl (by omega)
  · rintro (_ | result) _ h
    · obtain rfl := h
      exact hkept
    · obtain ⟨verified, db', hwrite, rfl⟩ := h
      obtain ⟨whole, hlength, hmoves, hinserted, hpruned⟩ := hpredicted hwrite
      exact ⟨whole, db', hlength, hmoves, hinserted, hpruned, rfl⟩

/-- The durable part of an append that starts from the live body. -/
theorem appendDurable_books (request : AppendRequest) {bodyLen projected : Nat} (contentType : String)
    (headers : Headers) {db : Database} (hkey : config.hmacKey = key) (hquota : config.storageQuota ≤ quota)
    (hdurable : isMemoryWorld world = false) (hdir : databaseOf dir = some db) (hbodyLen : bodyLen = db.liveBytes)
    (hprojected : projected = bodyLen + request.body.length) :
    BooksFollow key quota world (appendDurable config env caller world request bodyLen projected contentType headers)
      (a.settle .world dir) fun _ => Settled a .world := by
  have hlive : db.liveBytes = (chargeOf dir).current := by
    rw [databaseOf_eq_some hdir]
    rfl
  refine appendEstimate_books.bind ?_ (by rintro _ _ rfl; exact ⟨dir, rfl⟩)
  rintro candidateLen _ ⟨rfl, _, hfound, hcandidate⟩
  cases hdir.symm.trans hfound
  refine appendEstimate_books.bind ?_ (by rintro _ _ rfl; exact ⟨dir, rfl⟩)
  rintro prunableLen _ ⟨rfl, _, hfound, hprunable⟩
  cases hdir.symm.trans hfound
  refine (reserveNewLen_books _ _).bind ?_ (by rintro _ _ rfl; exact ⟨dir, rfl⟩)
  rintro _ _ ⟨rfl, rfl⟩
  refine (reserveStorageAfterPrune_books hquota _ _ _ le_rfl).bind ?_ (by rintro _ _ rfl; exact ⟨dir, rfl⟩)
  rintro pending _ ⟨hpending, hlimit, rfl⟩
  refine (reservedTransaction_books (appendTransaction_books request contentType headers hkey hdurable hdir hcandidate
    hprunable hpending)).bind ?_ fun _ _ h => h.settled
  rintro result _ ⟨whole, db', hlength, hmoves, rfl, rfl, rfl⟩
  refine (settleWrite_books rfl hmoves (by omega) (by omega) rfl rfl (chargeOf_body dir) ?_ hlimit).bind_returns ?_
  · rw [hpending]
    exact hmoves.balance (chargeOf_body dir) rfl (by omega)
  rintro _ _ rfl
  exact ⟨some (.database db'), rfl⟩

/-- Notifications are not part of the books. -/
theorem notifyWithAux_books (verb : ChangeVerb) (target : ChangeTarget) (etag : String) (aux : ChangeEventAux) :
    BooksFollow key quota world (notifyWithAux config verb target etag aux : Prog Core ε PUnit) a
      (Returns fun _ a' => a' = a) := by
  intro core _ _
  refine ⟨a, .quiet, ?_⟩
  refine (modify_books fun _ => rfl).bind_returns ?_
  rintro _ _ rfl
  exact modify_books fun _ => rfl

/-- The notification of a format row is not part of the books. -/
theorem notifyFormat_books (formatEvent : Option AppendedAuditRow) :
    BooksFollow key quota world (notifyFormat config formatEvent : Prog Core ε PUnit) a
      (Returns fun _ a' => a' = a) := by
  cases formatEvent with
  | none => exact ⟨_, rfl, rfl⟩
  | some row => exact notifyWithAux_books _ _ _ _

/-- The notifications of a durable write. -/
theorem announceWrite_books (verb : ChangeVerb) (opened : OpenedWorldKind) (result : WriteAuditResult) :
    BooksFollow key quota world (announceWrite config verb opened result) a (Returns fun _ a' => a' = a) := by
  refine (notifyFormat_books _).bind_returns ?_
  rintro _ _ rfl
  refine (notifyWithAux_books _ _ _ _).bind_returns ?_
  rintro _ _ rfl
  exact ⟨_, rfl, rfl⟩

/-- A replace in memory is not part of the books. -/
theorem replaceMemory_books (request : ReplaceRequest) :
    BooksFollow key quota world (replaceMemory config caller world request) a fun _ a' => a' = a := by
  refine (attempt_books fun core value core' h => ?_).bind ?_ fun _ _ h => h
  · simp only [bind_eq_ok, mapError_eq_ok, pure_eq_ok, Prod.exists, Prod.mk.injEq] at h
    obtain ⟨_, _, -, -, rfl⟩ := h
    rfl
  · rintro _ _ rfl
    refine (notifyWithAux_books _ _ _ _).bind_returns ?_
    rintro _ _ rfl
    exact rfl

/-- An append in memory is not part of the books. -/
theorem appendMemory_books (request : AppendRequest) :
    BooksFollow key quota world (appendMemory config caller world request) a fun _ a' => a' = a := by
  refine (attempt_books fun core value core' h => ?_).bind ?_ fun _ _ h => h
  · simp only [bind_eq_ok, mapError_eq_ok, requireSome_eq_ok, pure_eq_ok, Prod.exists, Prod.mk.injEq] at h
    obtain ⟨_, -, _, _, -, -, rfl⟩ := h
    rfl
  · rintro _ _ rfl
    refine (notifyWithAux_books _ _ _ _).bind_returns ?_
    rintro _ _ rfl
    exact rfl

/-- `begin_file_op` is not part of the books. -/
theorem beginFileOp_books (error : ε) : BooksFollow key quota world (beginFileOp error) a fun _ a' => a' = a := by
  refine attempt_books fun core value core' h => ?_
  simp only [bind_eq_ok, pure_eq_ok, Prod.mk.injEq] at h
  obtain ⟨-, -, -, rfl⟩ := h
  rfl

/-- The preconditions of a write are only read. -/
theorem checkWritePreconditions_books (preconditions : Preconditions) :
    BooksFollow key quota world (checkWritePreconditions config env world preconditions) a fun _ a' => a' = a := by
  unfold checkWritePreconditions
  split
  · exact rfl
  · refine attempt_books fun core value core' h => ?_
    simp only [bind_eq_ok, pure_eq_ok, Prod.mk.injEq] at h
    obtain ⟨_, -, -, -, -, rfl⟩ := h
    rfl

/-- A call holds the lock of its world while its body runs, and settles before it gives the lock back. -/
theorem withWorldLock_books {program : Prog Core ε α} {post : Except ε α → Account → Prop}
    (hworld : world ≠ deleteLedgerWorld)
    (hbody : ∀ dir, BooksFollow key quota world program (a.settle .world dir) fun outcome a' =>
      (∃ dir', a' .world = some ⟨dir', (chargeOf dir').get⟩) ∧ post outcome (Function.update a' .world none)) :
    BooksFollow key quota world (withWorldLock world program) a post := by
  intro core hagrees hfree
  have hfree : world ∉ core.worldLocks := by simpa using hfree
  have hlocked : core.books.locked world = false := by simp [Core.books, Core.view, hworld, hfree]
  have htaken := core.view_worldLocks world (insert world core.worldLocks) true hworld
    fun path => by by_cases hpath : path = world <;> simp [hpath]
  refine ⟨a.settle .world (core.data.lookup world), ?_, (hbody _).ensuring ?_⟩
  · have hbooks : Core.books { core with worldLocks := insert world core.worldLocks } =
        core.books.setLock world true := by
      simp only [Core.books, Books.setLock, htaken, View.setLock]
    show Booking _ _ core.books a (Core.books { core with worldLocks := insert world core.worldLocks }) _
    rw [hbooks]
    exact Booking.lock Slot.world hlocked
  · rintro outcome a' ⟨⟨dir', hheld⟩, hpost⟩ core' _
    have hgiven := core'.view_worldLocks world (core'.worldLocks.erase world) false hworld
      fun path => by by_cases hpath : path = world <;> simp [hpath]
    have hbooks : Core.books { core' with worldLocks := core'.worldLocks.erase world } =
        core'.books.setLock world false := by
      simp only [Core.books, Books.setLock, hgiven, View.setLock]
    refine ⟨_, ?_, hpost⟩
    rw [hbooks]
    exact Booking.unlock Slot.world hheld

omit [HashSuite] in
/-- A settled world may be given back. -/
theorem Settled.release {a' : Account} (h : Settled .idle .world a') :
    (∃ dir', a' .world = some ⟨dir', (chargeOf dir').get⟩) ∧ Function.update a' .world none = Account.idle := by
  obtain ⟨dir, rfl⟩ := h
  refine ⟨⟨dir, Account.put_self ..⟩, ?_⟩
  rw [Account.settle, Account.put, Function.update_idem]
  exact Function.update_eq_self_iff.mpr rfl

/-- `replace_write` keeps the books. -/
theorem replaceWrite_books (request : ReplaceRequest) (hkey : config.hmacKey = key)
    (hquota : config.storageQuota ≤ quota) (hworld : world ≠ deleteLedgerWorld) :
    BooksFollow key quota world (replaceWrite config env caller world request) .idle fun _ a' => a' = .idle := by
  refine .lift_bind (fun _ _ => ?_) fun _ _ => rfl
  refine withWorldLock_books hworld fun dir => ?_
  have hsettled : Settled .idle .world (Account.idle.settle .world dir) := ⟨dir, rfl⟩
  refine (beginFileOp_books _).bind ?_ (by rintro _ _ rfl; exact hsettled.release)
  rintro _ _ rfl
  refine (checkWritePreconditions_books _).bind ?_ (by rintro _ _ rfl; exact hsettled.release)
  rintro _ _ rfl
  cases hmemory : isMemoryWorld world with
  | true =>
    rw [if_pos rfl]
    refine (replaceMemory_books request).mono ?_
    rintro _ _ rfl
    exact hsettled.release
  | false =>
    rw [if_neg Bool.false_ne_true]
    refine (replaceDurable_books request hkey hquota hmemory).bind ?_ fun _ _ h => h.release
    rintro ⟨opened, result⟩ a' h
    refine (announceWrite_books _ _ _).mono ?_
    rintro _ _ ⟨_, rfl, rfl⟩
    exact h.release

/-- The metadata that an append starts from. -/
theorem appendMetadata_books :
    BooksFollow key quota world (appendMetadata env world) (a.put .world dir c)
      (Ends (fun found a' => a' = a.put .world dir c ∧ (isMemoryWorld world = false → ∀ start ∈ found,
        ∃ db, databaseOf dir = some db ∧ start.1 = db.liveBytes)) (· = a.put .world dir c)) := by
  unfold appendMetadata
  split
  · next hmemory =>
    exact .atomically fun core _ => ⟨_, .quiet, rfl, fun hdurable => by rw [hmemory] at hdurable; cases hdurable⟩
  · refine readDatabase_books.mono ?_
    rintro (_ | found) _ h
    · exact h
    · obtain ⟨rfl, hread⟩ := h
      refine ⟨rfl, fun _ start hstart => ?_⟩
      cases hdir : databaseOf dir with
      | none =>
        rw [hdir] at hread
        cases hread
        cases hstart
      | some db =>
        rw [hdir] at hread
        simp only [bind_eq_ok, pure_eq_ok] at hread
        obtain ⟨_, hmetadata, rfl⟩ := hread
        cases hstart
        exact ⟨db, rfl, metadata_eq_ok hmetadata⟩

/-- `append_write` keeps the books. -/
theorem appendWrite_books (request : AppendRequest) (hkey : config.hmacKey = key)
    (hquota : config.storageQuota ≤ quota) (hworld : world ≠ deleteLedgerWorld) :
    BooksFollow key quota world (appendWrite config env caller world request) .idle fun _ a' => a' = .idle := by
  refine withWorldLock_books hworld fun dir => ?_
  have hsettled : Settled .idle .world (Account.idle.settle .world dir) := ⟨dir, rfl⟩
  refine (beginFileOp_books _).bind ?_ (by rintro _ _ rfl; exact hsettled.release)
  rintro _ _ rfl
  refine (checkWritePreconditions_books _).bind ?_ (by rintro _ _ rfl; exact hsettled.release)
  rintro _ _ rfl
  refine appendMetadata_books.bind ?_ (by rintro _ _ rfl; exact hsettled.release)
  rintro found _ ⟨rfl, hmetadata⟩
  refine .lift_bind (fun start hstart => ?_) fun _ _ => hsettled.release
  obtain ⟨bodyLen, contentType, headers⟩ := start
  refine .lift_bind (fun projected hprojected => ?_) fun _ _ => hsettled.release
  cases hmemory : isMemoryWorld world with
  | true =>
    rw [if_pos rfl]
    refine (appendMemory_books request).mono ?_
    rintro _ _ rfl
    exact hsettled.release
  | false =>
    rw [if_neg Bool.false_ne_true]
    obtain ⟨db, hdir, hbodyLen⟩ := hmetadata hmemory _ (requireSome_eq_ok.mp hstart)
    have hsum : projected = bodyLen + request.body.length := by
      simp only [projectedLen, bind_eq_ok, requireSome_eq_ok, pure_eq_ok] at hprojected
      obtain ⟨_, hsum, _, -, rfl⟩ := hprojected
      unfold checkedAdd at hsum
      split_ifs at hsum
      exact (Option.some.inj hsum).symm
    refine (appendDurable_books request contentType headers hkey hquota hmemory hdir hbodyLen hsum).bind ?_
      fun _ _ h => h.release
    intro result a' h
    refine (announceWrite_books _ _ _).mono ?_
    rintro _ _ ⟨_, rfl, rfl⟩
    exact h.release

end Writes

section Deletes

variable {env : DeleteEnv} {caller : Nat}

/-- The charges of the ledger between the reservation of events and its settlement. -/
def Charge.withReservedEvents (old : Charge) : Charge := { old with events := old.events + 2 }

/-- The count of the rows of the ledger is only read. -/
theorem ledgerIsEmpty_books (fault : Option SqlError) :
    BooksFollow key quota world (ledgerIsEmpty fault) a (Ends (fun _ a' => a' = a) (· = a)) := by
  refine (attempt_books fun core value core' h => ?_).mono ?_
  · simp only [bind_eq_ok, pure_eq_ok, Prod.mk.injEq] at h
    obtain ⟨-, -, -, -, -, rfl⟩ := h
    rfl
  · rintro (_ | _) _ rfl
    · exact rfl
    · exact rfl

/-- A committed row of the ledger takes its events. -/
theorem commitLedger_books (ledgerEnv : LedgerEnv) (job : AuditAppendJob) (isEmpty : Bool) :
    BooksFollow key quota world (commitLedger config caller ledgerEnv job isEmpty)
      (a.put .ledger dir (chargeOf dir).withReservedEvents)
      (Ends (fun event a' => ∃ dir' events, chargeOf dir' = { chargeOf dir with events := events } ∧
          events + unusedAuditEvents event.formatEvent = (chargeOf dir).events + 2 ∧
          a' = a.put .ledger dir' (chargeOf dir).withReservedEvents)
        (· = a.put .ledger dir (chargeOf dir).withReservedEvents)) := by
  refine .attempt (fun core event core' hagrees h => ?_) fun core error _ _ => ⟨_, .quiet, rfl⟩
  simp only [mapError_eq_ok, bind_eq_ok, requireSome_eq_ok, pure_eq_ok, Prod.exists, Prod.mk.injEq] at h
  obtain ⟨_, -, db, hdb, _, db', htransaction, rfl, rfl⟩ := h
  have hitem : core.data.lookup deleteLedgerWorld = dir := hagrees.item .ledger _ (Account.put_self ..)
  obtain rfl : some (.database db) = dir := ((core.database_eq_some _).mp hdb).symm.trans hitem
  obtain ⟨events, hcharge, hevents⟩ := ledgerTransaction_charge htransaction
  have hdir : chargeOf (some (.database db')) = { db.charge with events := events } := hcharge
  refine ⟨_, replace_step .ledger (core.books_setDir _ _) ?_ ?_, some (.database db'), events, hdir, hevents, rfl⟩
  · rw [hdir]
    exact le_rfl
  · rw [hdir]
    show events ≤ db.charge.events + 2
    omega

/-- `append_ledger_event_and_notify` keeps the books. -/
theorem appendLedgerEventAndNotify_books (ledgerEnv : LedgerEnv) (job : AuditAppendJob) :
    BooksFollow key quota world (appendLedgerEventAndNotify config caller ledgerEnv job) (a.settle .ledger dir)
      fun _ => Settled a .ledger := by
  have happend : BooksFollow key quota world (appendToLedger config caller ledgerEnv job)
      (a.put .ledger dir (chargeOf dir).withReservedEvents)
      (Ends (fun event a' => ∃ dir' events, chargeOf dir' = { chargeOf dir with events := events } ∧
          events + unusedAuditEvents event.formatEvent = (chargeOf dir).events + 2 ∧
          a' = a.put .ledger dir' (chargeOf dir).withReservedEvents)
        (Kept a .ledger (chargeOf dir) (chargeOf dir).withReservedEvents)) := by
    have hcover : (chargeOf dir).withReservedEvents.Covers (chargeOf dir) := ⟨le_rfl, Nat.le_add_right _ _⟩
    refine (openLedger_books ledgerEnv.opening hcover).mapError_ends.bind ?_ fun _ _ h => h
    rintro _ _ ⟨opened, hopened, rfl⟩
    refine (ledgerIsEmpty_books ledgerEnv.count).mapError_ends.bind ?_
      (by rintro _ _ rfl; exact ⟨opened, hopened, rfl⟩)
    rintro isEmpty _ rfl
    rw [← hopened]
    refine (commitLedger_books ledgerEnv job isEmpty).mono ?_
    rintro (_ | event) _ h
    · obtain rfl := h
      exact ⟨opened, rfl, rfl⟩
    · exact h
  refine (reserveAuditEvents_books _ le_rfl).bind ?_ (by rintro _ _ rfl; exact ⟨dir, rfl⟩)
  rintro _ _ rfl
  have hreserved : BooksFollow key quota world
      (Prog.onError (·.creditAuditEvents 2) (appendToLedger config caller ledgerEnv job))
      (a.put .ledger dir (chargeOf dir).withReservedEvents)
      (Ends (fun event a' => ∃ dir' events, chargeOf dir' = { chargeOf dir with events := events } ∧
          events + unusedAuditEvents event.formatEvent = (chargeOf dir).events + 2 ∧
          a' = a.put .ledger dir' (chargeOf dir).withReservedEvents)
        (Settled a .ledger)) := by
    refine happend.onError_modify (fun _ _ h => h) ?_
    rintro error _ ⟨dir', hdir', rfl⟩
    refine (creditAuditEvents_books (Nat.le_add_left _ _) (by rw [hdir']; exact le_rfl)).mono ?_
    rintro _ _ ⟨_, rfl, rfl⟩
    exact ⟨_, rfl, dir', by rw [Account.settle, hdir']; rfl⟩
  refine hreserved.bind ?_ fun _ _ h => h
  rintro event _ ⟨dir', events, hdir', hevents, rfl⟩
  refine (creditAuditEvents_books (by simp only [Charge.withReservedEvents]; omega) (by
    rw [hdir']
    simp only [Charge.withReservedEvents]
    omega)).bind_returns ?_
  rintro _ _ rfl
  have hsettled : Settled a .ledger (a.put .ledger dir' { (chargeOf dir).withReservedEvents with
      events := (chargeOf dir).withReservedEvents.events - unusedAuditEvents event.formatEvent }) := by
    refine ⟨dir', ?_⟩
    rw [Account.settle, hdir']
    simp only [Charge.withReservedEvents]
    congr 2
    omega
  refine (notifyFormat_books _).bind_returns ?_
  rintro _ _ rfl
  refine (notifyWithAux_books _ _ _ _).bind_returns ?_
  rintro _ _ rfl
  exact hsettled

/-- A delete holds the stream lock of the ledger while its body runs. -/
theorem withStreamLock_books {program : Prog Core ε α} {post : Except ε α → Account → Prop}
    (hbody : ∀ dir, BooksFollow key quota world program (a.settle .ledger dir) fun outcome a' =>
      (∃ dir', a' .ledger = some ⟨dir', (chargeOf dir').get⟩) ∧ post outcome (Function.update a' .ledger none)) :
    BooksFollow key quota world (withStreamLock program) a post := by
  have hbooks : ∀ (core : Core) (locked : Bool), Core.books { core with deleteLedgerStreamLock := locked } =
      core.books.setLock deleteLedgerWorld locked := by
    intro core locked
    simp only [Core.books, Books.setLock, Core.view, Books.mk.injEq, true_and]
    funext path
    by_cases hpath : path = deleteLedgerWorld <;> simp [hpath]
  intro core _ hfree
  have hlocked : core.books.locked deleteLedgerWorld = false := by simpa [Core.books, Core.view] using hfree
  refine ⟨a.settle .ledger (core.data.lookup deleteLedgerWorld), ?_, (hbody _).ensuring ?_⟩
  · show Booking _ _ core.books a (Core.books { core with deleteLedgerStreamLock := true }) _
    rw [hbooks core true]
    exact Booking.lock Slot.ledger hlocked
  · rintro outcome a' ⟨⟨dir', hheld⟩, hpost⟩ core' _
    refine ⟨_, ?_, hpost⟩
    rw [hbooks core' false]
    exact Booking.unlock Slot.ledger hheld

/-- The amounts of a usage snapshot. -/
def StorageUsageSnapshot.charge (usage : StorageUsageSnapshot) : Charge :=
  ⟨usage.totalBodyBytes, usage.currentBodyBytes, usage.retainedCasBodyBytes, usage.auditChainEvents⟩

/-- The usage that a delete reads is what its world takes. -/
theorem accountedStorageUsage_books :
    BooksFollow key quota world (accountedStorageUsage env world) (a.put .world dir c)
      (Ends (fun usage a' => a' = a.put .world dir c ∧ usage.charge = chargeOf dir) (· = a.put .world dir c)) := by
  refine .attempt (fun core usage core' hagrees h => ?_) fun core error _ _ => ⟨_, .quiet, rfl⟩
  simp only [bind_eq_ok, mapError_eq_ok, pure_eq_ok, Prod.mk.injEq] at h
  obtain ⟨_, husage, rfl, rfl⟩ := h
  obtain ⟨_, -, husage⟩ := bind_eq_ok.mp husage
  simp only [bind_eq_ok, requireSome_eq_ok] at husage
  obtain ⟨found, hfound, db, rfl, husage⟩ := husage
  have hitem : core.data.lookup world = dir := hagrees.item .world _ (Account.put_self ..)
  have hopened := Core.openExisting_eq_ok hfound
  rw [hitem] at hopened
  rw [databaseOf_eq_some hopened.symm]
  obtain ⟨hbody, hcurrent, hretained, hevents⟩ := storageUsage_eq_ok husage
  refine ⟨_, .quiet, rfl, ?_⟩
  simp only [StorageUsageSnapshot.charge, hbody, hcurrent, hretained, hevents]
  rfl

/-- The reads of a delete in front of its intent. -/
theorem prepareDelete_books (request : DeleteRequest) :
    BooksFollow key quota world (prepareDelete config env world request) (a.put .world dir c)
      (Ends (fun subject a' => a' = a.put .world dir c ∧ (subject.usage = none ∧ isMemoryWorld world = true ∨
        ∃ usage, subject.usage = some usage ∧ isMemoryWorld world = false ∧ usage.charge = chargeOf dir))
        (· = a.put .world dir c)) := by
  have hcheck : BooksFollow key quota world (checkDeletePreconditions config env world request.preconditions)
      (a.put .world dir c) fun _ a' => a' = a.put .world dir c := by
    unfold checkDeletePreconditions
    split
    · exact rfl
    · refine attempt_books fun core value core' h => ?_
      simp only [bind_eq_ok, pure_eq_ok, Prod.mk.injEq] at h
      obtain ⟨_, -, -, -, -, rfl⟩ := h
      rfl
  have hread : BooksFollow key quota world (readSubject config env world) (a.put .world dir c)
      fun _ a' => a' = a.put .world dir c := by
    refine attempt_books fun core value core' h => ?_
    simp only [bind_eq_ok, pure_eq_ok, Prod.exists, Prod.mk.injEq] at h
    obtain ⟨_, -, _, _, -, -, rfl⟩ := h
    rfl
  have hcapture : BooksFollow key quota world (captureDeleteSubjectProof config env world) (a.put .world dir c)
      fun _ a' => a' = a.put .world dir c := by
    refine attempt_books fun core value core' h => ?_
    simp only [bind_eq_ok, pure_eq_ok, Prod.mk.injEq] at h
    obtain ⟨_, -, _, -, -, rfl⟩ := h
    rfl
  refine hcheck.bind ?_ fun _ _ h => h
  rintro _ _ rfl
  refine .lift_bind (fun _ _ => ?_) fun _ _ => rfl
  refine .lift_bind (fun userHeaders _ => ?_) fun _ _ => rfl
  refine hread.bind ?_ fun _ _ h => h
  rintro stage _ rfl
  cases hmemory : isMemoryWorld world with
  | true =>
    rw [if_pos rfl]
    exact ⟨rfl, .inl ⟨rfl, rfl⟩⟩
  | false =>
    rw [if_neg Bool.false_ne_true]
    refine accountedStorageUsage_books.bind ?_ fun _ _ h => h
    rintro usage _ ⟨rfl, husage⟩
    refine hcapture.bind ?_ fun _ _ h => h
    rintro subject _ rfl
    exact ⟨rfl, .inr ⟨usage, rfl, rfl, husage⟩⟩

/-- The directory of a removed world. -/
def removedDir (world : ValidatedWorldPath) (dir : Option WorldDir) : Option WorldDir :=
  if isMemoryWorld world then dir else none

/-- The removal of a world, whose charges stay. -/
theorem removeWorld_books :
    BooksFollow key quota world (removeWorld caller env world) (a.settle .world dir)
      (Ends (fun _ a' => a' = a.put .world (removedDir world dir) (chargeOf dir)) (· = a.settle .world dir)) := by
  refine .attempt (fun core value core' _ h => ?_) fun core error _ _ => ⟨_, .quiet, rfl⟩
  unfold Core.deleteWorldNow at h
  unfold removedDir
  cases hmemory : isMemoryWorld world with
  | true =>
    rw [hmemory, if_pos rfl] at h
    split at h
    · next hremoved =>
      obtain ⟨-, rfl⟩ := Prod.mk.inj hremoved
      cases h
      exact ⟨_, .quiet, rfl⟩
    · cases h
  | false =>
    rw [hmemory, if_neg Bool.false_ne_true] at h
    split_ifs at h
    · cases h
      refine ⟨_, replace_step .world ?_ (Nat.zero_le _) (Nat.zero_le _), rfl⟩
      simp only [Core.books, Books.setItem, lookup_erase_eq_update]
      rfl

/-- The counters after a removal. -/
theorem forgetUsage_books {usage : Option StorageUsageSnapshot}
    (husage : usage = none ∧ isMemoryWorld world = true ∨
      ∃ found, usage = some found ∧ isMemoryWorld world = false ∧ found.charge = chargeOf dir) :
    BooksFollow key quota world (forgetUsage usage) (a.put .world (removedDir world dir) (chargeOf dir))
      (Returns fun _ => Settled a .world) := by
  rcases husage with ⟨rfl, hmemory⟩ | ⟨found, rfl, hdurable, hcharge⟩
  · exact ⟨_, rfl, dir, by rw [removedDir, hmemory, if_pos rfl, Account.settle]⟩
  · rw [removedDir, hdurable, if_neg Bool.false_ne_true, ← hcharge]
    have hsubtract : BooksFollow key quota world (subtractStorageUsage found : Prog Core DeleteError PUnit)
        (a.put .world none found.charge) (Returns fun _ a' => a' = a.settle .world none) := by
      refine (creditStorage_books (le_refl found.charge.body) (Nat.zero_le _)).bind_returns ?_
      rintro _ _ rfl
      refine (adjustCurrentBody_books ?_ ?_).bind_returns ?_
      · exact le_rfl
      · simp [StorageUsageSnapshot.charge]
      rintro _ _ rfl
      refine (adjustRetainedCas_books ?_ ?_).bind_returns ?_
      · exact le_rfl
      · simp [StorageUsageSnapshot.charge]
      rintro _ _ rfl
      refine (creditAuditEvents_books ?_ (Nat.zero_le _)).mono ?_
      · exact le_rfl
      rintro _ _ ⟨_, rfl, rfl⟩
      exact ⟨_, rfl, by simp [StorageUsageSnapshot.charge, Account.settle, chargeOf, Charge.none]⟩
    refine hsubtract.bind_returns ?_
    rintro _ _ rfl
    refine (modify_books fun _ => rfl).mono ?_
    rintro _ _ ⟨_, rfl, rfl⟩
    exact ⟨_, rfl, none, rfl⟩

/-- Both worlds of a delete are settled. -/
def BothSettled (a' : Account) : Prop :=
  ∃ dir ledger, a' = (Account.idle.settle .world dir).settle .ledger ledger

omit [HashSuite] in
/-- The worlds of a delete in the other order. -/
theorem Account.both_comm (dir ledger : Option WorldDir) :
    (Account.idle.settle .world dir).settle .ledger ledger = (Account.idle.settle .ledger ledger).settle .world dir :=
  Account.put_comm _ _ _ _ _ nofun

omit [HashSuite] in
/-- The ledger of a delete is settled. -/
theorem Settled.both {a' : Account} (h : Settled (Account.idle.settle .world dir) .ledger a') : BothSettled a' := by
  obtain ⟨ledger, rfl⟩ := h
  exact ⟨dir, ledger, rfl⟩

/-- The last rows of a delete keep the books. -/
theorem commitDelete_books (job : AuditEventKind → AuditAppendJob) {a' : Account} (h : BothSettled a') :
    BooksFollow key quota world (commitDelete config caller env job) a' fun _ => BothSettled := by
  have hrow : ∀ {a' : Account} (ledgerEnv : LedgerEnv) (kind : AuditEventKind), BothSettled a' →
      BooksFollow key quota world ((appendLedgerEventAndNotify config caller ledgerEnv (job kind)).result :
        Prog Core DeleteError (Except BlockingSqliteError AppendedLedgerEvent)) a' (Returns fun _ => BothSettled) := by
    rintro _ ledgerEnv kind ⟨dir, ledger, rfl⟩
    refine .result ((appendLedgerEventAndNotify_books ledgerEnv (job kind)).mono ?_)
    intro outcome a' hsettled
    exact ⟨_, rfl, hsettled.both⟩
  refine (hrow env.commit .deleteCommit h).bind_returns ?_
  rintro (_ | committed) a' h
  · refine (hrow env.commitFailed .deleteCommitFailed h).bind_returns ?_
    intro _ a'' h
    exact h
  · exact h

/-- `delete_blocking` keeps the books. -/
theorem deleteBlocking_books (request : DeleteRequest) {a' : Account} (h : BothSettled a') :
    BooksFollow key quota world (deleteBlocking config caller env world request) a' fun _ => BothSettled := by
  obtain ⟨dir, ledger, rfl⟩ := h
  refine (beginFileOp_books _).bind ?_ (by rintro _ _ rfl; exact ⟨dir, ledger, rfl⟩)
  rintro _ _ rfl
  rw [Account.both_comm]
  refine (prepareDelete_books request).bind ?_ (by rintro _ _ rfl; exact ⟨dir, ledger, (Account.both_comm _ _).symm⟩)
  rintro subject _ ⟨rfl, husage⟩
  have hcomm : (Account.idle.settle .ledger ledger).put .world dir (chargeOf dir) =
      (Account.idle.settle .world dir).settle .ledger ledger := (Account.both_comm dir ledger).symm
  rw [hcomm]
  refine (mapError_books (appendLedgerEventAndNotify_books env.intent _)).bind ?_ fun _ _ h => h.both
  rintro intent _ ⟨ledger, rfl⟩
  refine (modify_books fun core => by split <;> rfl).bind_returns ?_
  rintro _ _ rfl
  refine (modify_books fun _ => rfl).bind_returns ?_
  rintro _ _ rfl
  rw [Account.both_comm]
  refine removeWorld_books.bind ?_ (by rintro _ _ rfl; exact ⟨dir, ledger, (Account.both_comm _ _).symm⟩)
  rintro _ _ rfl
  refine (modify_books fun _ => rfl).bind_returns ?_
  rintro _ _ rfl
  refine (forgetUsage_books husage).bind_returns ?_
  rintro _ _ ⟨removed, rfl⟩
  refine (notifyWithAux_books _ _ _ _).bind_returns ?_
  rintro _ _ rfl
  exact commitDelete_books _ ⟨removed, ledger, (Account.both_comm _ _).symm⟩

/-- `delete` keeps the books. -/
theorem delete_books (request : DeleteRequest) (hworld : world ≠ deleteLedgerWorld) :
    BooksFollow key quota world (delete config caller env world request) .idle fun _ a' => a' = .idle := by
  refine withWorldLock_books hworld fun dir => withStreamLock_books fun ledger => ?_
  refine (deleteBlocking_books request ⟨dir, ledger, rfl⟩).mono ?_
  rintro _ _ ⟨dir', ledger', rfl⟩
  refine ⟨⟨ledger', Account.put_self ..⟩, ⟨dir', ?_⟩, ?_⟩
  · simp [Account.settle, Account.put]
  · funext slot
    cases slot <;> simp [Account.settle, Account.put, Account.idle]

end Deletes

/-- The shutdown flag is not part of the books. -/
theorem ensureNotShutdown_books (error : ε) :
    BooksFollow key quota world (ensureNotShutdown error) a fun _ a' => a' = a := by
  refine attempt_books fun core value core' h => ?_
  simp only [bind_eq_ok, pure_eq_ok, Prod.mk.injEq] at h
  obtain ⟨-, -, -, rfl⟩ := h
  rfl

/-- The program of a call keeps the books. -/
theorem Call.program_books (call : Call) (caller : Nat) (hkey : config.hmacKey = key)
    (hquota : config.storageQuota ≤ quota) :
    BooksFollow key quota call.world (call.program config caller) .idle fun _ a' => a' = .idle := by
  unfold Call.program
  split
  · next env request _ =>
    refine .lift_bind (fun _ hauthorized => ?_) fun _ _ => rfl
    have hworld := authorizeWrite_ne_ledger (mapError_eq_ok.mp hauthorized)
    refine (ensureNotShutdown_books _).bind ?_ fun _ _ h => h
    rintro _ _ rfl
    refine .lift_bind (fun _ _ => ?_) fun _ _ => rfl
    refine (mapError_books (replaceWrite_books request hkey hquota hworld)).bind ?_ fun _ _ h => h
    rintro _ _ rfl
    exact rfl
  · next env request _ =>
    refine .lift_bind (fun _ hauthorized => ?_) fun _ _ => rfl
    have hworld := authorizeWrite_ne_ledger (mapError_eq_ok.mp hauthorized)
    refine (ensureNotShutdown_books _).bind ?_ fun _ _ h => h
    rintro _ _ rfl
    refine (mapError_books (appendWrite_books request hkey hquota hworld)).bind ?_ fun _ _ h => h
    rintro _ _ rfl
    exact rfl
  · next env request _ =>
    refine .lift_bind (fun _ hauthorized => ?_) fun _ _ => rfl
    have hworld := authorizeDelete_ne_ledger (mapError_eq_ok.mp hauthorized)
    refine (ensureNotShutdown_books _).bind ?_ fun _ _ h => h
    rintro _ _ rfl
    refine (mapError_books (delete_books request hworld)).bind ?_ fun _ _ h => h
    rintro _ _ rfl
    exact rfl

end AuditeDB
