import Mathlib
import AuditeDB.Library.Bookkeeping
import AuditeDB.Engine.Charges
import AuditeDB.Engine.Histories

/-!
# The steps of the storage counters

Every step of an engine program is a step of the books of the storage counters. A write reserves before its
transaction what the transaction may add, and settles afterwards; a delete gives back what its world took.
-/

namespace AuditeDB

open Results Interleaving Bookkeeping

/-- A change of one amount. -/
theorem Charge.update_get (c : Charge) (g : Gauge) (amount : Nat) :
    Function.update c.get g amount = (c.set amount g).get := by
  funext other
  by_cases hother : other = g
  · rw [hother, Function.update_self, Charge.get_set]
  · rw [Function.update_of_ne hother, Charge.get_set_of_ne _ _ hother]

/-- The storage counters, the directories and the locks of an engine. -/
def Core.books (core : Core) : Books ValidatedWorldPath (Option WorldDir) Gauge where
  gauge
    | .body => core.storageBodyBytes
    | .current => core.storageCurrentBodyBytes
    | .retained => core.storageRetainedCasBodyBytes
    | .events => core.storageAuditChainEvents
  item := core.data.lookup
  locked := core.view.locked

/-- The rules of the storage counters under a quota: body bytes and audit events are reserved in advance, the two parts
of the body bytes are noted afterwards. -/
def storageRules (quota : Nat) : Rules (Option WorldDir) Gauge where
  cost dir := (chargeOf dir).get
  covered g := g = .body ∨ g = .events
  limit
    | .body => quota
    | _ => usizeMax
  ceiling := usizeMax
  share := 2 * quota

/-- What a call knows about the worlds that it holds and what the counters hold for them. -/
abbrev Account := Slot → Option (Entry (Option WorldDir) Gauge)

namespace Account

/-- Nothing is held. -/
def idle : Account := fun _ => none

/-- Hold a directory with some charges. -/
def put (a : Account) (slot : Slot) (dir : Option WorldDir) (charge : Charge) : Account :=
  Function.update a slot (some ⟨dir, charge.get⟩)

/-- A held directory whose charges are what it takes. -/
def settle (a : Account) (slot : Slot) (dir : Option WorldDir) : Account := a.put slot dir (chargeOf dir)

variable (a : Account) {slot other : Slot} (dir dir' : Option WorldDir) (c c' : Charge)

@[simp] theorem put_self : a.put slot dir c slot = some ⟨dir, c.get⟩ := Function.update_self ..

@[simp] theorem put_put : (a.put slot dir c).put slot dir' c' = a.put slot dir' c' := Function.update_idem ..

/-- The two worlds of a call may be changed in any order. -/
theorem put_comm (hne : slot ≠ other) : (a.put slot dir c).put other dir' c' = (a.put other dir' c').put slot dir c :=
  Function.update_comm hne ..

end Account

section Books

variable (core : Core) (world : ValidatedWorldPath)

/-- The books after a change of a directory. -/
theorem Core.books_setDir (dir : WorldDir) : (core.setDir world dir).books = core.books.setItem world (some dir) := by
  simp only [books, setDir, Books.setItem, lookup_insert_eq_update]
  rfl

/-- The books after a change of a counter. -/
theorem Core.books_setGauge {core' : Core} {g : Gauge} {used : Nat} (hdata : core'.data = core.data)
    (hlocked : core'.view.locked = core.view.locked)
    (hgauge : core'.books.gauge = Function.update core.books.gauge g used) : core'.books = core.books.setGauge g used := by
  have hbooks : core'.books = ⟨core'.books.gauge, core'.data.lookup, core'.view.locked⟩ := rfl
  rw [hbooks, hdata, hlocked, hgauge]
  rfl

end Books

section

variable [HashSuite] (key : AuditHmacKey) (quota : Nat) (world : ValidatedWorldPath)

/-- Every durable directory shows some state of its world. -/
def Core.Sound (core : Core) : Prop :=
  ∀ path, isMemoryWorld path = false → ∃ state, Shows key path state (core.data.lookup path)

/-- The shared state agrees with what a call knows. -/
structure Account.Agrees (core : Core) (a : Account) : Prop where
  sound : core.Sound key
  item : ∀ slot entry, a slot = some entry → core.data.lookup (slot.path world) = entry.item
  body : ∀ slot entry, a slot = some entry → entry.charged .body ≤ core.storageBodyBytes

/-- A program takes the steps of the books. -/
abbrev BooksFollow {ε α : Type} (program : Prog Core ε α) (a : Account) (post : Except ε α → Account → Prop) : Prop :=
  Follows (Account.Agrees key world)
    (fun core a core' a' => Booking (storageRules quota) (Slot.path world) core.books a core'.books a') program a post

end

variable [HashSuite] {key : AuditHmacKey} {quota : Nat} {world : ValidatedWorldPath} {ε α : Type} {a : Account}
  {slot : Slot} {dir : Option WorldDir} {c : Charge} {config : Config}

section Gauges

/-- An attempt that leaves the books alone. -/
theorem attempt_books {f : Core → Except ε (α × Core)}
    (hbooks : ∀ core value core', f core = .ok (value, core') → core'.books = core.books) :
    BooksFollow key quota world (Prog.attempt f) a fun _ a' => a' = a := by
  refine .attempt (fun core value core' _ h => ?_) fun core error _ _ => ⟨a, .quiet, rfl⟩
  rw [hbooks core value core' h]
  exact ⟨a, .quiet, rfl⟩

/-- An update that leaves the books alone. -/
theorem modify_books {act : Core → Core} (hbooks : ∀ core, (act core).books = core.books) :
    BooksFollow key quota world (Prog.modify act : Prog Core ε PUnit) a (Returns fun _ a' => a' = a) :=
  .modify fun core _ => ⟨a, by rw [hbooks]; exact .quiet, _, rfl, rfl⟩

omit [HashSuite] in
/-- A counter that covers is charged for a held world. -/
theorem charge_step {core core' : Core} (slot : Slot) (g : Gauge) (subtract add : Nat)
    (hbooks : core'.books = core.books.setGauge g (core.books.gauge g - subtract + add))
    (hcovered : g = .body ∨ g = .events) (hsubtract : subtract ≤ c.get g)
    (hcover : (chargeOf dir).get g ≤ c.get g - subtract + add)
    (hlimit : add ≠ 0 → core.books.gauge g - subtract + add ≤ (storageRules quota).limit g) :
    Booking (storageRules quota) (Slot.path world) core.books (a.put slot dir c) core'.books
      (a.put slot dir (c.set (c.get g - subtract + add) g)) := by
  have hstep := @Booking.charge _ _ _ _ _ _ _ (storageRules quota) (Slot.path world) core.books (a.put slot dir c) slot
    ⟨dir, c.get⟩ g subtract add (Account.put_self ..) hcovered hsubtract hcover hlimit
  rw [← hbooks] at hstep
  simpa only [Account.put, Function.update_idem, Entry.recharge, Charge.update_get] using hstep

omit [HashSuite] in
/-- A counter that does not cover is changed for a held world. -/
theorem note_step {core core' : Core} (slot : Slot) (g : Gauge) (subtract add : Nat)
    (hbooks : core'.books = core.books.setGauge g (Core.adjustCounter (core.books.gauge g) subtract add))
    (hcovered : ¬ (g = .body ∨ g = .events)) (hsubtract : subtract ≤ c.get g)
    (hshare : c.get g - subtract + add ≤ 2 * quota) :
    Booking (storageRules quota) (Slot.path world) core.books (a.put slot dir c) core'.books
      (a.put slot dir (c.set (c.get g - subtract + add) g)) := by
  have hstep := @Booking.note _ _ _ _ _ _ _ (storageRules quota) (Slot.path world) core.books (a.put slot dir c) slot
    ⟨dir, c.get⟩ g subtract add (Account.put_self ..) hcovered hsubtract hshare
  have hbooks' : core.books.setGauge g (min (core.books.gauge g - subtract + add) (storageRules quota).ceiling) =
      core'.books := hbooks.symm
  rw [hbooks'] at hstep
  simpa only [Account.put, Function.update_idem, Entry.recharge, Charge.update_get] using hstep

omit [HashSuite] in
/-- The directory of a held world is replaced. -/
theorem replace_step {core core' : Core} (slot : Slot) {dir' : Option WorldDir}
    (hbooks : core'.books = core.books.setItem (slot.path world) dir')
    (hbody : (chargeOf dir').body ≤ c.body) (hevents : (chargeOf dir').events ≤ c.events) :
    Booking (storageRules quota) (Slot.path world) core.books (a.put slot dir c) core'.books (a.put slot dir' c) := by
  have hcover : ∀ g, (storageRules quota).covered g → (storageRules quota).cost dir' g ≤ c.get g := by
    rintro g (rfl | rfl)
    · exact hbody
    · exact hevents
  have hstep := @Booking.replace _ _ _ _ _ _ _ (storageRules quota) (Slot.path world) core.books (a.put slot dir c) slot
    ⟨dir, c.get⟩ dir' (Account.put_self ..) hcover
  rw [← hbooks] at hstep
  simpa only [Account.put, Function.update_idem] using hstep

/-- The counter of body bytes is credited. -/
theorem creditStorage_books {bytes : Nat} (hbytes : bytes ≤ c.body) (hcover : (chargeOf dir).body ≤ c.body - bytes) :
    BooksFollow key quota world (Prog.modify (·.creditStorage bytes) : Prog Core ε PUnit) (a.put slot dir c)
      (Returns fun _ a' => a' = a.put slot dir { c with body := c.body - bytes }) := by
  refine .modify fun core _ => ⟨_, charge_step slot .body bytes 0 ?_ (.inl rfl) hbytes hcover nofun, _, rfl, rfl⟩
  refine core.books_setGauge rfl rfl ?_
  funext g
  cases g <;> rfl

/-- The counter of audit events is credited. -/
theorem creditAuditEvents_books {events : Nat} (hevents : events ≤ c.events)
    (hcover : (chargeOf dir).events ≤ c.events - events) :
    BooksFollow key quota world (Prog.modify (·.creditAuditEvents events) : Prog Core ε PUnit) (a.put slot dir c)
      (Returns fun _ a' => a' = a.put slot dir { c with events := c.events - events }) := by
  refine .modify fun core _ => ⟨_, charge_step slot .events events 0 ?_ (.inr rfl) hevents hcover nofun, _, rfl, rfl⟩
  refine core.books_setGauge rfl rfl ?_
  funext g
  cases g <;> rfl

/-- The counter of live bytes is adjusted. -/
theorem adjustCurrentBody_books {subtract add : Nat} (hsubtract : subtract ≤ c.current)
    (hshare : c.current - subtract + add ≤ 2 * quota) :
    BooksFollow key quota world (Prog.modify (·.adjustCurrentBody subtract add) : Prog Core ε PUnit) (a.put slot dir c)
      (Returns fun _ a' => a' = a.put slot dir { c with current := c.current - subtract + add }) := by
  refine .modify fun core _ => ⟨_, note_step slot .current subtract add ?_ nofun hsubtract hshare, _, rfl, rfl⟩
  refine core.books_setGauge rfl rfl ?_
  funext g
  cases g <;> rfl

/-- The counter of retained bytes is adjusted. -/
theorem adjustRetainedCas_books {subtract add : Nat} (hsubtract : subtract ≤ c.retained)
    (hshare : c.retained - subtract + add ≤ 2 * quota) :
    BooksFollow key quota world (Prog.modify (·.adjustRetainedCas subtract add) : Prog Core ε PUnit) (a.put slot dir c)
      (Returns fun _ a' => a' = a.put slot dir { c with retained := c.retained - subtract + add }) := by
  refine .modify fun core _ => ⟨_, note_step slot .retained subtract add ?_ nofun hsubtract hshare, _, rfl, rfl⟩
  refine core.books_setGauge rfl rfl ?_
  funext g
  cases g <;> rfl

/-- Room for two audit events. -/
theorem reserveAuditEvents_books (error : ε) (hcover : (chargeOf dir).events ≤ c.events) :
    BooksFollow key quota world (reserveAuditEvents error) (a.put slot dir c)
      (Ends (fun _ a' => a' = a.put slot dir { c with events := c.events + 2 }) (· = a.put slot dir c)) := by
  refine .attempt (fun core value core' _ h => ?_) fun core error _ _ => ⟨_, .quiet, rfl⟩
  simp only [bind_eq_ok, rejectIf_eq_ok, pure_eq_ok, Prod.mk.injEq] at h
  obtain ⟨-, hfits, -, rfl⟩ := h
  refine ⟨_, charge_step slot .events 0 2 ?_ (.inr rfl) (Nat.zero_le _) (Nat.le_add_right_of_le hcover) fun _ => ?_, rfl⟩
  · refine core.books_setGauge rfl rfl ?_
    funext g
    cases g <;> rfl
  · show core.storageAuditChainEvents + 2 ≤ usizeMax
    simpa using hfits

/-- A reservation of storage stays within the quota. -/
theorem reserveStorageAfterPrune_books (hquota : config.storageQuota ≤ quota) (prevLen newLen prunedLen : Nat)
    (hcover : (chargeOf dir).body ≤ c.body) :
    BooksFollow key quota world (reserveStorageAfterPrune config prevLen newLen prunedLen) (a.put slot dir c)
      (Ends (fun pending a' => pending = .mint newLen (prevLen + prunedLen) ∧ c.body + pending.reservedIncrease ≤ quota ∧
        a' = a.put slot dir { c with body := c.body + pending.reservedIncrease }) (· = a.put slot dir c)) := by
  refine .attempt (fun core value core' hagrees h => ?_) fun core error _ _ => ⟨_, .quiet, rfl⟩
  simp only [bind_eq_ok, rejectIf_eq_ok, requireSome_eq_ok, pure_eq_ok, Prod.mk.injEq] at h
  obtain ⟨credit, hcredit, _, hfits, rfl, rfl⟩ := h
  have hcredit : credit = prevLen + prunedLen := by
    unfold checkedAdd at hcredit
    split_ifs at hcredit
    exact (Option.some.inj hcredit).symm
  subst hcredit
  generalize hpending : PendingStorageReservation.mint newLen (prevLen + prunedLen) = pending at hfits ⊢
  have hlimit : core.storageBodyBytes + pending.reservedIncrease ≤ quota := by
    simp only [Bool.or_eq_true, decide_eq_true_eq, not_or, not_lt] at hfits
    exact hfits.2.trans hquota
  have hbody : c.body ≤ core.storageBodyBytes := hagrees.body slot _ (Account.put_self ..)
  refine ⟨_, charge_step slot .body 0 pending.reservedIncrease ?_ (.inl rfl) (Nat.zero_le _)
    (Nat.le_add_right_of_le hcover) fun _ => hlimit, rfl, by omega, rfl⟩
  refine core.books_setGauge rfl rfl ?_
  funext g
  cases g <;> rfl

end Gauges

section Opening

/-- The database that opening a directory for a write leaves: an existing one with its schema completed, or a new one. -/
inductive Reopened (key : AuditHmacKey) (path : ValidatedWorldPath) (dir : Option WorldDir) (db : Database) : Prop
  | existing {older : Database} {log : WorldLog} (hdir : dir = some (.database older))
      (hsame : db = { older with schema := db.schema }) (hrep : Represents key path log db)
  | created (hdir : ∀ older, dir ≠ some (.database older)) (generation : WorldGeneration)
      (hdb : db = createdUpTo generation 11)

omit [HashSuite] in
/-- A directory without a database takes nothing. -/
theorem chargeOf_of_no_database (hdir : ∀ db, dir ≠ some (.database db)) : chargeOf dir = .none := by
  match dir with
  | none => rfl
  | some .empty => rfl
  | some (.database db) => exact absurd rfl (hdir db)

/-- An opened database stores a history. -/
theorem Reopened.represents {path : ValidatedWorldPath} {db : Database} (h : Reopened key path dir db) :
    ∃ log, Represents key path log db := by
  cases h with
  | existing hdir hsame hrep => exact ⟨_, hrep⟩
  | created hdir generation hdb => exact ⟨_, by rw [hdb]; exact represents_createdUpTo key path (.inr rfl)⟩

/-- Opening a database takes nothing. -/
theorem Reopened.charge_eq {path : ValidatedWorldPath} {db : Database} (h : Reopened key path dir db) :
    db.charge = chargeOf dir := by
  cases h with
  | existing hdir hsame hrep =>
    rw [hdir, hsame]
    exact Database.charge_withSchema _ _
  | created hdir generation hdb =>
    rw [hdb, chargeOf_of_no_database hdir]
    exact charge_createdUpTo le_rfl

/-- A held world whose directory takes what it took. -/
def Kept (a : Account) (slot : Slot) (charge c : Charge) (a' : Account) : Prop :=
  ∃ dir, chargeOf dir = charge ∧ a' = a.put slot dir c

/-- The charges of a held world cover what its directory takes. -/
def Charge.Covers (c charge : Charge) : Prop := charge.body ≤ c.body ∧ charge.events ≤ c.events

/-- A statement that fails leaves everything as it is. -/
theorem autocommit_books {fault : Option SqlError} {statement : Database → SqlResult Database} (mid : Account → Prop)
    (hrun : ∀ core db db', Account.Agrees key world core (a.put slot dir c) → dir = some (.database db) →
      statement db = .ok db' → c.Covers db'.charge ∧ mid (a.put slot (some (.database db')) c)) :
    BooksFollow key quota world (autocommit (slot.path world) fault statement) (a.put slot dir c)
      (Ends (fun _ => mid) (· = a.put slot dir c)) := by
  refine .attempt (fun core value core' hagrees h => ?_) fun core error _ _ => ⟨_, .quiet, rfl⟩
  simp only [bind_eq_ok, requireSome_eq_ok, pure_eq_ok, Prod.mk.injEq] at h
  obtain ⟨_, -, db, hdb, db', hstatement, -, rfl⟩ := h
  have hdir : dir = some (.database db) := by
    rw [← (core.database_eq_some _).mp hdb]
    exact (hagrees.item slot _ (Account.put_self ..)).symm
  obtain ⟨⟨hbody, hevents⟩, hmid⟩ := hrun core db db' hagrees hdir hstatement
  exact ⟨_, replace_step slot (core.books_setDir _ _) hbody hevents, hmid⟩

/-- The creation statements take nothing. -/
theorem runCreate_books {generation : WorldGeneration} {stop : Option (Nat × SqlError)} {k : Nat}
    {statements : List (Database → SqlResult Database)} (hk : k ≤ 11)
    (hstatements : (createStatements generation).drop k = statements) :
    BooksFollow key quota world (runCreate (slot.path world) stop k statements)
      (a.put slot (some (.database (createdUpTo generation k))) c)
      (Ends (fun _ a' => a' = a.put slot (some (.database (createdUpTo generation 11))) c) (Kept a slot .none c)) := by
  induction statements generalizing k with
  | nil =>
    have hlength : (createStatements generation).length ≤ k := List.drop_eq_nil_iff.mp hstatements
    obtain rfl : k = 11 := le_antisymm hk hlength
    exact rfl
  | cons statement rest ih =>
    have hlt : k < 11 := by
      by_contra hnot
      rw [List.drop_eq_nil_of_le (not_lt.mp hnot)] at hstatements
      cases hstatements
    have hget : (createStatements generation)[k]? = some statement := by
      rw [← List.head?_drop, hstatements]
      rfl
    have hrest : (createStatements generation).drop (k + 1) = rest := by
      rw [← List.tail_drop, hstatements]
      rfl
    refine (autocommit_books (· = a.put slot (some (.database (createdUpTo generation (k + 1)))) c) ?_).bind ?_ ?_
    · intro core db db' _ hdir hstatement
      cases hdir
      obtain rfl := createdUpTo_succ hget hstatement
      rw [charge_createdUpTo hlt]
      exact ⟨⟨Nat.zero_le _, Nat.zero_le _⟩, rfl⟩
    · rintro ⟨⟩ _ rfl
      exact ih hlt hrest
    · rintro error _ rfl
      exact ⟨some (.database (createdUpTo generation k)), charge_createdUpTo hk, rfl⟩

/-- An existing database is checked and completed before it is written. -/
theorem openExistingForWrite_books (slot : Slot) (env : OpenEnv) (hdurable : isMemoryWorld (slot.path world) = false)
    (hcover : c.Covers (chargeOf dir)) :
    BooksFollow key quota world (openExistingForWrite env (slot.path world)) (a.put slot dir c)
      (Ends (fun _ a' => ∃ db, Reopened key (slot.path world) dir db ∧ a' = a.put slot (some (.database db)) c)
        (· = a.put slot dir c)) := by
  refine .lift_bind (fun _ _ => ?_) fun _ _ => rfl
  refine .lift_bind (fun _ _ => ?_) fun _ _ => rfl
  refine (autocommit_books (fun a' => ∃ db log, dir = some (.database db) ∧ Represents key (slot.path world) log db ∧
    a' = a.put slot dir c) ?_).bind ?_ fun _ _ h => h
  · intro core db db' hagrees hdir hrun
    simp only [bind_eq_ok, pure_eq_ok] at hrun
    obtain ⟨_, hshape, rfl⟩ := hrun
    obtain ⟨state, hshows⟩ := hagrees.sound _ hdurable
    rw [hagrees.item slot _ (Account.put_self ..), hdir] at hshows
    obtain ⟨log, _, -, hdb, hrep, -⟩ := hshows.live_of_shape hshape
    cases hdb
    rw [hdir] at hcover
    exact ⟨hcover, db, log, hdir, hrep, by rw [hdir]⟩
  · rintro ⟨⟩ _ ⟨db, log, hdir, hrep, rfl⟩
    refine autocommit_books _ fun core found db' _ hfound hrun => ?_
    rw [hdir] at hfound hcover
    cases hfound
    obtain rfl := hrep.ensureWriteIndexes_eq hrun
    exact ⟨hcover, _, .existing hdir rfl (hrep.withSchema (.inr rfl)), rfl⟩

/-- The creation of a missing database takes nothing. -/
theorem createForWrite_books (slot : Slot) (env : OpenEnv) (generation : WorldGeneration)
    (hdir : ∀ db, dir ≠ some (.database db)) :
    BooksFollow key quota world (createForWrite env (slot.path world) generation) (a.put slot dir c)
      (Ends (fun _ a' => a' = a.put slot (some (.database (createdUpTo generation 11))) c) (Kept a slot .none c)) := by
  have hnone := chargeOf_of_no_database hdir
  refine .lift_bind (fun _ _ => ?_) fun _ _ => ⟨dir, hnone, rfl⟩
  have hmake : BooksFollow key quota world (Prog.modify fun core => core.createDirAll (slot.path world) :
      Prog Core SqlError PUnit) (a.put slot dir c) (Returns fun _ => Kept a slot .none c) := by
    refine .modify fun core _ => ?_
    unfold Core.createDirAll
    split
    · exact ⟨_, .quiet, _, rfl, dir, hnone, rfl⟩
    · exact ⟨_, replace_step slot (core.books_setDir _ _) (Nat.zero_le _) (Nat.zero_le _), _, rfl, some .empty, rfl, rfl⟩
  refine hmake.bind_returns ?_
  rintro _ _ ⟨made, hmade, rfl⟩
  refine .lift_bind (fun _ _ => ?_) fun _ _ => ⟨made, hmade, rfl⟩
  have hcreate : BooksFollow key quota world (Prog.modify fun core =>
      { core.setDir (slot.path world) (.database .empty) with
        journal := core.journal ++ [.created (slot.path world) generation] } : Prog Core SqlError PUnit)
      (a.put slot made c)
      (Returns fun _ a' => a' = a.put slot (some (.database (createdUpTo generation 0))) c) :=
    .modify fun core _ => ⟨_, replace_step slot (core.books_setDir _ _) (Nat.zero_le _) (Nat.zero_le _), _, rfl, rfl⟩
  refine hcreate.bind_returns ?_
  rintro _ _ rfl
  have hkept : Kept a slot .none c (a.put slot (some (.database (createdUpTo generation 0))) c) :=
    ⟨some (.database (createdUpTo generation 0)), charge_createdUpTo (Nat.zero_le _), rfl⟩
  refine .lift_bind (fun _ _ => ?_) fun _ _ => hkept
  refine (autocommit_books (· = a.put slot (some (.database (createdUpTo generation 0))) c) ?_).bind ?_ ?_
  · intro core db db' _ hdb hrun
    simp only [bind_eq_ok, pure_eq_ok] at hrun
    obtain ⟨_, -, rfl⟩ := hrun
    cases hdb
    exact ⟨⟨Nat.zero_le _, Nat.zero_le _⟩, rfl⟩
  · rintro ⟨⟩ _ rfl
    exact runCreate_books (Nat.zero_le _) rfl
  · rintro error _ rfl
    exact hkept

/-- The outcome of opening a directory for a write. -/
def OpenedBooks (key : AuditHmacKey) (path : ValidatedWorldPath) (a : Account) (slot : Slot) (dir : Option WorldDir)
    (c : Charge) : Except ε OpenedWorldKind → Account → Prop :=
  Ends (fun _ a' => ∃ db, Reopened key path dir db ∧ a' = a.put slot (some (.database db)) c)
    (Kept a slot (chargeOf dir) c)

/-- `open_world_paths_with_generation_minter_and_kind` takes nothing. -/
theorem openWorldPaths_books (slot : Slot) (env : OpenEnv) (hdurable : isMemoryWorld (slot.path world) = false)
    (hcover : c.Covers (chargeOf dir)) :
    BooksFollow key quota world (openWorldPaths env (slot.path world)) (a.put slot dir c)
      (OpenedBooks key (slot.path world) a slot dir c) := by
  have hlook : BooksFollow key quota world
      (Prog.atomically fun core => ((core.database (slot.path world)).isSome, core) : Prog Core SqlError Bool)
      (a.put slot dir c) (Returns fun existed a' => a' = a.put slot dir c ∧
        (existed = false → ∀ db, dir ≠ some (.database db))) := by
    refine .atomically fun core hagrees => ⟨_, .quiet, _, rfl, rfl, fun hmissing => ?_⟩
    have hnone := (core.database_eq_none _).mp (Option.isSome_eq_false_iff.mp hmissing |> Option.isNone_iff_eq_none.mp)
    have hitem := hagrees.item slot _ (Account.put_self ..)
    intro db hdb
    exact hnone db (hitem.trans hdb)
  refine hlook.bind_returns ?_
  rintro (_ | _) _ ⟨rfl, hmissing⟩
  · have hdir := hmissing rfl
    refine .lift_bind (fun generation _ => ?_) fun _ _ => ⟨dir, rfl, rfl⟩
    refine (createForWrite_books slot env generation hdir).bind ?_ ?_
    · rintro _ _ rfl
      exact ⟨_, .created hdir generation rfl, rfl⟩
    · intro error a' hkept
      show Kept a slot (chargeOf dir) c a'
      rw [chargeOf_of_no_database hdir]
      exact hkept
  · refine .lift_bind (fun _ _ => ?_) fun _ _ => ⟨dir, rfl, rfl⟩
    refine (openExistingForWrite_books slot env hdurable hcover).bind ?_ ?_
    · rintro _ _ ⟨db, hopened, rfl⟩
      exact ⟨db, hopened, rfl⟩
    · rintro error _ rfl
      exact ⟨dir, rfl, rfl⟩

/-- A cached connection is checked before it is used. -/
theorem cachedWriter_books (env : OpenEnv) (hdurable : isMemoryWorld world = false) :
    BooksFollow key quota world (cachedWriter env world) (a.put .world dir c)
      (Ends (fun found a' => a' = a.put .world dir c ∧ ∀ opened, found = some opened →
        ∃ db, dir = some (.database db) ∧ Reopened key world dir db) (· = a.put .world dir c)) := by
  refine .attempt (fun core found core' hagrees h => ?_) fun core error _ _ => ⟨_, .quiet, rfl⟩
  split at h
  · cases h
    exact ⟨_, .quiet, rfl, nofun⟩
  · next opened hconn =>
    simp only [bind_eq_ok, requireSome_eq_ok, pure_eq_ok, Prod.mk.injEq] at h
    obtain ⟨_, -, db, hdb, _, hshape, rfl, rfl⟩ := h
    have hitem : core.data.lookup world = dir := hagrees.item .world _ (Account.put_self ..)
    have hdir : dir = some (.database db) := hitem.symm.trans ((core.database_eq_some _).mp hdb)
    obtain ⟨state, hshows⟩ := hagrees.sound world hdurable
    rw [hitem, hdir] at hshows
    obtain ⟨log, _, -, hlive, hrep, -⟩ := hshows.live_of_shape hshape
    cases hlive
    exact ⟨_, .quiet, rfl, fun _ _ => ⟨db, hdir, .existing hdir rfl hrep⟩⟩

/-- The cache of connections is not part of the books. -/
theorem cacheWriter_books (opened : OpenedWorldKind) :
    BooksFollow key quota world (cacheWriter world opened) a (Returns fun _ a' => a' = a) := by
  refine .atomically fun core _ => ?_
  split
  · exact ⟨_, .quiet, _, rfl, rfl⟩
  · exact ⟨_, .quiet, _, rfl, rfl⟩

/-- `cached_write_conn` takes nothing. -/
theorem cachedWriteConn_books (env : OpenEnv) (hdurable : isMemoryWorld world = false)
    (hcover : c.Covers (chargeOf dir)) :
    BooksFollow key quota world (cachedWriteConn env world) (a.put .world dir c)
      (OpenedBooks key world a .world dir c) := by
  refine (cachedWriter_books env hdurable).bind ?_ (by rintro _ _ rfl; exact ⟨dir, rfl, rfl⟩)
  rintro (_ | opened) _ ⟨rfl, hcached⟩
  · refine (openWorldPaths_books .world env hdurable hcover).bind ?_ fun _ _ h => h
    rintro opened _ ⟨db, hopened, rfl⟩
    refine (cacheWriter_books opened).mono ?_
    rintro _ _ ⟨_, rfl, rfl⟩
    exact ⟨db, hopened, rfl⟩
  · obtain ⟨db, hdir, hopened⟩ := hcached opened rfl
    exact ⟨db, hopened, by rw [hdir]⟩

/-- `cached_existing_write_conn` takes nothing. -/
theorem cachedExistingWriteConn_books (env : OpenEnv) (hdurable : isMemoryWorld world = false)
    (hcover : c.Covers (chargeOf dir)) :
    BooksFollow key quota world (cachedExistingWriteConn env world) (a.put .world dir c)
      (Ends (fun found a' => match found with
        | some _ => ∃ db, Reopened key world dir db ∧ a' = a.put .world (some (.database db)) c
        | none => a' = a.put .world dir c) (Kept a .world (chargeOf dir) c)) := by
  refine (cachedWriter_books env hdurable).bind ?_ (by rintro _ _ rfl; exact ⟨dir, rfl, rfl⟩)
  rintro (_ | opened) _ ⟨rfl, hcached⟩
  · have hlook : BooksFollow key quota world
        (Prog.atomically fun core => ((core.database world).isSome, core) : Prog Core SqlError Bool)
        (a.put .world dir c) (Returns fun _ a' => a' = a.put .world dir c) :=
      .atomically fun core _ => ⟨_, .quiet, _, rfl, rfl⟩
    refine hlook.bind_returns ?_
    rintro (_ | _) _ rfl
    · exact rfl
    · refine (openExistingForWrite_books .world env hdurable hcover).bind ?_
        (by rintro _ _ rfl; exact ⟨dir, rfl, rfl⟩)
      rintro _ _ ⟨db, hopened, rfl⟩
      refine (cacheWriter_books .existing).bind_returns ?_
      rintro cached _ rfl
      exact ⟨db, hopened, rfl⟩
  · obtain ⟨db, hdir, hopened⟩ := hcached opened rfl
    exact ⟨db, hopened, by rw [hdir]⟩

/-- The lazy connection of the ledger takes nothing. -/
theorem openLedger_books (env : OpenEnv) (hcover : c.Covers (chargeOf dir)) :
    BooksFollow key quota world (openLedger env) (a.put .ledger dir c)
      (Ends (fun _ => Kept a .ledger (chargeOf dir) c) (Kept a .ledger (chargeOf dir) c)) := by
  have hlook : BooksFollow key quota world
      (Prog.atomically fun core => (core.ledgerConn, core) : Prog Core SqlError Bool) (a.put .ledger dir c)
      (Returns fun _ a' => a' = a.put .ledger dir c) := .atomically fun core _ => ⟨_, .quiet, _, rfl, rfl⟩
  refine hlook.bind_returns ?_
  rintro (_ | _) _ rfl
  · refine (openWorldPaths_books .ledger env isMemoryWorld_deleteLedgerWorld hcover).bind ?_ fun _ _ h => h
    rintro opened _ ⟨db, hopened, rfl⟩
    exact .modify fun core _ => ⟨_, .quiet, some (.database db), hopened.charge_eq, rfl⟩
  · exact ⟨dir, rfl, rfl⟩

end Opening

end AuditeDB
