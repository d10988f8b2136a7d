import Mathlib
import AuditeDB.Engine.Protocol

/-!
# The steps of opening and writing

Every step of an engine program is a step of the protocol. This is the part about opening databases, transactions
and notifications, which replaces, appends and deletes share.
-/

namespace AuditeDB

open Results Interleaving

/-- The lookup in a map after an insertion. -/
theorem lookup_insert_eq_update {α β : Type} [DecidableEq α] (map : AList fun _ : α => β) (key : α) (value : β) :
    (map.insert key value).lookup = Function.update map.lookup key (some value) := by
  funext other
  by_cases hother : other = key
  · rw [hother, AList.lookup_insert, Function.update_self]
  · rw [AList.lookup_insert_ne hother, Function.update_of_ne hother]

/-- The lookup in a map after the removal of a key. -/
theorem lookup_erase_eq_update {α β : Type} [DecidableEq α] (map : AList fun _ : α => β) (key : α) :
    (map.erase key).lookup = Function.update map.lookup key none := by
  funext other
  by_cases hother : other = key
  · rw [hother, AList.lookup_erase, Function.update_self]
  · rw [AList.lookup_erase_ne hother, Function.update_of_ne hother]

section View

variable (core : Core) (world : ValidatedWorldPath)

/-- The view after a change of a directory. -/
theorem Core.view_setDir (dir : WorldDir) : (core.setDir world dir).view = core.view.setDir world (some dir) := by
  simp only [view, setDir, View.setDir, lookup_insert_eq_update]
  rfl

/-- A database in the view. -/
theorem Core.database_eq_some {db : Database} : core.database world = some db ↔
    core.view.dir world = some (.database db) := by
  unfold database view
  split
  · next found hlookup => simp [hlookup]
  · next hlookup =>
    constructor
    · nofun
    · intro hdir
      exact absurd hdir (hlookup db)

/-- A missing database in the view. -/
theorem Core.database_eq_none : core.database world = none ↔
    ∀ db, core.view.dir world ≠ some (.database db) := by
  constructor
  · intro hnone db hdir
    rw [(core.database_eq_some world).mpr hdir] at hnone
    cases hnone
  · intro hdir
    cases hfound : core.database world with
    | none => rfl
    | some db => exact absurd ((core.database_eq_some world).mp hfound) (hdir db)

/-- The view after a change of a cached connection. -/
theorem Core.view_writeConns {conns : AList fun _ : ValidatedWorldPath => OpenedWorldKind}
    {conn : Option OpenedWorldKind} (hlookup : conns.lookup = Function.update core.writeConns.lookup world conn) :
    { core with writeConns := conns }.view = core.view.setConn world conn := by
  simp only [view, View.setConn, hlookup]

/-- The view after a change of the lock of a world. -/
theorem Core.view_worldLocks (locks : Finset ValidatedWorldPath) (locked : Bool) (hworld : world ≠ deleteLedgerWorld)
    (hlocks : ∀ path, path ∈ locks ↔ if path = world then locked = true else path ∈ core.worldLocks) :
    { core with worldLocks := locks }.view = core.view.setLock world locked := by
  simp only [view, View.setLock, View.mk.injEq, true_and, and_true]
  funext path
  by_cases hpath : path = world
  · have hmem := hlocks path
    rw [if_pos hpath] at hmem
    subst hpath
    simp [hworld, hmem]
  · have hmem := hlocks path
    rw [if_neg hpath] at hmem
    simp [hpath, hmem]

end View

section Local

variable (l : Local) (slot : Slot) (a b : Holding)

@[simp] theorem Local.hold_hold : (l.hold slot a).hold slot b = l.hold slot b := by
  simp [hold, Function.update_idem]

@[simp] theorem Local.hold_held : (l.hold slot a).held slot = some a := by simp [hold]

@[simp] theorem Local.hold_duties : (l.hold slot a).duties = l.duties := rfl

@[simp] theorem Local.hold_own : (l.hold slot a).own = l.own := rfl

@[simp] theorem Local.hold_checked : (l.hold slot a).checked = l.checked := rfl

/-- Holding one world does not touch the other. -/
theorem Local.hold_held_of_ne {other : Slot} (hne : other ≠ slot) : (l.hold slot a).held other = l.held other := by
  simp [hold, Function.update_of_ne hne]

/-- What is known about two worlds may be changed in any order. -/
theorem Local.hold_comm {other : Slot} (hne : slot ≠ other) :
    (l.hold slot a).hold other b = (l.hold other b).hold slot a := by
  simp [hold, Function.update_comm hne]

end Local

variable [HashSuite] {key : AuditHmacKey} {call : Call} {caller : Nat} {ε α : Type}

/-- A program takes the steps of a call. -/
abbrev CallFollows (key : AuditHmacKey) (call : Call) (caller : Nat) (program : Prog Core ε α) (l : Local)
    (post : Except ε α → Local → Prop) : Prop :=
  Follows (fun core _ => core.view.Keyed) (fun core l core' l' => Protocol key call caller core.view l core'.view l') program l post

section Opening

variable {l : Local} {slot : Slot} {pending : List SubscriptionEventId} {status : Status}

/-- A statement that fails leaves everything as it is. -/
theorem autocommit_follows {fault : Option SqlError} {statement : Database → SqlResult Database}
    (mid : Local → Prop) (hrun : ∀ (v : View) (db db' : Database), v.dir (slot.path call.world) = some (.database db) →
      statement db = .ok db' → ∃ l', Protocol key call caller v l
        (v.setDir (slot.path call.world) (some (.database db'))) l' ∧ mid l') :
    CallFollows key call caller (autocommit (slot.path call.world) fault statement) l
      (Ends (fun _ => mid) (· = l)) := by
  refine .attempt ?_ ?_
  · intro core value core' _ h
    simp only [bind_eq_ok, requireSome_eq_ok, pure_eq_ok, Prod.mk.injEq] at h
    obtain ⟨_, -, db, hdb, db', hstatement, -, rfl⟩ := h
    obtain ⟨l', hstep, hmid⟩ := hrun core.view db db' ((core.database_eq_some _).mp hdb) hstatement
    rw [← core.view_setDir] at hstep
    exact ⟨l', hstep, hmid⟩
  · intro core error _ _
    exact ⟨l, .quiet, rfl⟩

/-- What is known about a held world after a failure. -/
def Unsettled (l : Local) (slot : Slot) (pending : List SubscriptionEventId) (l' : Local) : Prop :=
  ∃ status, l' = l.hold slot ⟨status, pending⟩

/-- The creation statements run one after the other. -/
theorem runCreate_follows {generation : WorldGeneration} {stop : Option (Nat × SqlError)} {k : Nat}
    {statements : List (Database → SqlResult Database)}
    (hopens : slot.Opens call) (hstatements : (createStatements generation).drop k = statements) :
    CallFollows key call caller (runCreate (slot.path call.world) stop k statements)
      (l.hold slot ⟨.after generation k, pending⟩)
      (Ends (fun _ l' => l' = l.hold slot ⟨.ready .created, pending⟩) (Unsettled l slot pending)) := by
  induction statements generalizing k with
  | nil =>
    have hk : ¬ k < (createStatements generation).length := by
      rw [List.drop_eq_nil_iff] at hstatements
      omega
    show l.hold slot _ = _
    rw [Status.after, if_neg hk]
  | cons statement rest ih =>
    have hk : k < (createStatements generation).length := by
      by_contra hnot
      rw [List.drop_eq_nil_of_le (by omega)] at hstatements
      cases hstatements
    have hget : (createStatements generation)[k]? = some statement := by
      rw [← List.head?_drop, hstatements]
      rfl
    have hrest : (createStatements generation).drop (k + 1) = rest := by
      rw [← List.tail_drop, hstatements]
      rfl
    refine (autocommit_follows (· = l.hold slot ⟨.after generation (k + 1), pending⟩) ?_).bind ?_ ?_
    · intro v db db' hdir hrun
      have hheld : (l.hold slot ⟨.after generation k, pending⟩).held slot =
          some ⟨.creating generation k, pending⟩ := by
        rw [Local.hold_held, Status.after, if_pos hk]
      exact ⟨_, .statement slot hheld hdir hget hrun hopens, by simp⟩
    · rintro ⟨⟩ _ rfl
      exact ih hrest
    · rintro error _ rfl
      exact ⟨_, rfl⟩

/-- The result of opening the database of a held world. -/
def Opened (l : Local) (slot : Slot) (pending : List SubscriptionEventId) :
    Except SqlError OpenedWorldKind → Local → Prop :=
  Ends (fun opened l' => l' = l.hold slot ⟨.ready opened, pending⟩) (Unsettled l slot pending)

/-- An existing database is looked at before it is written. -/
theorem openExistingForWrite_follows (slot : Slot) (env : OpenEnv) (hopens : slot.Opens call) :
    CallFollows key call caller (openExistingForWrite env (slot.path call.world)) (l.hold slot ⟨status, pending⟩)
      (Ends (fun _ l' => l' = l.hold slot ⟨.ready .existing, pending⟩) (Unsettled l slot pending)) := by
  refine .lift_bind (fun _ _ => ?_) fun _ _ => ⟨_, rfl⟩
  refine .lift_bind (fun _ _ => ?_) fun _ _ => ⟨_, rfl⟩
  refine (autocommit_follows (· = l.hold slot ⟨.ready .existing, pending⟩) ?_).bind ?_ ?_
  · intro v db db' hdir hrun
    simp only [bind_eq_ok, pure_eq_ok] at hrun
    obtain ⟨_, hshape, rfl⟩ := hrun
    have hsame : v.setDir (slot.path call.world) (some (.database db)) = v := by
      rw [View.setDir, ← hdir, Function.update_eq_self]
    rw [hsame]
    exact ⟨_, .look slot (l.hold_held slot _) hdir hshape, by simp⟩
  · rintro ⟨⟩ _ rfl
    refine (autocommit_follows (· = l.hold slot ⟨.ready .existing, pending⟩) ?_).mono ?_
    · intro v db db' hdir hrun
      exact ⟨_, .indexes slot (l.hold_held slot _) hdir hrun hopens, rfl⟩
    · rintro (_ | _) _ rfl
      · exact ⟨_, rfl⟩
      · exact rfl
  · rintro error _ rfl
    exact ⟨_, rfl⟩

/-- A missing database is created. -/
theorem createForWrite_follows (env : OpenEnv) (generation : WorldGeneration)
    (hdurable : isMemoryWorld (slot.path call.world) = false) (hopens : slot.Opens call) :
    CallFollows key call caller (createForWrite env (slot.path call.world) generation)
      (l.hold slot ⟨.missing, pending⟩)
      (Ends (fun _ l' => l' = l.hold slot ⟨.ready .created, pending⟩) (Unsettled l slot pending)) := by
  refine .lift_bind (fun _ _ => ?_) fun _ _ => ⟨_, rfl⟩
  intro core _ _
  refine ⟨l.hold slot ⟨.missing, pending⟩, ?_, ?_⟩
  · show Protocol key call caller core.view _ (core.createDirAll _).view _
    unfold Core.createDirAll
    split
    · exact .quiet
    · rw [core.view_setDir]
      exact .makeDir slot (l.hold_held slot _) hopens
  refine .lift_bind (fun _ _ => ?_) fun _ _ => ⟨_, rfl⟩
  intro core' _ _
  refine ⟨l.hold slot ⟨.after generation 0, pending⟩, ?_, ?_⟩
  · have hstep := @Protocol.create _ key call caller core'.view _ slot pending generation (l.hold_held slot _)
      hdurable hopens
    rw [← core'.view_setDir, Local.hold_hold] at hstep
    exact hstep
  refine .lift_bind (fun _ _ => ?_) fun _ _ => ⟨_, rfl⟩
  refine (autocommit_follows (· = l.hold slot ⟨.after generation 0, pending⟩) ?_).bind ?_ ?_
  · intro v db db' hdir hrun
    simp only [bind_eq_ok, pure_eq_ok] at hrun
    obtain ⟨_, -, rfl⟩ := hrun
    have hsame : v.setDir (slot.path call.world) (some (.database db)) = v := by
      rw [View.setDir, ← hdir, Function.update_eq_self]
    rw [hsame]
    exact ⟨_, .quiet, rfl⟩
  · rintro ⟨⟩ _ rfl
    exact runCreate_follows hopens rfl
  · rintro error _ rfl
    exact ⟨_, rfl⟩

/-- `open_world_paths_with_generation_minter_and_kind` under the lock. -/
theorem openWorldPaths_follows (slot : Slot) (env : OpenEnv)
    (hdurable : isMemoryWorld (slot.path call.world) = false) (hopens : slot.Opens call) :
    CallFollows key call caller (openWorldPaths env (slot.path call.world)) (l.hold slot ⟨status, pending⟩)
      (Opened l slot pending) := by
  have hlook : CallFollows key call caller
      (Prog.atomically fun core => ((core.database (slot.path call.world)).isSome, core) : Prog Core SqlError Bool)
      (l.hold slot ⟨status, pending⟩) (Returns fun existed l' =>
        if existed then l' = l.hold slot ⟨status, pending⟩ else l' = l.hold slot ⟨.missing, pending⟩) := by
    refine .atomically fun core _ => ?_
    cases hdatabase : core.database (slot.path call.world) with
    | some db => exact ⟨_, .quiet, true, rfl, rfl⟩
    | none =>
      exact ⟨_, .missing slot (l.hold_held slot _) ((core.database_eq_none _).mp hdatabase), false, rfl, by simp⟩
  refine hlook.bind_returns ?_
  rintro (_ | _) l' hl'
  · obtain rfl : l' = _ := hl'
    refine .lift_bind (fun generation _ => ?_) fun _ _ => ⟨_, rfl⟩
    refine (createForWrite_follows env generation hdurable hopens).bind ?_ fun _ _ h => h
    rintro _ _ rfl
    exact rfl
  · obtain rfl : l' = _ := hl'
    refine .lift_bind (fun _ _ => ?_) fun _ _ => ⟨_, rfl⟩
    refine (openExistingForWrite_follows slot env hopens).bind ?_ fun _ _ h => h
    rintro _ _ rfl
    exact rfl

/-- A cached connection is checked before it is used. -/
theorem cachedWriter_follows (env : OpenEnv) :
    CallFollows key call caller (cachedWriter env call.world) (l.hold .world ⟨status, pending⟩)
      (Ends (fun found l' => l' = l.hold .world ⟨found.elim status .ready, pending⟩)
        (· = l.hold .world ⟨status, pending⟩)) := by
  refine .attempt ?_ fun core error _ _ => ⟨_, .quiet, rfl⟩
  intro core found core' _ h
  split at h
  · cases h
    exact ⟨_, .quiet, rfl⟩
  · next opened hconn =>
    simp only [bind_eq_ok, requireSome_eq_ok, pure_eq_ok, Prod.mk.injEq] at h
    obtain ⟨_, -, db, hdb, _, hshape, rfl, rfl⟩ := h
    exact ⟨_, .reuse (l.hold_held .world _) hconn ((core.database_eq_some _).mp hdb) hshape, by simp [Ends]⟩

/-- A new connection is cached unless one is there. -/
theorem cacheWriter_follows (opened : OpenedWorldKind) :
    CallFollows key call caller (cacheWriter call.world opened) (l.hold .world ⟨.ready opened, pending⟩)
      (Returns fun cached l' => l' = l.hold .world ⟨.ready cached, pending⟩) := by
  refine .atomically fun core _ => ?_
  have hstep := @Protocol.cache _ key call caller core.view _ pending opened (l.hold_held .world _)
  cases hconn : core.writeConns.lookup call.world with
  | some cached =>
    have hview : core.view.conn call.world = some cached := hconn
    rw [hview, Option.getD_some, View.setConn, ← hview, Function.update_eq_self] at hstep
    exact ⟨_, hstep, cached, rfl, by simp⟩
  | none =>
    have hview : core.view.conn call.world = none := hconn
    rw [hview, Option.getD_none, ← core.view_writeConns call.world (lookup_insert_eq_update _ _ _)] at hstep
    exact ⟨_, hstep, opened, rfl, by simp⟩

/-- `cached_write_conn` under the lock. -/
theorem cachedWriteConn_follows (env : OpenEnv) (hdurable : isMemoryWorld call.world = false)
    (hwrite : call.operation.isWrite = true) :
    CallFollows key call caller (cachedWriteConn env call.world) (l.hold .world ⟨status, pending⟩)
      (Opened l .world pending) := by
  refine (cachedWriter_follows env).bind ?_ fun _ _ h => ⟨status, h⟩
  rintro (_ | opened) _ rfl
  · refine (openWorldPaths_follows .world env hdurable fun _ => hwrite).bind ?_ fun _ _ h => h
    rintro opened _ rfl
    refine (cacheWriter_follows opened).mono ?_
    rintro _ _ ⟨cached, rfl, rfl⟩
    exact rfl
  · exact rfl

/-- `cached_existing_write_conn` under the lock. -/
theorem cachedExistingWriteConn_follows (env : OpenEnv) (hwrite : call.operation.isWrite = true) :
    CallFollows key call caller (cachedExistingWriteConn env call.world) (l.hold .world ⟨status, pending⟩)
      (Ends (fun found l' => ∃ status, l' = l.hold .world ⟨status, pending⟩ ∧
        ∀ opened, found = some opened → status = .ready opened) (Unsettled l .world pending)) := by
  refine (cachedWriter_follows env).bind ?_ fun _ _ h => ⟨status, h⟩
  rintro (_ | opened) _ rfl
  · have hlook : CallFollows key call caller
        (Prog.atomically fun core => ((core.database call.world).isSome, core) : Prog Core SqlError Bool)
        (l.hold .world ⟨status, pending⟩) (Returns fun _ l' => l' = l.hold .world ⟨status, pending⟩) :=
      .atomically fun core _ => ⟨_, .quiet, _, rfl, rfl⟩
    refine hlook.bind_returns ?_
    rintro (_ | _) _ rfl
    · exact ⟨_, rfl, nofun⟩
    · refine (openExistingForWrite_follows .world env fun _ => hwrite).bind ?_ fun _ _ h => h
      rintro _ _ rfl
      refine (cacheWriter_follows .existing).bind_returns ?_
      rintro cached _ rfl
      exact ⟨_, rfl, fun opened hopened => by cases hopened; rfl⟩
  · exact ⟨_, rfl, fun _ hopened => by cases hopened; rfl⟩

end Opening

section Transactions

variable {l : Local} {status : Status}

/-- An attempt that changes nothing in the view is no step of the protocol. -/
theorem attempt_follows {f : Core → Except ε (α × Core)} {l : Local}
    (hview : ∀ core value core', f core = .ok (value, core') → core'.view = core.view) :
    CallFollows key call caller (Prog.attempt f) l fun _ l' => l' = l := by
  refine .attempt (fun core value core' _ h => ?_) fun core error _ _ => ⟨l, .quiet, rfl⟩
  rw [hview core value core' h]
  exact ⟨l, .quiet, rfl⟩

/-- A step that changes nothing in the view. -/
theorem modify_follows {act : Core → Core} (hview : ∀ core, (act core).view = core.view) {l : Local} :
    CallFollows key call caller (Prog.modify act : Prog Core ε PUnit) l (Returns fun _ l' => l' = l) :=
  .modify fun core _ => ⟨l, by rw [hview]; exact .quiet, _, rfl, rfl⟩

/-- A step that changes the byte counters. -/
theorem account_follows {act : Core → Core} (hview : ∀ core, ∃ bytes, (act core).view = { core.view with bytes := bytes })
    {l : Local} (hmay : call.operation.isWrite = true ∨ .removed caller call.world ∈ l.own) :
    CallFollows key call caller (Prog.modify act : Prog Core ε PUnit) l (Returns fun _ l' => l' = l) := by
  refine .modify fun core _ => ?_
  obtain ⟨bytes, hbytes⟩ := hview core
  exact ⟨l, by rw [hbytes]; exact .account bytes hmay, _, rfl, rfl⟩

/-- An event of a row is announced while the row is pending. -/
theorem notifyWithAux_follows (config : Config) (verb : ChangeVerb) (target : ChangeTarget) (etag : String)
    (aux : ChangeEventAux) {l : Local} {slot : Slot} {id : SubscriptionEventId} {pending : List SubscriptionEventId}
    (hidentity : target.identity = some id) (hheld : l.held slot = some ⟨status, id :: pending⟩) :
    CallFollows key call caller (notifyWithAux config verb target etag aux : Prog Core ε PUnit) l
      (Returns fun _ l' => l' = l.hold slot ⟨status, pending⟩) := by
  intro core _ _
  refine ⟨l, .quiet, ?_⟩
  refine (modify_follows fun _ => rfl).bind_returns ?_
  rintro _ _ rfl
  exact .modify fun core' _ => ⟨_, .send slot hheld hidentity, _, rfl, rfl⟩

/-- An event without a row is announced at any time. -/
theorem notifyWithAux_signal_follows (config : Config) (verb : ChangeVerb) (target : ChangeTarget) (etag : String)
    (aux : ChangeEventAux) {l : Local} (hidentity : target.identity = none) :
    CallFollows key call caller (notifyWithAux config verb target etag aux : Prog Core ε PUnit) l
      (Returns fun _ l' => l' = l) := by
  intro core _ _
  refine ⟨l, .quiet, ?_⟩
  refine (modify_follows fun _ => rfl).bind_returns ?_
  rintro _ _ rfl
  exact .modify fun core' _ => ⟨_, .signal hidentity, _, rfl, rfl⟩

/-- A format row is announced when there is one. -/
theorem notifyFormat_follows (config : Config) (formatEvent : Option AppendedAuditRow) {l : Local} {slot : Slot}
    {pending : List SubscriptionEventId}
    (hheld : l.held slot = some ⟨status, (formatEvent.map AppendedAuditRow.eventId).toList ++ pending⟩) :
    CallFollows key call caller (notifyFormat config formatEvent : Prog Core ε PUnit) l
      (Returns fun _ l' => l' = l.hold slot ⟨status, pending⟩) := by
  cases formatEvent with
  | none =>
    refine ⟨_, rfl, ?_⟩
    have hsame : Function.update l.held slot (some ⟨status, pending⟩) = l.held := by
      rw [Function.update_eq_self_iff]
      exact hheld.symm
    rw [Local.hold, hsame]
  | some row => exact notifyWithAux_follows config .format row.changeTarget (hmacEtag row.hmac) .default rfl hheld

/-- A call holds the lock of its world while its body runs. -/
theorem withWorldLock_follows {body : Prog Core ε α} {l : Local} {post : Except ε α → Local → Prop}
    (hworld : call.world ≠ deleteLedgerWorld) (hnone : l.held .world = none) (hchecked : l.checked = none)
    (hbody : CallFollows key call caller body (l.hold .world ⟨.unknown, []⟩) fun outcome l' =>
      (∃ status, l'.held .world = some ⟨status, []⟩) ∧ Disjoint l'.duties Slot.world.duties ∧
        post outcome (l'.release .world)) :
    CallFollows key call caller (withWorldLock call.world body) l post := by
  intro core _ hfree
  have hfree : call.world ∉ core.worldLocks := by simpa using hfree
  have hlocked : core.view.locked call.world = false := by simp [Core.view, hworld, hfree]
  have htaken := core.view_worldLocks call.world (insert call.world core.worldLocks) true hworld
    fun path => by by_cases hpath : path = call.world <;> simp [hpath]
  refine ⟨l.hold .world ⟨.unknown, []⟩, ?_, hbody.ensuring ?_⟩
  · show Protocol key call caller core.view l (Core.view _) _
    rw [htaken]
    exact .lock .world hworld hlocked hnone hchecked
  · rintro outcome l' ⟨⟨status, hheld⟩, hduties, hpost⟩ core' _
    have hgiven := core'.view_worldLocks call.world (core'.worldLocks.erase call.world) false hworld
      fun path => by by_cases hpath : path = call.world <;> simp [hpath]
    refine ⟨l'.release .world, ?_, hpost⟩
    rw [hgiven]
    exact .unlock .world hheld hduties

/-- A read of a durable world reads its database. -/
theorem Core.database_of_read {config : Config} {core : Core} {world : ValidatedWorldPath} {stage : Stage} {tag : String}
    (hdurable : isMemoryWorld world = false) (h : core.readWorldWithEtag config world = .ok (some (stage, tag))) :
    ∃ db hmac, core.view.dir world = some (.database db) ∧ verifyOpenShape db = .ok () ∧
      readWithHmac config.hmacKey world db = .ok (stage, hmac) ∧
      tag = (hmac.map hmacEtag).getD (bodyEtag stage.body) := by
  unfold readWorldWithEtag at h
  rw [hdurable] at h
  simp only [Bool.false_eq_true, if_false, bind_eq_ok, liftSql_eq_ok] at h
  obtain ⟨found, hopen, h⟩ := h
  cases found with
  | none => cases h
  | some db =>
    simp only [bind_eq_ok, pure_eq_ok, Prod.exists, Option.some.injEq, Prod.mk.injEq] at h
    obtain ⟨_, hmac, hread, rfl, rfl⟩ := h
    unfold openExisting at hopen
    cases hdatabase : core.database world with
    | none => rw [hdatabase] at hopen; cases hopen
    | some found =>
      rw [hdatabase] at hopen
      simp only [bind_eq_ok, pure_eq_ok, Option.some.injEq] at hopen
      obtain ⟨_, hshape, rfl⟩ := hopen
      exact ⟨_, hmac, (core.database_eq_some world).mp hdatabase, hshape, hread, rfl⟩

/-- A read of a durable world returns its tag. -/
theorem Core.hasTag_of_read {config : Config} {core : Core} {world : ValidatedWorldPath} {stage : Stage} {tag : String}
    (hdurable : isMemoryWorld world = false) (h : core.readWorldWithEtag config world = .ok (some (stage, tag))) :
    core.view.HasTag config.hmacKey world tag := by
  obtain ⟨db, hmac, hdir, hshape, hread, htag⟩ := Core.database_of_read hdurable h
  exact ⟨db, stage, hmac, hdir, hshape, hread, htag⟩

/-- A passed precondition leaves the tag it was checked against. -/
theorem Core.check_step {config : Config} {core : Core} {current : Option (Stage × String)} {holding : Holding}
    (hdurable : isMemoryWorld call.world = false) (hkey : config.hmacKey = key) (hheld : l.held .world = some holding)
    (hread : core.readWorldWithEtag config call.world = .ok current)
    (hcheck : checkPreconditions call.operation.preconditions (current.map Prod.snd) = .ok ()) :
    ∃ l', Protocol key call caller core.view l core.view l' ∧ l'.MayWrite call.operation ∧
      ∃ checked, l' = { l with checked := checked } := by
  cases current with
  | none =>
    refine ⟨l, .quiet, fun tag htag => ?_, l.checked, rfl⟩
    cases currentTag_of_requiredTag htag hcheck
  | some found =>
    have htag := core.hasTag_of_read hdurable hread
    rw [hkey] at htag
    refine ⟨_, .check hheld htag, fun tag hrequired => ?_, _, rfl⟩
    exact currentTag_of_requiredTag hrequired hcheck

/-- The local state after a committed effect on the own world. -/
def Local.after (l : Local) (entry : JournalEntry) (opened : OpenedWorldKind) (pending : List SubscriptionEventId)
    (duties : Finset Duty) : Local :=
  { l.hold .world ⟨.ready opened, pending⟩ with own := l.own ++ [entry], duties := duties, checked := none }

/-- The local state after a committed write with pending rows and some of its duties. -/
def Wrote (call : Call) (caller : Nat) (l : Local) (opened : OpenedWorldKind) (duties : Finset Duty)
    (result : WriteAuditResult) (l' : Local) : Prop :=
  ∃ db db' entry, entry = .wrote caller call.world (call.operation.treats opened) db result db' ∧
    l' = l.after entry opened entry.eventIds duties

/-- A write transaction commits with its journal entry. -/
theorem commitTransaction_follows (env : WriteEnv) {opened treated : OpenedWorldKind}
    {transaction : Bool → Database → WriteResult (WriteAuditResult × Database)}
    (hdurable : isMemoryWorld call.world = false) (hcheck : l.MayWrite call.operation) (hduties : l.duties = ∅)
    (htreats : call.operation.treats opened = treated)
    (hrun : ∀ verified db result db', transaction verified db = .ok (result, db') →
      call.operation.Transaction key call.world opened db result db') :
    CallFollows key call caller (commitTransaction env caller call.world treated transaction)
      (l.hold .world ⟨.ready opened, []⟩)
      (Ends (Wrote call caller l opened (call.operation.duties opened)) (Unsettled l .world [])) := by
  refine .attempt ?_ fun core error _ _ => ⟨_, .quiet, _, rfl⟩
  intro core result core' _ h
  simp only [mapError_eq_ok, bind_eq_ok, requireSome_eq_ok, pure_eq_ok, Prod.exists, Prod.mk.injEq] at h
  obtain ⟨_, -, db, hdb, _, db', htransaction, rfl, rfl⟩ := h
  have hstep := @Protocol.write _ key call caller core.view (l.hold .world ⟨.ready opened, []⟩) opened db db' _ _
    (l.hold_held .world _) hdurable ((core.database_eq_some _).mp hdb) hcheck (hrun _ _ _ _ htransaction) rfl
  rw [← core.view_setDir, htreats] at hstep
  refine ⟨_, hstep, db, db', _, rfl, ?_⟩
  simp [Local.after, Local.record, Local.owe, Local.spend, hduties, htreats]

end Transactions

end AuditeDB
