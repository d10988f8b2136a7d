import Mathlib
import AuditeDB.Engine.Timelines

/-!
# The order of a delete

A delete records its intent in the ledger, removes the world, and records the commit. The journal keeps the order in
which these took effect, in every interleaving of calls and whatever fails: a world goes only behind its intent, a
commit row only behind the removal, and a delete without an intent changes nothing. The rows of the ledger are the
ledger entries of the journal, and the chain of the ledger verifies at any time.
-/

namespace AuditeDB

open Results Interleaving Traces

/-- What has to stand in the journal before an entry: the intent of a removal, and the removal of a row that is not
an intent. -/
def JournalEntry.Justified (before : List JournalEntry) : JournalEntry → Prop
  | .removed caller world => ∃ event, .logged caller event ∈ before ∧ LedgerRow world .deleteIntent event
  | .logged caller event => event.eventType ≠ .deleteIntent → .removed caller event.target ∈ before
  | .created _ _ | .wrote _ _ _ _ _ _ | .stored _ _ _ => True

/-- Every entry of a journal stands behind what it needs. -/
def DeletesInOrder (journal : List JournalEntry) : Prop :=
  ∀ before entry, before ++ [entry] <+: journal → entry.Justified before

/-- One more entry. -/
theorem DeletesInOrder.snoc {journal : List JournalEntry} {entry : JournalEntry} (h : DeletesInOrder journal)
    (hentry : entry.Justified journal) : DeletesInOrder (journal ++ [entry]) := by
  intro before other hprefix
  rcases List.prefix_concat_iff.mp hprefix with heq | hprefix
  · obtain ⟨rfl, rfl⟩ := List.append_singleton_inj.mp heq
    exact hentry
  · exact h before other hprefix

/-- A stored row is the one that was reported. -/
structure EventRecord.IsRow (e : EventRecord) (row : AppendedAuditRow) : Prop where
  id : e.id = row.id.get
  kind : e.eventType = .text row.eventType.asStr
  target : e.target = .text row.target.name
  hmac : e.hmac = .text row.hmac

/-- A database holds the row of a ledger event. -/
def Database.HoldsLedgerRow (db : Database) (event : AppendedLedgerEvent) : Prop :=
  ∃ e ∈ db.events, e.IsRow event.row

/-- A world exists: its entry in memory, or its database. -/
def Core.hasWorld (core : Core) (world : ValidatedWorldPath) : Bool :=
  if isMemoryWorld world then (core.view.entry world).isSome else (core.database world).isSome

/-- The data of a world and the storage byte counters are the same in two states. -/
structure Core.SameStorage (core core' : Core) (world : ValidatedWorldPath) : Prop where
  files : core'.data.lookup world = core.data.lookup world
  entry : core'.mem.map.lookup world = core.mem.map.lookup world
  bodyBytes : core'.storageBodyBytes = core.storageBodyBytes
  currentBodyBytes : core'.storageCurrentBodyBytes = core.storageCurrentBodyBytes
  retainedCasBodyBytes : core'.storageRetainedCasBodyBytes = core.storageRetainedCasBodyBytes

section Steps

variable [HashSuite] {key : AuditHmacKey} {call : Call} {caller : Nat} {v v' : View} {l l' : Local}

/-- Every entry that a call adds to the journal stands behind what it needs. -/
theorem Protocol.justified (hstep : Protocol key call caller v l v' l') (hown : ∀ entry ∈ l.own, entry ∈ v.journal)
    (hordered : DeletesInOrder v.journal) : DeletesInOrder v'.journal := by
  cases hstep with
  | create => exact hordered.snoc trivial
  | write _ _ _ _ _ hentry => exact hordered.snoc (by rw [hentry]; trivial)
  | store => exact hordered.snoc trivial
  | log _ _ _ _ hjob hremoved _ hrun =>
    refine hordered.snoc fun hkind => ?_
    obtain ⟨hevent, htarget, -⟩ := ledgerTransaction_event hrun
    rw [hevent] at hkind
    rw [htarget, hjob.target]
    exact hown _ (hremoved hkind)
  | remove _ _ _ hintent =>
    obtain ⟨event, hevent, hkind, htarget⟩ := hintent
    exact hordered.snoc ⟨event, hown _ hevent, hkind, htarget⟩
  | removeMemory _ _ hintent =>
    obtain ⟨event, hevent, hkind, htarget⟩ := hintent
    exact hordered.snoc ⟨event, hown _ hevent, hkind, htarget⟩
  | _ => exact hordered

/-- A delete without an entry in the journal leaves its world and the byte counters alone. -/
theorem Protocol.unchanged (hstep : Protocol key call caller v l v' l') (hdelete : call.operation.isWrite = false)
    (hworld : ∀ slot, (l.held slot).isSome = true → call.world ≠ deleteLedgerWorld)
    (hnone : .removed caller call.world ∉ l'.own) :
    v'.dir call.world = v.dir call.world ∧ v'.entry call.world = v.entry call.world ∧ v'.bytes = v.bytes := by
  have hother : ∀ {slot : Slot} {holding : Holding} (dir : Option WorldDir), l.held slot = some holding →
      slot.Opens call → Function.update v.dir (slot.path call.world) dir call.world = v.dir call.world := by
    intro slot holding dir hheld hopens
    cases slot with
    | world =>
      have hwrite := hopens rfl
      rw [hdelete] at hwrite
      cases hwrite
    | ledger => exact Function.update_of_ne (hworld .ledger (by rw [hheld]; rfl)) _ _
  cases hstep with
  | makeDir slot hheld hopens => exact ⟨hother _ hheld hopens, rfl, rfl⟩
  | create slot _ hheld _ hopens => exact ⟨hother _ hheld hopens, rfl, rfl⟩
  | statement slot hheld _ _ _ hopens => exact ⟨hother _ hheld hopens, rfl, rfl⟩
  | indexes slot hheld _ _ hopens => exact ⟨hother _ hheld hopens, rfl, rfl⟩
  | write _ _ _ _ hrun =>
    cases hoperation : call.operation with
    | replace => rw [hoperation] at hdelete; cases hdelete
    | append => rw [hoperation] at hdelete; cases hdelete
    | delete => rw [hoperation] at hrun; exact hrun.elim
  | store _ _ hrun =>
    cases hoperation : call.operation with
    | replace => rw [hoperation] at hdelete; cases hdelete
    | append => rw [hoperation] at hdelete; cases hdelete
    | delete => rw [hoperation] at hrun; exact hrun.elim
  | account _ hmay =>
    rcases hmay with hwrite | hremoved
    · rw [hdelete] at hwrite
      cases hwrite
    · exact absurd hremoved hnone
  | log hheld => exact ⟨hother _ hheld nofun, rfl, rfl⟩
  | remove => exact absurd (List.mem_append_right _ (List.mem_singleton.mpr rfl)) hnone
  | removeMemory => exact absurd (List.mem_append_right _ (List.mem_singleton.mpr rfl)) hnone
  | _ => exact ⟨rfl, rfl, rfl⟩

omit [HashSuite] in
/-- A database that is put in place takes no other away. -/
theorem View.setDir_keeps {path : ValidatedWorldPath} (hstored : ∃ db, v.dir path = some (.database db))
    (other : ValidatedWorldPath) (db' : Database) :
    ∃ db, (v.setDir other (some (.database db'))).dir path = some (.database db) := by
  by_cases hpath : path = other
  · subst hpath
    exact ⟨db', Function.update_self ..⟩
  · obtain ⟨db, hdb⟩ := hstored
    exact ⟨db, (Function.update_of_ne hpath _ _).trans hdb⟩

/-- A step that takes a durable world away is its removal. -/
theorem Protocol.removes_database (hstep : Protocol key call caller v l v' l') {path : ValidatedWorldPath}
    (hstored : ∃ db, v.dir path = some (.database db)) (hgone : ¬ ∃ db, v'.dir path = some (.database db))
    (hmissing : ∀ slot pending, l.held slot = some ⟨.missing, pending⟩ → slot.path call.world ≠ path) :
    v'.journal = v.journal ++ [.removed caller path] := by
  cases hstep with
  | makeDir slot hheld =>
    obtain ⟨db, hdb⟩ := hstored
    have hpath := (hmissing slot _ hheld).symm
    exact absurd ⟨db, (Function.update_of_ne hpath _ _).trans hdb⟩ hgone
  | create => exact absurd (View.setDir_keeps hstored _ _) hgone
  | statement => exact absurd (View.setDir_keeps hstored _ _) hgone
  | indexes => exact absurd (View.setDir_keeps hstored _ _) hgone
  | write => exact absurd (View.setDir_keeps hstored _ _) hgone
  | log => exact absurd (View.setDir_keeps hstored _ _) hgone
  | remove =>
    by_cases hpath : path = call.world
    · subst hpath
      rfl
    · obtain ⟨db, hdb⟩ := hstored
      exact absurd ⟨db, (Function.update_of_ne hpath _ _).trans hdb⟩ hgone
  | _ => exact absurd hstored hgone

/-- A step that takes a world in memory away is its removal. -/
theorem Protocol.removes_entry (hstep : Protocol key call caller v l v' l') {path : ValidatedWorldPath}
    (hstored : (v.entry path).isSome = true) (hgone : (v'.entry path).isSome = false) :
    v'.journal = v.journal ++ [.removed caller path] := by
  have hsame : v'.entry path ≠ v.entry path := by
    intro hsame
    rw [hsame, hstored] at hgone
    cases hgone
  cases hstep with
  | @store _ entry =>
    by_cases hpath : path = call.world
    · subst hpath
      have hput : (Function.update v.entry call.world (some entry) call.world).isSome = true := by
        rw [Function.update_self]
        rfl
      exact absurd (hput.symm.trans hgone) Bool.noConfusion
    · exact absurd (Function.update_of_ne hpath _ _) hsame
  | removeMemory =>
    by_cases hpath : path = call.world
    · subst hpath
      rfl
    · exact absurd (Function.update_of_ne hpath _ _) hsame
  | _ => exact absurd rfl hsame

/-- A step that records a removal leaves nothing of the world. -/
theorem Protocol.removed (hstep : Protocol key call caller v l v' l') {path : ValidatedWorldPath} {other : Nat}
    (hjournal : v'.journal = v.journal ++ [.removed other path]) :
    if isMemoryWorld path then v'.entry path = none else v'.dir path = none := by
  have hsilent : v'.journal ≠ v.journal := by
    rw [hjournal]
    simp
  have hlast : ∀ {entry : JournalEntry}, v.journal ++ [entry] = v.journal ++ [.removed other path] →
      entry = .removed other path := fun h => List.singleton_inj.mp (List.append_cancel_left h)
  cases hstep with
  | create => cases hlast hjournal
  | write _ _ _ _ _ hentry => exact absurd (hentry ▸ hlast hjournal) (by simp)
  | store => cases hlast hjournal
  | log => cases hlast hjournal
  | remove _ hdurable =>
    cases hlast hjournal
    rw [if_neg (by simp [hdurable])]
    exact Function.update_self ..
  | removeMemory _ hmemory =>
    cases hlast hjournal
    rw [if_pos hmemory]
    exact Function.update_self ..
  | _ => exact absurd rfl hsilent

end Steps

section Rows

variable [HashSuite] {key : AuditHmacKey} {did : Nat → Operation → Prop} {world : ValidatedWorldPath}
  {rows : List TimelineRow} {log : WorldLog} {db : Database}

/-- The row of a format event is of the kind of a format event. -/
theorem Opening.kind_of_formatRows {generation : WorldGeneration} {entries opening : List LogEntry}
    {formatEvent : Option AppendedAuditRow} (h : Opening key world generation entries formatEvent opening)
    {r : TimelineRow} (hr : r ∈ formatRows formatEvent) : r.row.eventType = .format := by
  cases h with
  | existing => cases hr
  | format hkind _ hrecords =>
    obtain rfl := List.mem_singleton.mp hr
    rw [hrecords.fields]
    exact hkind

/-- The ledger exists from its first row on, and its timeline has every row. -/
theorem told_of_logged {labels : List JournalEntry} {state : Option WorldLog}
    (h : Trace (LogStep key did deleteLedgerWorld) none labels state) {caller : Nat} {event : AppendedLedgerEvent}
    (hevent : .logged caller event ∈ labels) :
    state ≠ none ∧ ∃ r ∈ labels.foldl JournalEntry.extendTimeline [], r.row = event.row := by
  induction h with
  | refl => cases hevent
  | snoc _ hstep ih =>
    rw [List.foldl_append]
    rcases List.mem_append.mp hevent with hbefore | hlast
    · obtain ⟨hsome, r, hr, hrow⟩ := ih hbefore
      cases hstep with
      | created => exact absurd rfl hsome
      | wrote hworld => exact absurd rfl hworld
      | logged =>
        exact ⟨nofun, r, List.mem_append_left _ (List.mem_append_left _ hr), hrow⟩
      | removed hworld => exact absurd rfl hworld
    · cases List.mem_singleton.mp hlast
      cases hstep
      exact ⟨nofun, _, List.mem_append_right _ (List.mem_singleton.mpr rfl), rfl⟩

/-- Every row of the timeline of the ledger but a format row was logged. -/
theorem logged_of_told {labels : List JournalEntry} {state : Option WorldLog}
    (h : Trace (LogStep key did deleteLedgerWorld) none labels state) {r : TimelineRow}
    (hr : r ∈ labels.foldl JournalEntry.extendTimeline []) (hkind : r.row.eventType ≠ .format) :
    ∃ caller event, .logged caller event ∈ labels ∧ event.row = r.row := by
  induction h with
  | refl => cases hr
  | snoc _ hstep ih =>
    rw [List.foldl_append] at hr
    cases hstep with
    | created => cases hr
    | wrote hworld => exact absurd rfl hworld
    | logged _ _ hlogs =>
      obtain ⟨opening, timestamp, row, hopening, -⟩ := hlogs.entries
      rcases List.mem_append.mp hr with hbefore | hlast
      · rcases List.mem_append.mp hbefore with hbefore | hformat
        · obtain ⟨caller, event, hmem, hrow⟩ := ih hbefore
          exact ⟨caller, event, List.mem_append_left _ hmem, hrow⟩
        · exact absurd (hopening.kind_of_formatRows hformat) hkind
      · obtain rfl := List.mem_singleton.mp hlast
        exact ⟨_, _, List.mem_append_right _ (List.mem_singleton.mpr rfl), rfl⟩
    | removed hworld => exact absurd rfl hworld

/-- The stored rows of a history are those of its timeline, one for one. -/
theorem Tells.isRow (h : Tells key world rows log.generation log.entries) (hrep : Represents key world log db) :
    List.Forall₂ (fun e r => e.IsRow r.row) db.events (rows.map TimelineRow.toCommittedRow) := by
  rw [hrep.chain.events, List.forall₂_map_left_iff]
  refine h.reported.matches.imp ?_
  rintro event r ⟨e, -, prev, hmatches⟩
  obtain ⟨hrendered, hfields, -⟩ := hmatches
  refine ⟨?_, ?_, ?_, ?_⟩
  · rw [hrendered]
    rfl
  · rw [hfields, hrendered]
    rfl
  · rw [hfields, hrendered]
    rfl
  · rw [hfields]
    rfl

end Rows

section Runs

variable [HashSuite] {n : Nat} {calls : Calls n} {pool pool' : Pool (Fin n) Core CallError Reply}

/-- In every state that calls reach, the journal is in order. -/
theorem Calls.Reaches.deletesInOrder (hreach : calls.Reaches .fresh pool) : DeletesInOrder pool.shared.journal := by
  have hruns : calls.Runs (fun v locals => calls.Consistent .fresh v locals ∧ DeletesInOrder v.journal) pool := by
    refine hreach.invariant ?_ ?_ ?_
    · intro before entry hprefix
      have hnil : before ++ [entry] = [] := List.prefix_nil.mp hprefix
      simp at hnil
    · intro v locals i v' l' hconsistent hordered hstep
      refine hstep.justified (fun entry hentry => ?_) hordered
      rw [← hconsistent.journal.own i] at hentry
      exact List.mem_of_mem_filter hentry
    · intro core core' locals houtside hordered
      obtain ⟨conn, ledgerConn, hview, -⟩ := houtside.view
      rwa [hview]
  obtain ⟨locals, ⟨-, hordered⟩, -⟩ := hruns
  exact hordered

/-- The ledger rows of the journal are those of the ledger. -/
theorem Calls.Reaches.ledger_rows (hreach : calls.Reaches .fresh pool) {caller : Nat} {event : AppendedLedgerEvent}
    (hevent : .logged caller event ∈ pool.shared.journal) :
    ∃ db, pool.shared.database deleteLedgerWorld = some db ∧ db.HoldsLedgerRow event := by
  obtain ⟨state, htrace, hshows⟩ := hreach.history isMemoryWorld_deleteLedgerWorld
  obtain ⟨hsome, r, hr, hrow⟩ := told_of_logged htrace (mem_journalOf.mpr ⟨hevent, rfl⟩)
  obtain ⟨log, rfl⟩ := Option.ne_none_iff_exists'.mp hsome
  have htells := tells_of_trace htrace log rfl
  have hne : log.entries ≠ [] := by
    intro hnil
    have hbytes := congrArg List.length htells.bytes
    rw [hnil, List.map_nil, List.length_nil, List.length_map, List.length_eq_zero_iff] at hbytes
    rw [hbytes] at hr
    cases hr
  obtain ⟨db, hdir, hrep⟩ := hshows.database_of_entries hne
  refine ⟨db, (pool.shared.database_eq_some _).mpr hdir, ?_⟩
  have hflip := (htells.isRow hrep).flip
  obtain ⟨e, he, hmatch⟩ := exists_of_mem hflip (List.mem_map_of_mem hr)
  refine ⟨e, he, ?_⟩
  rw [← hrow]
  exact hmatch

/-- Every row of the ledger but a format row was logged. -/
theorem Calls.Reaches.ledger_logged (hreach : calls.Reaches .fresh pool) {db : Database}
    (hdb : pool.shared.database deleteLedgerWorld = some db) {e : EventRecord} (he : e ∈ db.events)
    (hkind : e.eventType ≠ .text AuditEventKind.format.asStr) :
    ∃ caller event, .logged caller event ∈ pool.shared.journal ∧ e.IsRow event.row := by
  obtain ⟨state, htrace, hshows⟩ := hreach.history isMemoryWorld_deleteLedgerWorld
  rw [(pool.shared.database_eq_some _).mp hdb] at hshows
  obtain ⟨log, rfl, hrep, -⟩ := hshows.live_of_events (List.ne_nil_of_mem he)
  have hrows := (tells_of_trace htrace log rfl).isRow hrep
  obtain ⟨_, htold, hmatch⟩ := exists_of_mem hrows he
  obtain ⟨r, hr, rfl⟩ := List.mem_map.mp htold
  have hformat : r.row.eventType ≠ .format := by
    intro hformat
    rw [hmatch.kind, hformat] at hkind
    exact hkind rfl
  obtain ⟨caller, event, hmem, hrow⟩ := logged_of_told htrace hr hformat
  refine ⟨caller, event, (mem_journalOf.mp hmem).1, ?_⟩
  rw [hrow]
  exact hmatch

/-- A call that failed has its effects in the journal. -/
theorem Calls.Runs.failed {start : Point} {i : Fin n} {error : CallError}
    (h : calls.Runs (calls.Consistent start) pool) (hfail : pool.threads i = .fail error) :
    ∃ l, CallPost (calls.call i) i (.error error) l ∧
      pool.shared.journal.filter (fun entry => entry.caller = some (i : Nat)) = l.own := by
  obtain ⟨locals, hconsistent, hfollows⟩ := h
  have hended := hfollows i
  rw [hfail] at hended
  exact ⟨locals i, hended, hconsistent.journal.own i⟩

/-- A delete that failed has no commit row, and none at all when its intent failed. -/
theorem Calls.Runs.deleteFailed {start : Point} {i : Fin n} {error : CallError}
    (h : calls.Runs (calls.Consistent start) pool) (hfail : pool.threads i = .fail error)
    {event : AppendedLedgerEvent} (hevent : .logged i event ∈ pool.shared.journal) :
    event.eventType ≠ .deleteCommit ∧ ∀ cause, error ≠ .delete (.auditIntent cause) := by
  obtain ⟨l, hpost, hown⟩ := h.failed hfail
  have hmem : .logged i event ∈ l.own := by
    rw [← hown]
    exact List.mem_filter.mpr ⟨hevent, decide_eq_true rfl⟩
  cases hpost with
  | refused _ hended =>
    rw [hended.2.2] at hmem
    cases hmem
  | deleteFailed _ _ hended hdelete =>
    rw [hended.2.2] at hmem
    cases hdelete with
    | refused => cases hmem
    | intended hintent =>
      simp only [List.mem_singleton, JournalEntry.logged.injEq, true_and] at hmem
      subst hmem
      exact ⟨by rw [hintent.kind_eq]; decide, nofun⟩
    | removed hintent =>
      simp only [List.mem_cons, JournalEntry.logged.injEq, true_and, reduceCtorEq, List.not_mem_nil, or_false] at hmem
      subst hmem
      exact ⟨by rw [hintent.kind_eq]; decide, nofun⟩
    | failed hintent hfailed =>
      simp only [List.mem_cons, JournalEntry.logged.injEq, true_and, reduceCtorEq, List.not_mem_nil, or_false,
        false_or] at hmem
      rcases hmem with rfl | rfl
      · exact ⟨by rw [hintent.kind_eq]; decide, nofun⟩
      · exact ⟨by rw [hfailed.kind_eq]; decide, nofun⟩

/-- A world that goes in a step of a call is removed by it. -/
theorem Calls.Reaches.removes (hreach : calls.Reaches .fresh pool) {i : Fin n} (hnext : pool.next i = some pool')
    {world : ValidatedWorldPath} (hbefore : pool.shared.hasWorld world = true)
    (hafter : pool'.shared.hasWorld world = false) :
    pool'.shared.journal = pool.shared.journal ++ [.removed i world] := by
  obtain ⟨locals, l', hconsistent, hstep⟩ := hreach.consistent.next (calls.consistent_invariant _) hnext
  unfold Core.hasWorld at hbefore hafter
  split at hbefore
  · next hmemory =>
    rw [if_pos hmemory] at hafter
    exact hstep.removes_entry hbefore hafter
  · next hdurable =>
    rw [if_neg hdurable] at hafter
    have hdurable : isMemoryWorld world = false := Bool.eq_false_iff.mpr hdurable
    obtain ⟨db, hdb⟩ := Option.isSome_iff_exists.mp hbefore
    have hdir := (pool.shared.database_eq_some world).mp hdb
    refine hstep.removes_database ⟨db, hdir⟩ ?_ ?_
    · rintro ⟨db', hdb'⟩
      rw [(pool'.shared.database_eq_some world).mpr hdb'] at hafter
      cases hafter
    · rintro slot pending hheld rfl
      obtain ⟨-, state, -, -, hstate⟩ := hconsistent.history _ hdurable
      obtain ⟨-, hmissing⟩ := hstate.knows i slot _ hheld rfl
      exact hmissing db hdir

/-- A step of a call that records a removal leaves nothing of the world. -/
theorem Calls.Reaches.removed (hreach : calls.Reaches .fresh pool) {i : Fin n} (hnext : pool.next i = some pool')
    {caller : Nat} {world : ValidatedWorldPath}
    (hjournal : pool'.shared.journal = pool.shared.journal ++ [.removed caller world]) :
    pool'.shared.hasWorld world = false := by
  obtain ⟨locals, l', -, hstep⟩ := hreach.consistent.next (calls.consistent_invariant _) hnext
  have hgone := hstep.removed hjournal
  unfold Core.hasWorld
  split at hgone
  · next hmemory =>
    rw [if_pos hmemory, hgone]
    rfl
  · next hdurable =>
    rw [if_neg hdurable, (pool'.shared.database_eq_none world).mpr (by rw [hgone]; nofun)]
    rfl

/-- A delete that never records an intent leaves its world and the byte counters alone in every step. -/
theorem Calls.Reaches.unchanged (hreach : calls.Reaches .fresh pool) {i : Fin n}
    (hdelete : (calls.call i).operation.isWrite = false) (hnext : pool.next i = some pool')
    {last : Pool (Fin n) Core CallError Reply} (hlast : pool'.Reaches Environment last)
    (hnone : ∀ event, .logged i event ∉ last.shared.journal) :
    pool.shared.SameStorage pool'.shared (calls.call i).world := by
  obtain ⟨locals, l', hconsistent, hstep⟩ := hreach.consistent.next (calls.consistent_invariant _) hnext
  have hreach' : calls.Reaches .fresh pool' := hreach.tail (Pool.step_of_next Environment hnext)
  have hremoved : .removed i (calls.call i).world ∉ l'.own := by
    intro hmem
    have hjournal := (hconsistent.step hstep).journal.own i
    rw [Function.update_self] at hjournal
    rw [← hjournal] at hmem
    obtain ⟨before, after, hsplit⟩ := List.append_of_mem (List.mem_of_mem_filter hmem)
    have hordered := hreach'.deletesInOrder before (.removed i (calls.call i).world)
      ⟨after, by rw [List.append_assoc]; exact hsplit.symm⟩
    obtain ⟨event, hevent, -⟩ := hordered
    have hmono : pool'.shared.journal ⊆ last.shared.journal := (hreach'.journal_mono hlast).subset
    have hall : pool'.shared.journal = before ++ .removed i (calls.call i).world :: after := hsplit
    exact hnone event (hmono (hall ▸ List.mem_append_left _ hevent))
  obtain ⟨hfiles, hentry, hbytes⟩ := hstep.unchanged hdelete
    (fun slot hsome => hconsistent.exclusive.world i slot hsome) hremoved
  simp only [Core.view, Prod.mk.injEq] at hfiles hentry hbytes
  exact ⟨hfiles, hentry, hbytes.1, hbytes.2.1, hbytes.2.2⟩

/-- What holds of the deletes in a state of a run: every removal stands behind a committed intent row for the world,
every commit row behind the removal, a delete returns exactly when its commit row is there, a delete without an intent
row changes nothing, and the ledger verifies. -/
structure DeleteProtocol (calls : Calls n) (pool : Pool (Fin n) Core CallError Reply) : Prop where
  order : DeletesInOrder pool.shared.journal
  rows : ∀ caller event, .logged caller event ∈ pool.shared.journal →
    ∃ db, pool.shared.database deleteLedgerWorld = some db ∧ db.HoldsLedgerRow event
  logged : ∀ db, pool.shared.database deleteLedgerWorld = some db → ∀ e ∈ db.events,
    e.eventType ≠ .text AuditEventKind.format.asStr →
      ∃ caller event, .logged caller event ∈ pool.shared.journal ∧ e.IsRow event.row
  removes : ∀ i pool', pool.next i = some pool' → ∀ world, pool.shared.hasWorld world = true →
    pool'.shared.hasWorld world = false → pool'.shared.journal = pool.shared.journal ++ [.removed i world]
  removed : ∀ i pool', pool.next i = some pool' → ∀ caller world,
    pool'.shared.journal = pool.shared.journal ++ [.removed caller world] → pool'.shared.hasWorld world = false
  returned : ∀ i, (calls.call i).operation.isWrite = false → ∀ reply, pool.threads i = .done reply →
    ∃ event, .logged i event ∈ pool.shared.journal ∧ LedgerRow (calls.call i).world .deleteCommit event
  failed : ∀ i error, pool.threads i = .fail error → ∀ event, .logged i event ∈ pool.shared.journal →
    event.eventType ≠ .deleteCommit ∧ ∀ cause, error ≠ .delete (.auditIntent cause)
  unchanged : ∀ i, (calls.call i).operation.isWrite = false → ∀ pool', pool.next i = some pool' →
    ∀ last, pool'.Reaches Environment last → (∀ event, .logged i event ∉ last.shared.journal) →
      pool.shared.SameStorage pool'.shared (calls.call i).world
  verified : ∀ db, pool.shared.database deleteLedgerWorld = some db → db.events ≠ [] →
    verifyWorldWithFileOp calls.key deleteLedgerWorld db = .ok ()

/-- Every run of calls keeps the delete protocol. -/
theorem deletes_follow_protocol (hreach : calls.Reaches .fresh pool) : DeleteProtocol calls pool where
  order := hreach.deletesInOrder
  rows _ _ hevent := hreach.ledger_rows hevent
  logged _ hdb _ he hkind := hreach.ledger_logged hdb he hkind
  removes _ _ hnext _ hbefore hafter := hreach.removes hnext hbefore hafter
  removed _ _ hnext _ _ hjournal := hreach.removed hnext hjournal
  returned i hdelete reply hdone := by
    obtain ⟨l, hpost, hown⟩ := hreach.consistent.returned hdone
    cases hpost with
    | written hwrite =>
      rw [hdelete] at hwrite
      cases hwrite
    | deleted _ hended hcommitted =>
      cases hcommitted with
      | @committed intent commit _ hcommit =>
        have hmem : .logged i commit ∈ pool.shared.journal.filter fun entry => entry.caller = some (i : Nat) := by
          rw [hown, hended.2.2]
          simp
        exact ⟨commit, List.mem_of_mem_filter hmem, hcommit⟩
  failed _ _ hfail _ hevent := hreach.consistent.deleteFailed hfail hevent
  unchanged _ hdelete _ hnext _ hlast hnone := hreach.unchanged hdelete hnext hlast hnone
  verified db hdb hevents := by
    obtain ⟨log, hrep, hne, -⟩ := hreach.tells isMemoryWorld_deleteLedgerWorld hdb hevents
    exact hrep.verifyWorldWithFileOp_eq hne

end Runs

namespace Sample

/-- A delete during which nothing fails. -/
def quietLedger : LedgerEnv := ⟨.quiet generation, none, none, ⟨time.text, time.text⟩⟩

/-- A replace of a world in memory and its delete. -/
def deleting : Calls 2 where
  key := key
  config _ := config
  call := ![⟨scratch, .write, .replace quiet ⟨[97], "text/plain", [], ⟨[], []⟩⟩⟩,
    ⟨scratch, .approve, .delete ⟨none, none, none, none, quietLedger, true, quietLedger, quietLedger⟩
      ⟨⟨[], []⟩, "text/plain", []⟩⟩]
  hmacKey := config_hmacKey

/-- The replace runs first. -/
def writtenThenDeleted : List (Fin 2) := (List.finRange 2).flatMap fun i => List.replicate (8 + 41 * i.val) i

end Sample

/-- A delete that returned has kept the protocol. -/
theorem deletes_follow_protocol_deleted :
    letI := Sample.checksumSuite
    ∃ pool, Sample.deleting.Reaches .fresh pool ∧ pool.threads 1 = .done .deleted ∧
      DeleteProtocol Sample.deleting pool := by
  let _ := Sample.checksumSuite
  obtain ⟨pool, hreach, hpool⟩ := Pool.reaches_of_schedule Environment Sample.writtenThenDeleted
    (show (Sample.writtenThenDeleted.foldlM Pool.next (Sample.deleting.pool .fresh)).any
      (fun pool => (pool.threads 1).returned = some .deleted) = true by decide +kernel)
  exact ⟨pool, hreach, Prog.returned_eq_some.mp (of_decide_eq_true hpool), deletes_follow_protocol hreach⟩

end AuditeDB
