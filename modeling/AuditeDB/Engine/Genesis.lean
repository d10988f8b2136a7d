import Mathlib
import AuditeDB.World.Progress
import AuditeDB.Engine.Versions

/-!
# How histories begin

The first write of a world opens its chain with a format row. Whatever fails in between, a history with events
verifies. But a replace takes the kind of its connection for the state of the world, so a connection that outlives a
failed creation opens the chain a second time once an append has written to it.
-/

namespace AuditeDB

open Utf8 Results Interleaving Traces

/-- An element is the first one of a list and stands nowhere else in it. -/
def OpensWith {α : Type*} (mark : α) (l : List α) : Prop := l.head? = some mark ∧ mark ∉ l.tail

instance {α : Type*} [DecidableEq α] (mark : α) (l : List α) : Decidable (OpensWith mark l) :=
  inferInstanceAs (Decidable (_ ∧ _))

section OpensWith

variable {α β : Type*} {mark a : α} {l : List α}

/-- Injective functions keep the first element. -/
theorem opensWith_map {f : α → β} (hf : Function.Injective f) : OpensWith (f mark) (l.map f) ↔ OpensWith mark l := by
  cases l with
  | nil => simp [OpensWith]
  | cons first rest => simp [OpensWith, hf.eq_iff]

/-- A list without elements opens with the mark once it is put in front. -/
theorem opensWith_pair (hne : a ≠ mark) : OpensWith mark [mark, a] := ⟨rfl, by simpa using hne.symm⟩

/-- Another element at the end changes nothing. -/
theorem opensWith_concat (hl : l ≠ []) (hne : a ≠ mark) : OpensWith mark (l ++ [a]) ↔ OpensWith mark l := by
  cases l with
  | nil => exact absurd rfl hl
  | cons first rest => simp [OpensWith, hne.symm]

/-- A second mark spoils the list. -/
theorem not_opensWith_again (hl : l ≠ []) : ¬ OpensWith mark (l ++ [mark] ++ [a]) := by
  cases l with
  | nil => exact absurd rfl hl
  | cons first rest => simp [OpensWith]

end OpensWith

/-- The names of the event kinds are distinct. -/
theorem AuditEventKind.asStr_injective : Function.Injective AuditEventKind.asStr := by
  intro a b h
  have hsame := congrArg AuditEventKind.fromStorage h
  rw [fromStorage_asStr, fromStorage_asStr] at hsame
  cases hsame
  rfl

/-- The kinds of the events of a history. -/
def WorldLog.kinds (log : WorldLog) : List AuditEventKind := log.entries.map LogEntry.kind

/-- The first row of the events table is a format row, and no other row is. -/
def Database.OneFormat (db : Database) : Prop := OpensWith (.text "format") (db.events.map EventRecord.eventType)

instance (db : Database) : Decidable db.OneFormat := inferInstanceAs (Decidable (OpensWith _ _))

/-- A replace that took a world with events for a new one. -/
def JournalEntry.Reopens : JournalEntry → Prop
  | wrote _ _ opened before _ _ => opened = .created ∧ before.events ≠ []
  | _ => False

instance : DecidablePred JournalEntry.Reopens := fun entry =>
  match entry with
  | .wrote _ _ opened before _ _ => inferInstanceAs (Decidable (opened = .created ∧ before.events ≠ []))
  | .created _ _ | .stored _ _ _ | .logged _ _ | .removed _ _ => inferInstanceAs (Decidable False)

section Rows

variable [HashSuite] {key : AuditHmacKey} {world : ValidatedWorldPath} {log log' : WorldLog} {db db' : Database}

/-- The event types of a stored history. -/
theorem Represents.eventTypes (h : Represents key world log db) :
    db.events.map EventRecord.eventType = log.kinds.map fun kind => .text kind.asStr := by
  have hfrom : ∀ (id : Int) (prev : String) (entries : List LogEntry),
      (renderFrom key world log.generation id prev entries).map (fun event => event.1.record.eventType) =
        entries.map fun e => .text e.kind.asStr := by
    intro id prev entries
    induction entries generalizing id prev with
    | nil => rfl
    | cons e rest ih =>
      rw [renderFrom, List.map_cons, ih, List.map_cons]
      rfl
  rw [h.chain.events, List.map_map, WorldLog.kinds, List.map_map]
  exact hfrom 1 "" log.entries

/-- A stored history has one format row when its kinds open with one. -/
theorem Represents.oneFormat_iff (h : Represents key world log db) : db.OneFormat ↔ OpensWith .format log.kinds := by
  have hinjective : Function.Injective fun kind : AuditEventKind => SqlValue.text kind.asStr := fun a b hab =>
    AuditEventKind.asStr_injective (SqlValue.text.inj hab)
  have hmap : OpensWith (SqlValue.text AuditEventKind.format.asStr) (log.kinds.map fun kind => .text kind.asStr) ↔
      OpensWith .format log.kinds := opensWith_map hinjective
  rw [Database.OneFormat, h.eventTypes]
  exact hmap

/-- A stored history has events when its table has rows. -/
theorem Represents.events_eq_nil (h : Represents key world log db) : db.events = [] ↔ log.entries = [] := by
  rw [h.chain.events, List.map_eq_nil_iff, ← List.length_eq_zero_iff, length_render, List.length_eq_zero_iff]

omit [HashSuite] in
/-- A history without events has no headers. -/
theorem WorldLog.Live.headers_eq_nil (h : log.Live world) (hnil : log.entries = []) : log.headers = [] := by
  have hheaders := h.headers
  rw [hnil] at hheaders
  have hsorted : canonicalHeaders log.headers = [] := hheaders
  exact List.map_eq_nil_iff.mp ((List.perm_insertionSort _ _).symm.trans (List.Perm.of_eq hsorted)).eq_nil

/-- The gate of a write opens the chain over a connection that created the database, and in a world without events. -/
theorem openChain_genesis (hrep : Represents key world log db) (hlive : log.Live world) {clock : TxClock}
    {verified : Bool} {opened : OpenedWorldKind} {audit : VerifiedAuditTx} {formatEvent : Option AppendedAuditRow}
    (h : openChain key world clock verified opened db = .ok (audit, formatEvent, db')) :
    formatEvent.isSome = true ↔ opened = .created ∨ log.entries = [] := by
  unfold openChain verifyAppendableWorld at h
  simp only [bind_eq_ok, liftWrite, mapError_eq_ok, pure_eq_ok, Prod.exists, Prod.mk.injEq] at h
  obtain ⟨_, _, ⟨genesis, hgenesis, _, -, rfl, rfl⟩, h⟩ := h
  have hiff : genesis = true ↔ opened = .created ∨ log.entries = [] := by
    cases opened with
    | created =>
      cases hgenesis
      simp
    | existing =>
      rw [auditChainOpening, hrep.isEmptyBootstrap_eq] at hgenesis
      cases hgenesis
      simpa using hlive.headers_eq_nil
  rw [← hiff]
  split_ifs at h with htrue
  · simp only [bind_eq_ok, mapError_eq_ok, pure_eq_ok, Prod.exists, Prod.mk.injEq] at h
    obtain ⟨_, _, -, -, rfl, -⟩ := h
    simp [htrue]
  · cases h
    simp [htrue]

/-- A committed body event reports the format row that was appended before it. -/
theorem commitBody_formatEvent {clock : TxClock} {audit : VerifiedAuditTx} {formatEvent : Option AppendedAuditRow}
    {kind : AuditEventKind} {body : Bytes} {update : Database → SqlResult Database} {contentType : String}
    {headers : Headers} {retained : RetainedBodyCount} {result : WriteAuditResult}
    (h : commitBody world clock audit formatEvent kind body update contentType headers retained db =
      .ok (result, db')) : result.formatEvent = formatEvent := by
  unfold commitBody at h
  simp only [bind_eq_ok, pure_eq_ok, Prod.exists, Prod.mk.injEq] at h
  obtain ⟨_, _, -, _, -, _, _, -, _, -, _, _, -, rfl, -⟩ := h
  rfl

/-- The transaction of an operation opens the chain when it takes the world for a new one, and in a world without
events. -/
theorem Operation.Transaction.genesis {operation : Operation} {opened : OpenedWorldKind} {result : WriteAuditResult}
    (hrun : operation.Transaction key world opened db result db') (hrep : Represents key world log db)
    (hlive : log.Live world) :
    result.formatEvent.isSome = true ↔ operation.treats opened = .created ∨ log.entries = [] := by
  cases operation with
  | replace env request =>
    obtain ⟨verified, retained, hwrite⟩ := hrun
    unfold writeWithAudit at hwrite
    simp only [bind_eq_ok, Prod.exists] at hwrite
    obtain ⟨audit, formatEvent, _, hopen, hcommit⟩ := hwrite
    rw [commitBody_formatEvent hcommit]
    exact openChain_genesis hrep hlive hopen
  | append env request =>
    obtain ⟨verified, contentType, headers, retained, happend⟩ := hrun
    unfold appendWithAudit at happend
    simp only [bind_eq_ok, Prod.exists] at happend
    obtain ⟨audit, formatEvent, _, hopen, _, -, hcommit⟩ := happend
    rw [commitBody_formatEvent hcommit]
    exact openChain_genesis hrep hlive hopen
  | delete env request => exact hrun.elim

/-- The kinds of a history after a committed body event. -/
theorem Written.kinds_eq {kind : AuditEventKind} {body : Bytes} {contentType : String} {headers : Headers}
    {result : WriteAuditResult} (h : Written key world kind body contentType headers result log log') :
    log'.kinds = log.kinds ++ (if result.formatEvent.isSome then [.format] else []) ++ [kind] := by
  obtain ⟨opening, timestamp, hopening, hentries, -⟩ := h.entries
  have hkinds : opening.map LogEntry.kind = if result.formatEvent.isSome then [.format] else [] := by
    generalize result.formatEvent = formatEvent at hopening
    cases hopening with
    | existing => rfl
    | format hkind => simp [hkind]
  rw [WorldLog.kinds, hentries, List.map_append, List.map_append, hkinds]
  rfl

end Rows

section Steps

variable [HashSuite] {key : AuditHmacKey} {did : Nat → Operation → Prop} {world path : ValidatedWorldPath}
  {start state : Option WorldLog} {labels : List JournalEntry} {caller : Nat} {treated : OpenedWorldKind}
  {before db : Database} {result : WriteAuditResult}

/-- A committed write appends its event, after a format event when it took the world for a new one or found it without
events. -/
theorem LogStep.kinds (h : LogStep key did world start (.wrote caller path treated before result db) state) :
    ∃ log log' kind, start = some log ∧ state = some log' ∧ kind ≠ .format ∧ (before.events = [] ↔ log.entries = []) ∧
      log'.kinds = log.kinds ++ (if treated = .created ∨ log.entries = [] then [.format] else []) ++ [kind] := by
  cases h with
  | @wrote _ operation opened _ _ _ log log' _ _ _ hbefore hlive hrun hwrites _ =>
    have hgenesis := hrun.genesis hbefore hlive
    cases operation with
    | replace env request =>
      refine ⟨log, log', .put, rfl, rfl, nofun, hbefore.events_eq_nil, ?_⟩
      simp only [hwrites.1.kinds_eq, hgenesis]
    | append env request =>
      obtain ⟨contentType, headers, hwritten, -⟩ := hwrites
      refine ⟨log, log', .append, rfl, rfl, nofun, hbefore.events_eq_nil, ?_⟩
      simp only [hwritten.kinds_eq, hgenesis]
    | delete env request => exact hwrites.elim

/-- When nobody deletes, a world keeps the events of its first committed write. -/
theorem written_of_trace (h : Trace (LogStep key did world) none labels state)
    (hdid : ∀ {caller operation}, did caller operation → operation.isWrite = true)
    (hwrote : .wrote caller path treated before result db ∈ labels) :
    ∃ log, state = some log ∧ log.entries ≠ [] := by
  induction h with
  | refl => cases hwrote
  | @snoc labels label middle state _ hstep ih =>
    rcases List.mem_append.mp hwrote with hearlier | hlast
    · obtain ⟨log, rfl, hne⟩ := ih hearlier
      cases state with
      | none =>
        cases hstep with
        | removed _ hdeleted _ hdelete =>
          rw [hdid hdeleted] at hdelete
          cases hdelete
      | some log' => exact ⟨log', rfl, List.ne_nil_of_length_pos (Nat.zero_lt_of_lt hstep.grows.2)⟩
    · rw [← List.mem_singleton.mp hlast] at hstep
      obtain ⟨log, rfl, hne, -⟩ := hstep.head
      exact ⟨log, rfl, hne⟩

/-- When nobody deletes and the ledger is not written, a history has one format row exactly when no replace took a
world with events for a new one. -/
theorem opensWith_format_iff (h : Trace (LogStep key did world) none labels state)
    (hdid : ∀ {caller operation}, did caller operation → operation.isWrite = true)
    (hlogged : ∀ caller event, .logged caller event ∉ labels) :
    (∀ log, state = some log → log.entries ≠ [] → OpensWith .format log.kinds) ↔
      ∀ entry ∈ labels, ¬ entry.Reopens := by
  induction h with
  | refl => simp
  | @snoc labels label middle state htrace hstep ih =>
    have ih := ih fun caller event hmem => hlogged caller event (List.mem_append_left _ hmem)
    rw [List.forall_mem_append, List.forall_mem_singleton, ← ih]
    cases label with
    | created path generation =>
      cases hstep
      simp [JournalEntry.Reopens, WorldLog.created]
    | wrote caller path treated before result db =>
      obtain ⟨log, log', kind, rfl, rfl, hkind, hevents, hkinds⟩ := hstep.kinds
      have hne : log'.entries ≠ [] := List.ne_nil_of_length_pos (Nat.zero_lt_of_lt hstep.grows.2)
      simp only [JournalEntry.Reopens, Option.some.injEq, forall_eq', hne, ne_eq, not_false_eq_true, true_imp_iff,
        hevents, hkinds]
      by_cases hnil : log.entries = []
      · -- the first write of the world opens the chain
        simp [hnil, WorldLog.kinds, opensWith_pair hkind]
      · have hold : log.kinds ≠ [] := by simpa [WorldLog.kinds] using hnil
        cases treated with
        | created => simpa [hnil] using not_opensWith_again hold
        | existing => simp [hnil, opensWith_concat hold hkind]
    | stored caller path entry => cases hstep
    | logged caller event =>
      exact absurd (List.mem_append_right _ (List.mem_singleton.mpr rfl)) (hlogged caller event)
    | removed caller path =>
      cases hstep with
      | removed _ hdeleted _ hdelete =>
        rw [hdid hdeleted] at hdelete
        cases hdelete

end Steps

section Runs

variable [HashSuite] {n : Nat} {calls : Calls n} {pool : Pool (Fin n) Core CallError Reply} {world : ValidatedWorldPath}

omit [HashSuite] in
variable (calls world) in
/-- No call deletes the world. A delete of any world also writes to the ledger. -/
def Calls.OnlyWrites : Prop :=
  ∀ i, (calls.call i).world = world ∨ world = deleteLedgerWorld → (calls.call i).operation.isWrite = true

omit [HashSuite] in
/-- Whoever ran on the world wrote. -/
theorem Calls.OnlyWrites.did (h : calls.OnlyWrites world) {caller : Nat} {operation : Operation}
    (hdid : calls.Did world caller operation) : operation.isWrite = true := by
  obtain ⟨i, -, hi, rfl⟩ := hdid
  exact h i (.inl hi)

/-- Only a delete appends to the ledger. -/
theorem Protocol.logged {key : AuditHmacKey} {call : Call} {caller other : Nat} {v v' : View} {l l' : Local}
    {event : AppendedLedgerEvent} (hstep : Protocol key call caller v l v' l') (hwrite : call.operation.isWrite = true)
    (hlogged : .logged other event ∈ v'.journal) : .logged other event ∈ v.journal := by
  cases hstep with
  | create slot generation => simpa [View.record, View.setDir] using hlogged
  | write _ _ _ _ _ hentry => simpa [hentry, View.record, View.setDir] using hlogged
  | store => simpa [View.record, View.setEntry] using hlogged
  | log _ _ _ _ _ _ hdelete =>
    rw [hwrite] at hdelete
    cases hdelete
  | remove => simpa [View.record, View.setDir] using hlogged
  | removeMemory => simpa [View.record, View.setEntry] using hlogged
  | _ => exact hlogged

/-- Without deletes the journal of a world has no ledger rows. -/
theorem Calls.Reaches.unlogged (hreach : calls.Reaches .fresh pool) (hwrites : calls.OnlyWrites world)
    (caller : Nat) (event : AppendedLedgerEvent) : .logged caller event ∉ journalOf world pool.shared.journal := by
  intro hmem
  obtain ⟨hmem, hledger⟩ := mem_journalOf.mp hmem
  have hwrites : ∀ i, (calls.call i).operation.isWrite = true := fun i => hwrites i (.inr hledger.symm)
  have hruns : calls.Runs (fun v locals => calls.Consistent .fresh v locals ∧ .logged caller event ∉ v.journal) pool := by
    refine hreach.invariant List.not_mem_nil ?_ ?_
    · exact fun v locals i v' l' _ hnone hstep hmem => hnone (hstep.logged (hwrites i) hmem)
    · intro core core' locals houtside hnone
      obtain ⟨conn, ledgerConn, hview, -⟩ := houtside.view
      rwa [hview]
  obtain ⟨locals, ⟨-, hnone⟩, -⟩ := hruns
  exact hnone hmem

/-- A durable world whose table has rows stores its history. -/
theorem Shows.live_of_events {key : AuditHmacKey} {state : Option WorldLog} {db : Database}
    (h : Shows key world state (some (.database db))) (hevents : db.events ≠ []) :
    ∃ log, state = some log ∧ Represents key world log db ∧ log.Live world := by
  cases h with
  | absent hdir => exact absurd rfl (hdir db)
  | creating generation hk => exact absurd (createdUpTo_events hk.le) hevents
  | live hrep hlive => exact ⟨_, rfl, hrep, hlive⟩

/-- A durable world whose history has events shows a database that stores it. -/
theorem Shows.database_of_entries {key : AuditHmacKey} {log : WorldLog} {dir : Option WorldDir}
    (h : Shows key world (some log) dir) (hne : log.entries ≠ []) :
    ∃ db, dir = some (.database db) ∧ Represents key world log db := by
  cases h with
  | creating generation => exact absurd rfl hne
  | live hrep => exact ⟨_, rfl, hrep⟩

/-- The history of every durable world verifies from its first successful write on, whatever fails, is evicted or is
pruned meanwhile. -/
theorem written_world_verifies (hreach : calls.Reaches .fresh pool) (hdurable : isMemoryWorld world = false)
    (hwrites : calls.OnlyWrites world) {i : Fin n} {outcome : WriteOutcome} (hi : (calls.call i).world = world)
    (hdone : pool.threads i = .done (.written outcome)) :
    ∃ db, pool.shared.database world = some db ∧ db.events ≠ [] ∧
      verifyWorldWithFileOp calls.key world db = .ok () := by
  obtain ⟨state, htrace, hshows⟩ := hreach.history hdurable
  subst hi
  obtain ⟨opened, before, result, db, hown, -⟩ := hreach.consistent.wrote hdurable hdone
  have hmem := List.mem_of_mem_filter (hown ▸ List.mem_singleton.mpr rfl)
  obtain ⟨log, rfl, hne⟩ := written_of_trace htrace hwrites.did (mem_journalOf.mpr ⟨hmem, rfl⟩)
  obtain ⟨db, hdir, hrep⟩ := hshows.database_of_entries hne
  exact ⟨db, (pool.shared.database_eq_some _).mpr hdir, mt hrep.events_eq_nil.mp hne, hrep.verifyWorldWithFileOp_eq hne⟩

end Runs

/-- The world of a replace that returned verifies. -/
theorem written_world_verifies_created :
    letI := Sample.checksumSuite
    ∃ pool db, Sample.creating.Reaches .fresh pool ∧ Sample.creating.OnlyWrites Sample.world ∧
      pool.threads 0 = .done (.written ⟨.created, Sample.tag⟩) ∧ pool.shared.database Sample.world = some db ∧
      db.events ≠ [] ∧ verifyWorldWithFileOp Sample.key Sample.world db = .ok () := by
  let _ := Sample.checksumSuite
  obtain ⟨pool, hreach, hpool⟩ := Pool.reaches_of_schedule Environment (List.replicate 40 0)
    (show ((List.replicate 40 0).foldlM Pool.next (Sample.creating.pool .fresh)).any
      (fun pool => (pool.threads 0).returned = some (.written ⟨.created, Sample.tag⟩)) = true by decide +kernel)
  have hreturned := Prog.returned_eq_some.mp (of_decide_eq_true hpool)
  have hdurable : isMemoryWorld Sample.world = false := by decide +kernel
  have hwrites : Sample.creating.OnlyWrites Sample.world := fun _ _ => rfl
  obtain ⟨db, hdb, hevents, hverified⟩ := written_world_verifies hreach hdurable hwrites rfl hreturned
  exact ⟨pool, db, hreach, hwrites, hreturned, hdb, hevents, hverified⟩

section Runs

variable [HashSuite] {n : Nat} {calls : Calls n} {pool : Pool (Fin n) Core CallError Reply} {world : ValidatedWorldPath}

/-- In every run of replaces and appends, the events table of a world has one format row, in front, exactly when no
replace has taken the world for a new one while it had events. -/
theorem one_format_row_iff (hreach : calls.Reaches .fresh pool) (hdurable : isMemoryWorld world = false)
    (hwrites : calls.OnlyWrites world) :
    (∀ db, pool.shared.database world = some db → db.events ≠ [] → db.OneFormat) ↔
      ∀ entry ∈ journalOf world pool.shared.journal, ¬ entry.Reopens := by
  obtain ⟨state, htrace, hshows⟩ := hreach.history hdurable
  rw [← opensWith_format_iff htrace hwrites.did (hreach.unlogged hwrites)]
  constructor
  · rintro hone log rfl hne
    obtain ⟨db, hdir, hrep⟩ := hshows.database_of_entries hne
    exact hrep.oneFormat_iff.mp (hone db ((pool.shared.database_eq_some _).mpr hdir) (mt hrep.events_eq_nil.mp hne))
  · intro hopens db hdb hevents
    rw [(pool.shared.database_eq_some _).mp hdb] at hshows
    obtain ⟨log, hlog, hrep, -⟩ := hshows.live_of_events hevents
    exact hrep.oneFormat_iff.mpr (hopens log hlog (mt hrep.events_eq_nil.mpr hevents))

end Runs

/-- The replace of an absent world leaves one format row. -/
theorem one_format_row_iff_created :
    letI := Sample.checksumSuite
    ∃ pool, Sample.creating.Reaches .fresh pool ∧ (pool.threads 0).returned.isSome = true ∧
      ∀ db, pool.shared.database Sample.world = some db → db.events ≠ [] → db.OneFormat := by
  let _ := Sample.checksumSuite
  obtain ⟨pool, hreach, hpool⟩ := Pool.reaches_of_schedule Environment (List.replicate 40 0)
    (show ((List.replicate 40 0).foldlM Pool.next (Sample.creating.pool .fresh)).any
      (fun pool => (pool.threads 0).returned.isSome = true ∧
        ∀ entry ∈ journalOf Sample.world pool.shared.journal, ¬ entry.Reopens) = true by decide +kernel)
  obtain ⟨hreturned, hkept⟩ := of_decide_eq_true hpool
  have hdurable : isMemoryWorld Sample.world = false := by decide +kernel
  exact ⟨pool, hreach, hreturned, (one_format_row_iff hreach hdurable fun _ _ => rfl).mpr hkept⟩

/-- The exact check normalizes nothing when the stored statement is the expected one. -/
theorem verifyExactTable_eq_ite : verifyExactTable = fun db table expectedSql =>
    if ((db.schema.find? fun e => e.kind = .table && e.name = table).bind (·.sql)) = some expectedSql then .ok ()
    else verifyExactTable db table expectedSql := by
  funext db table expectedSql
  split_ifs with hsql
  · obtain ⟨entry, hfind, hentry⟩ := Option.bind_eq_some_iff.mp hsql
    exact verifyExactTable_of_find hfind hentry
  · rfl

namespace Sample

/-- A replace that fails on a repeated header name, an append and a replace, all of one absent world. -/
def reopening : Calls 3 where
  key := key
  config _ := config
  call := ![⟨world, .write, .replace quiet ⟨[97], "text/plain", [("x-a", "1"), ("x-a", "2")], ⟨[], []⟩⟩⟩,
    ⟨world, .write, .append quiet ⟨[98], ⟨[], []⟩⟩⟩,
    ⟨world, .write, .replace quiet ⟨[99], "text/plain", [], ⟨[], []⟩⟩⟩]
  hmacKey _ := rfl

/-- The calls run one after the other. -/
def inTurn : List (Fin 3) := List.replicate 28 0 ++ List.replicate 24 1 ++ List.replicate 24 2

/-- The last replace took the world for a new one, and left a table with two format rows. -/
structure Reopened (pool : Pool (Fin 3) Core CallError Reply) : Prop where
  returned : ∃ outcome, pool.threads 2 = .done (.written outcome) ∧ outcome.statusKind = .created
  journal : ∃ entry ∈ journalOf world pool.shared.journal, entry.caller = some 2 ∧ entry.Reopens
  database : ∃ db, pool.shared.database world = some db ∧ db.events ≠ [] ∧ ¬ db.OneFormat

/-- The run of the three calls. -/
theorem reopening_reopens :
    letI := checksumSuite
    ∃ pool, reopening.Reaches .fresh pool ∧ Reopened pool := by
  let _ := checksumSuite
  have hrun : (inTurn.foldlM Pool.next (reopening.pool .fresh)).any
      (fun pool => (pool.threads 2).returned.any (fun reply =>
          match reply with
          | .written outcome => outcome.statusKind = .created
          | .deleted => false) &&
        (journalOf world pool.shared.journal).any (fun entry => entry.caller = some 2 ∧ entry.Reopens) &&
        (pool.shared.database world).any fun db => db.events ≠ [] ∧ ¬ db.OneFormat) = true := by
    -- The second and the third call check the tables that the first one created. Normalizing their statements is most
    -- of what the run computes, so the checks are rewritten first.
    delta Calls.pool Call.program engineReplace engineAppend replaceWrite appendWrite replaceDurable appendDurable
      replaceTransaction appendTransaction cachedWriteConn cachedExistingWriteConn cachedWriter openWorldPaths
      openExistingForWrite checkWritePreconditions appendMetadata appendEstimate readDatabase Core.readWorldWithEtag
      Core.openExisting verifyOpenShape
    rw [verifyExactTable_eq_ite]
    decide +kernel
  obtain ⟨pool, hreach, hpool⟩ := Pool.reaches_of_schedule Environment inTurn hrun
  simp only [Bool.and_eq_true] at hpool
  obtain ⟨⟨hreturned, hjournal⟩, hdatabase⟩ := hpool
  obtain ⟨reply, hreply, hkind⟩ := (Option.any_eq_true _ _).mp hreturned
  obtain ⟨entry, hentry, hreopens⟩ := List.any_eq_true.mp hjournal
  obtain ⟨db, hdb, hrows⟩ := (Option.any_eq_true _ _).mp hdatabase
  refine ⟨pool, hreach, ?_, ⟨entry, hentry, of_decide_eq_true hreopens⟩, ⟨db, hdb, of_decide_eq_true hrows⟩⟩
  cases reply with
  | written outcome => exact ⟨outcome, Prog.returned_eq_some.mp hreply, of_decide_eq_true hkind⟩
  | deleted => cases hkind

end Sample

/-- A replace over the connection of a failed creation appends a second format row. -/
theorem second_format_row :
    letI := Sample.checksumSuite
    ∃ pool db, Sample.reopening.Reaches .fresh pool ∧ Sample.reopening.OnlyWrites Sample.world ∧
      pool.shared.database Sample.world = some db ∧ db.events ≠ [] ∧ ¬ db.OneFormat := by
  let _ := Sample.checksumSuite
  obtain ⟨pool, hreach, hreopened⟩ := Sample.reopening_reopens
  obtain ⟨db, hdb, hevents, hformat⟩ := hreopened.database
  refine ⟨pool, db, hreach, fun i _ => ?_, hdb, hevents, hformat⟩
  fin_cases i <;> rfl

end AuditeDB
