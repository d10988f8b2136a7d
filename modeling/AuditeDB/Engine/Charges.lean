import Mathlib
import AuditeDB.World.Live
import AuditeDB.World.Preflight
import AuditeDB.Engine.Protocol

/-!
# What a database takes

The storage counters count the bytes of the live body and of the retained bodies of every world, and its events. A
transaction changes them by what its preflight predicted.
-/

namespace AuditeDB

open Results

/-- The storage counters. -/
inductive Gauge where
  | body | current | retained | events
deriving DecidableEq

/-- One amount for every storage counter. -/
structure Charge where
  body : Nat
  current : Nat
  retained : Nat
  events : Nat
deriving DecidableEq

namespace Charge

/-- No amounts. -/
def none : Charge := ⟨0, 0, 0, 0⟩

/-- The amount for a counter. -/
def get (charge : Charge) : Gauge → Nat
  | .body => charge.body
  | .current => charge.current
  | .retained => charge.retained
  | .events => charge.events

/-- Change the amount for a counter. -/
def set (charge : Charge) (amount : Nat) : Gauge → Charge
  | .body => { charge with body := amount }
  | .current => { charge with current := amount }
  | .retained => { charge with retained := amount }
  | .events => { charge with events := amount }

/-- The amount that was changed. -/
@[simp] theorem get_set (charge : Charge) (amount : Nat) (gauge : Gauge) :
    (charge.set amount gauge).get gauge = amount := by
  cases gauge <;> rfl

/-- The other amounts stay. -/
theorem get_set_of_ne (charge : Charge) (amount : Nat) {gauge other : Gauge} (h : other ≠ gauge) :
    (charge.set amount gauge).get other = charge.get other := by
  cases gauge <;> cases other <;> first | rfl | exact absurd rfl h

end Charge

namespace Database

/-- The bytes of the live body. -/
def liveBytes (db : Database) : Nat := (db.stageMetaRow.bind (·.body.blobLength)).getD 0

/-- The bytes of the retained bodies. -/
def retainedBytes (db : Database) : Nat := (db.casBodies.filterMap (·.body.blobLength)).sum

/-- What a database takes. -/
def charge (db : Database) : Charge :=
  ⟨db.liveBytes + db.retainedBytes, db.liveBytes, db.retainedBytes, db.events.length⟩

end Database

/-- What a directory takes. -/
def WorldDir.charge : WorldDir → Charge
  | .database db => db.charge
  | .empty => .none

/-- What the directory of a world takes, if there is one. -/
def chargeOf (dir : Option WorldDir) : Charge := (dir.map WorldDir.charge).getD .none

section Reads

variable {db : Database}

/-- The length of the live body. -/
theorem liveBodyLength_eq_ok {bytes : Nat} (h : liveBodyLength db = .ok bytes) : bytes = db.liveBytes := by
  simp only [liveBodyLength, bind_eq_ok, requireSome_eq_ok] at h
  obtain ⟨row, hrow, len, hlen, h⟩ := h
  unfold nonnegativeUsize at h
  split_ifs at h
  cases h
  rw [Database.liveBytes, hrow, Option.bind_some, hlen]
  rfl

/-- The length that the metadata tell. -/
theorem metadata_eq_ok {bytes : Nat} {contentType : String} {headers : Headers}
    (h : metadata db = .ok (bytes, contentType, headers)) : bytes = db.liveBytes := by
  simp only [metadata, bind_eq_ok, requireSome_eq_ok, pure_eq_ok, Prod.mk.injEq] at h
  obtain ⟨row, hrow, len, hlen, -, -, -, -, rfl, -, -⟩ := h
  rw [Database.liveBytes, hrow, Option.bind_some, hlen]
  rfl

/-- The accounted usage of a database is what it takes. -/
theorem storageUsage_eq_ok {usage : StorageUsageSnapshot} (h : storageUsage db = .ok usage) :
    usage.totalBodyBytes = db.charge.body ∧ usage.currentBodyBytes = db.charge.current ∧
      usage.retainedCasBodyBytes = db.charge.retained ∧ usage.auditChainEvents = db.charge.events := by
  simp only [storageUsage, bind_eq_ok, rejectIf_eq_ok, pure_eq_ok] at h
  obtain ⟨current, hcurrent, sum, hsum, retained, hretained, _, hfits, events, hevents, rfl⟩ := h
  have hlive := liveBodyLength_eq_ok hcurrent
  unfold sqlSum at hsum
  unfold nonnegativeUsize at hretained hevents
  split_ifs at hsum hretained hevents
  cases hsum
  cases hretained
  cases hevents
  subst hlive
  have hle : db.liveBytes + db.retainedBytes ≤ usizeMax := not_lt.mp hfits
  exact ⟨min_eq_left hle, rfl, rfl, rfl⟩

end Reads

/-- Adding the schema of an index takes nothing. -/
theorem Database.charge_withSchema (db : Database) (schema : List SchemaEntry) :
    { db with schema := schema }.charge = db.charge := rfl

/-- A database in creation takes nothing. -/
theorem charge_createdUpTo {generation : WorldGeneration} {k : Nat} (hk : k ≤ 11) :
    (createdUpTo generation k).charge = .none := by
  interval_cases k <;> rfl

section Transactions

variable [HashSuite] {key : AuditHmacKey} {world : ValidatedWorldPath} {log extended : WorldLog}
  {db before db' : Database} {kind : AuditEventKind} {body : Bytes} {retained : RetainedBodyCount}
  {result : WriteAuditResult}

/-- The live bytes of a stored history. -/
theorem Represents.liveBytes_eq (h : Represents key world log db) :
    db.liveBytes = (bodyAfter log.entries).length := by
  rw [Database.liveBytes, h.stageMetaRow_eq]
  rfl

/-- Stored bodies are byte strings. -/
theorem HasBodies.lengths_eq {casBodies : List CasBodyRow} {floor : Option Nat} {entries : List LogEntry}
    (h : HasBodies casBodies floor entries) (p : CasBodyRow → Bool) :
    (casBodies.filter p).filterMap (·.body.length) = (casBodies.filter p).filterMap (·.body.blobLength) := by
  refine List.filterMap_congr fun row hrow => ?_
  obtain ⟨body, rfl, -⟩ := h.stored row (List.mem_filter.mp hrow).1
  rfl

omit [HashSuite] in
/-- Rows that are split by a condition. -/
theorem sum_filter_add_sum_filter_not (rows : List CasBodyRow) (p : CasBodyRow → Bool) :
    ((rows.filter fun row => !p row).filterMap (·.body.blobLength)).sum +
      ((rows.filter p).filterMap (·.body.blobLength)).sum = (rows.filterMap (·.body.blobLength)).sum := by
  have hperm := (List.filter_append_perm p rows).filterMap fun row => row.body.blobLength
  rw [← hperm.sum_eq, List.filterMap_append, List.sum_append, Nat.add_comm]

/-- Pruning takes away what it says. -/
theorem Represents.charge_prune (h : Represents key world log db) {f : Nat} (hfloor : log.floor = some f)
    {pruned : Nat} (hprune : pruneToCount retained db = .ok (pruned, db')) :
    db'.liveBytes = db.liveBytes ∧ db'.retainedBytes + pruned = db.retainedBytes ∧ db'.events = db.events := by
  have hstate := h.casState
  rw [hfloor] at hstate
  rcases pruneToCount_spec hstate hprune with ⟨rfl, rfl⟩ | ⟨e, -, -, rfl, hsum⟩
  · exact ⟨rfl, rfl, rfl⟩
  · refine ⟨rfl, ?_, rfl⟩
    unfold sumBodyLength sqlSum at hsum
    split_ifs at hsum
    have hpruned := Int.ofNat.inj (Except.ok.inj hsum)
    rw [h.bodies.lengths_eq] at hpruned
    rw [← hpruned]
    exact sum_filter_add_sum_filter_not db.casBodies _

/-- What retaining a body adds. -/
theorem Extends.retainedBytes_eq (h : Extends key world kind body retained result log extended db before db') :
    before.retainedBytes = db.retainedBytes + result.insertedBytes body := by
  rw [Database.retainedBytes, Database.retainedBytes, h.bodies, retainedRows, WriteAuditResult.insertedBytes, h.inserted]
  split_ifs
  · simp [casRow, SqlValue.blobLength]
  · rfl

/-- What a write leaves and what it prunes is what there was and what it adds. -/
theorem Extends.charge_eq (hrep : Represents key world log db)
    (h : Extends key world kind body retained result log extended db before db') :
    db'.charge.current = body.length ∧
      db'.charge.retained + result.prunedCas = db.charge.retained + result.insertedBytes body ∧
      db'.charge.events + unusedAuditEvents result.formatEvent = db.charge.events + 2 := by
  obtain ⟨hlive, hretained, hevents⟩ := h.represents.charge_prune h.floor h.pruned
  obtain ⟨opening, e, hopening, hentries, -, hcontent, -⟩ := h.entries
  refine ⟨?_, ?_, ?_⟩
  · have hbody : bodyAfter extended.entries = body := by
      rw [hentries, bodyAfter]
      simp [hcontent]
    show db'.liveBytes = body.length
    rw [hlive, h.represents.liveBytes_eq, hbody]
  · show db'.retainedBytes + result.prunedCas = db.retainedBytes + result.insertedBytes body
    rw [hretained, h.retainedBytes_eq]
  · show db'.events.length + _ = db.events.length + 2
    rw [hevents, h.represents.length_events, hrep.length_events, hentries]
    generalize result.formatEvent = formatEvent at hopening ⊢
    cases hopening with
    | existing => simp [unusedAuditEvents]
    | format => simp [unusedAuditEvents]

/-- What a committed write does to what its world takes. -/
structure WriteAuditResult.Moves (result : WriteAuditResult) (body : Bytes) (before after : Charge) : Prop where
  current : after.current = body.length
  retained : after.retained + result.prunedCas = before.retained + result.insertedBytes body
  events : after.events + unusedAuditEvents result.formatEvent = before.events + 2

/-- A committed replace moves what its preflight predicted. -/
theorem writeWithAudit_moves (hrep : Represents key world log db) {clock : TxClock} {verified : Bool}
    {opened : OpenedWorldKind} {contentType : String} {headers : Headers}
    (h : writeWithAudit key world clock verified opened body contentType headers retained db = .ok (result, db')) :
    result.Moves body db.charge db'.charge ∧
      replaceQuotaSnapshot body retained (some db) =
        .ok ⟨db.liveBytes, result.insertedBytes body, result.prunedCas⟩ := by
  obtain ⟨extended, before, hextends, -⟩ := writeWithAudit_extends hrep h
  obtain ⟨hcurrent, hretained, hevents⟩ := hextends.charge_eq hrep
  refine ⟨⟨hcurrent, hretained, hevents⟩, ?_⟩
  simp only [replaceQuotaSnapshot, hrep.liveBodyLength_eq, hextends.prunableBodyLen_eq hrep rfl,
    hextends.missingBodyLen_eq, ok_bind, hrep.liveBytes_eq]
  rfl

/-- A committed append moves what its estimates predicted. -/
theorem appendWithAudit_moves (hrep : Represents key world log db) {clock : TxClock} {verified : Bool}
    {contentType : String} {headers : Headers}
    (h : appendWithAudit key world clock verified body contentType headers retained db = .ok (result, db')) :
    ∃ whole, whole.length = db.liveBytes + body.length ∧ result.Moves whole db.charge db'.charge ∧
      appendBodyLenIfMissing body db = .ok (result.insertedBytes whole) ∧
      appendPrunableBodyLenAfterNextWrite body retained db = .ok result.prunedCas := by
  obtain ⟨extended, before, hextends, -⟩ := appendWithAudit_extends hrep h
  obtain ⟨hcurrent, hretained, hevents⟩ := hextends.charge_eq hrep
  refine ⟨bodyAfter log.entries ++ body, ?_, ⟨hcurrent, hretained, hevents⟩, ?_, ?_⟩
  · rw [List.length_append, hrep.liveBytes_eq]
  · simp only [appendBodyLenIfMissing, hrep.liveBody_eq, hextends.missingBodyLen_eq, ok_bind]
    rfl
  · simp only [appendPrunableBodyLenAfterNextWrite, hrep.liveBody_eq, hextends.prunableBodyLen_eq hrep rfl, ok_bind]

/-- A signed row takes one event. -/
theorem appendTxInner_charge {audit : VerifiedAuditTx} {clock : String} {target : ValidatedWorldPath}
    {bodySha256 : BodySha256} {size : Int} {contentType : String} {headers : Headers} {row : AppendedAuditRow}
    (h : appendTxInner audit clock kind target bodySha256 size contentType headers db = .ok (row, db')) :
    db'.charge = { db.charge with events := db.charge.events + 1 } := by
  simp only [appendTxInner, Database.insertEvent, bind_eq_ok, rejectIf_eq_ok, pure_eq_ok, Prod.exists,
    Prod.mk.injEq] at h
  obtain ⟨_, -, _, -, _, _, ⟨_, -, rfl, rfl⟩, _, -, -, rfl⟩ := h
  simp only [Database.charge, Database.liveBytes, Database.retainedBytes, Database.insertEventHeaders,
    Database.stageMetaRow, List.length_append, List.length_singleton]

/-- A row of the ledger takes its events and nothing else. -/
theorem ledgerTransaction_charge {config : Config} {clock : TxClock} {job : AuditAppendJob} {isEmpty : Bool}
    {event : AppendedLedgerEvent} (h : ledgerTransaction config clock job isEmpty db = .ok (event, db')) :
    ∃ events, db'.charge = { db.charge with events := events } ∧
      events + unusedAuditEvents event.formatEvent = db.charge.events + 2 := by
  unfold ledgerTransaction at h
  split at h
  · simp only [bind_eq_ok, pure_eq_ok, Prod.exists, Prod.mk.injEq] at h
    obtain ⟨format, row, _, hgenesis, rfl, rfl⟩ := h
    unfold appendGenesisRow at hgenesis
    simp only [bind_eq_ok, liftSql_eq_ok, pure_eq_ok, Prod.exists, Prod.mk.injEq] at hgenesis
    obtain ⟨audit, -, formatRow, opened, hformat, _, _, hinner, ⟨rfl, rfl⟩, rfl⟩ := hgenesis
    refine ⟨_, ?_, rfl⟩
    rw [appendTxInner_charge hinner, appendTxInner_charge hformat]
  · simp only [bind_eq_ok, pure_eq_ok, Prod.exists, Prod.mk.injEq] at h
    obtain ⟨row, _, hexisting, rfl, rfl⟩ := h
    unfold appendExistingRow at hexisting
    simp only [bind_eq_ok, liftSql_eq_ok] at hexisting
    obtain ⟨audit, -, hinner⟩ := hexisting
    exact ⟨_, appendTxInner_charge hinner, rfl⟩

end Transactions

end AuditeDB
