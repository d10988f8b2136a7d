import Mathlib
import AuditeDB.Engine.System
import AuditeDB.World.DereferenceSpec

/-!
# The protocol of the calls

What the calls of an engine do to the worlds, abstracted from counters, caches and event ids: they take locks,
look at databases, create them, commit transactions, remove worlds and send notifications. Every invariant of
the histories of worlds is proved against these steps.
-/

namespace AuditeDB

open Results Interleaving

/-- The part of the shared state that histories are about. -/
structure View where
  dir : ValidatedWorldPath → Option WorldDir
  entry : ValidatedWorldPath → Option MemEntry
  locked : ValidatedWorldPath → Bool
  conn : ValidatedWorldPath → Option OpenedWorldKind
  ledgerConn : Bool
  count : Nat
  ledgerCreated : Bool
  bytes : Nat × Nat × Nat
  sent : List ChangeEvent
  journal : List JournalEntry

/-- The view of a shared state. The ledger world is guarded by the stream lock. -/
def Core.view (core : Core) : View where
  dir := core.data.lookup
  entry := core.mem.map.lookup
  locked path := if path = deleteLedgerWorld then core.deleteLedgerStreamLock else path ∈ core.worldLocks
  conn := core.writeConns.lookup
  ledgerConn := core.ledgerConn
  count := core.durableWorldCount
  ledgerCreated := core.deleteLedgerCreated
  bytes := (core.storageBodyBytes, core.storageCurrentBodyBytes, core.storageRetainedCasBodyBytes)
  sent := core.sent
  journal := core.journal

namespace View

/-- Put a directory in place. -/
def setDir (v : View) (path : ValidatedWorldPath) (dir : Option WorldDir) : View :=
  { v with dir := Function.update v.dir path dir }

/-- Put an entry in memory in place. -/
def setEntry (v : View) (path : ValidatedWorldPath) (entry : Option MemEntry) : View :=
  { v with entry := Function.update v.entry path entry }

/-- Take or give back the lock of a path. -/
def setLock (v : View) (path : ValidatedWorldPath) (locked : Bool) : View :=
  { v with locked := Function.update v.locked path locked }

/-- Change the cached writer connection of a path. -/
def setConn (v : View) (path : ValidatedWorldPath) (conn : Option OpenedWorldKind) : View :=
  { v with conn := Function.update v.conn path conn }

/-- Record a committed effect. -/
def record (v : View) (entry : JournalEntry) : View := { v with journal := v.journal ++ [entry] }

/-- The row ids of the database of every durable world are unique and fit the type of SQLite. -/
def Keyed (v : View) : Prop :=
  ∀ path db, isMemoryWorld path = false → v.dir path = some (.database db) →
    db.UniqueIds ∧ ∀ e ∈ db.events, e.id ≤ i64Max

/-- Broadcast a change. -/
def send (v : View) (change : ChangeEvent) : View := { v with sent := v.sent ++ [change] }

end View

/-- The world of an entry of the journal. -/
def JournalEntry.path : JournalEntry → ValidatedWorldPath
  | created world _ | wrote _ world _ _ _ _ | stored _ world _ | removed _ world => world
  | logged _ _ => deleteLedgerWorld

/-- The call that made an entry of the journal. -/
def JournalEntry.caller : JournalEntry → Option Nat
  | created _ _ => none
  | wrote caller _ _ _ _ _ | stored caller _ _ | logged caller _ | removed caller _ => some caller

/-- The identities of the rows that an entry of the journal committed. -/
def JournalEntry.eventIds : JournalEntry → List SubscriptionEventId
  | wrote _ _ _ _ result _ => (result.formatEvent.map AppendedAuditRow.eventId).toList ++
      [result.bodyEvent.timelineAddress.eventId]
  | logged _ event => (event.formatEvent.map AppendedAuditRow.eventId).toList ++ [event.eventId]
  | created _ _ | stored _ _ _ | removed _ _ => []

/-- The preconditions of an operation. -/
def Operation.preconditions : Operation → Preconditions
  | replace _ request => request.preconditions
  | append _ request => request.preconditions
  | delete _ request => request.preconditions

/-- The two worlds that a call may hold: its own, and the ledger world. -/
inductive Slot where
  | world | ledger
deriving DecidableEq

/-- The path of a slot of a call. -/
def Slot.path (world : ValidatedWorldPath) : Slot → ValidatedWorldPath
  | .world => world
  | .ledger => deleteLedgerWorld

/-- What a call knows about a world it holds. A database that is ready was created by the call or existed before. -/
inductive Status where
  | unknown
  | missing
  | creating (generation : WorldGeneration) (statements : Nat)
  | ready (opened : OpenedWorldKind)
deriving DecidableEq

/-- The status after some of the creation statements. -/
def Status.after (generation : WorldGeneration) (statements : Nat) : Status :=
  if statements < (createStatements generation).length then creating generation statements else ready .created

/-- A world that a call holds, with the committed rows that it has not announced yet. -/
structure Holding where
  status : Status
  pending : List SubscriptionEventId
deriving DecidableEq

/-- What a call still has to do before it gives a lock back: mark its connection as one to an existing world, count
or discount its world, or count the ledger. -/
inductive Duty where
  | mark | count | discount | countLedger
deriving DecidableEq

/-- The duties under a lock. -/
def Slot.duties : Slot → Finset Duty
  | .world => {.mark, .count, .discount}
  | .ledger => {.countLedger}

/-- The local state of a call: the worlds it holds, its duties, the tag that its precondition matched, and its entries
in the journal. -/
structure Local where
  held : Slot → Option Holding
  duties : Finset Duty
  checked : Option String
  own : List JournalEntry

namespace Local

/-- The local state of a call that has not started. -/
def idle : Local := ⟨fun _ => none, ∅, none, []⟩

/-- Hold a world, or change what is known about it. -/
def hold (l : Local) (slot : Slot) (holding : Holding) : Local :=
  { l with held := Function.update l.held slot (some holding) }

/-- Give a world back. -/
def release (l : Local) (slot : Slot) : Local := { l with held := Function.update l.held slot none }

/-- Record an own entry of the journal. -/
def record (l : Local) (entry : JournalEntry) : Local := { l with own := l.own ++ [entry] }

/-- Take on duties. -/
def owe (l : Local) (duties : Finset Duty) : Local := { l with duties := l.duties ∪ duties }

/-- An effect on the own world uses up the tag that was matched. -/
def spend (l : Local) : Local := { l with checked := none }

/-- A duty is done. -/
def done (l : Local) (duty : Duty) : Local := { l with duties := l.duties.erase duty }

end Local

section

variable [HashSuite] (key : AuditHmacKey)

/-- The kind that the transaction of an operation takes its connection for: an append never creates a world. -/
def Operation.treats (opened : OpenedWorldKind) : Operation → OpenedWorldKind
  | .replace _ _ => opened
  | .append _ _ | .delete _ _ => .existing

/-- The transaction of an operation on the database of a world, over a connection of some kind. -/
def Operation.Transaction (world : ValidatedWorldPath) (opened : OpenedWorldKind) (db : Database)
    (result : WriteAuditResult) (db' : Database) : Operation → Prop
  | .replace env request => ∃ verified retained,
      writeWithAudit key world env.clock verified opened request.body request.contentType request.headers
        retained db = .ok (result, db')
  | .append env request => ∃ verified contentType headers retained,
      appendWithAudit key world env.clock verified request.body contentType headers retained db =
        .ok (result, db')
  | .delete _ _ => False

/-- What a call has to do after its transaction. -/
def Operation.duties (opened : OpenedWorldKind) : Operation → Finset Duty
  | .replace _ _ => if opened = .created then {.mark, .count} else {.mark}
  | .append _ _ | .delete _ _ => ∅

/-- A write, in contrast to a delete. -/
def Operation.isWrite : Operation → Bool
  | .replace _ _ | .append _ _ => true
  | .delete _ _ => false

/-- The entry in memory that an operation leaves in place of another. -/
def Operation.Stores (old : Option MemEntry) (entry : MemEntry) : Operation → Prop
  | .replace _ request => entry = .new request.body request.contentType request.headers
  | .append _ request => ∃ e ∈ old, entry = .new (e.body ++ request.body) e.contentType e.headers
  | .delete _ _ => False

/-- The ledger row of a delete: it names the world, and the subject of a durable one. -/
structure DeleteJob (world : ValidatedWorldPath) (job : AuditAppendJob) : Prop where
  target : job.target = world
  kind : job.eventType.isDelete = true
  memory : isMemoryWorld world = true → job.headers.deleteSubject = none
  durable : isMemoryWorld world = false → ∃ subject ∈ job.headers.deleteSubject,
    subject.Verified world ∧ subject.address.bodySha256 = job.bodySha256

/-- The tag that a read of a durable world returns. -/
def View.HasTag (v : View) (world : ValidatedWorldPath) (tag : String) : Prop :=
  ∃ db stage hmac, v.dir world = some (.database db) ∧ verifyOpenShape db = .ok () ∧
    readWithHmac key world db = .ok (stage, hmac) ∧ tag = (hmac.map hmacEtag).getD (bodyEtag stage.body)

/-- A call may take effect only when its precondition matched the tag it requires. -/
def Local.MayWrite (l : Local) (operation : Operation) : Prop :=
  ∀ tag, operation.preconditions.requiredTag = some tag → l.checked = some tag

/-- A delete has recorded its intent. -/
def Local.HasIntent (l : Local) (caller : Nat) (world : ValidatedWorldPath) : Prop :=
  ∃ event, .logged caller event ∈ l.own ∧ event.eventType = .deleteIntent ∧ event.target = world

/-- A call opens the ledger for its rows, and its own world for a write only. -/
def Slot.Opens (call : Call) (slot : Slot) : Prop := slot = .world → call.operation.isWrite = true

/-- The steps of a call. -/
inductive Protocol (call : Call) (caller : Nat) : View → Local → View → Local → Prop where
  | quiet {v l} : Protocol call caller v l v l
  | lock {v l} (slot : Slot) (hworld : call.world ≠ deleteLedgerWorld)
      (hfree : v.locked (slot.path call.world) = false) (hnone : l.held slot = none) (hchecked : l.checked = none) :
      Protocol call caller v l (v.setLock (slot.path call.world) true) (l.hold slot ⟨.unknown, []⟩)
  | unlock {v l} (slot : Slot) {status : Status} (hheld : l.held slot = some ⟨status, []⟩)
      (hduties : Disjoint l.duties slot.duties) :
      Protocol call caller v l (v.setLock (slot.path call.world) false) (l.release slot)
  | check {v l} {holding : Holding} {tag : String} (hheld : l.held .world = some holding)
      (htag : v.HasTag key call.world tag) : Protocol call caller v l v { l with checked := some tag }
  | missing {v l} (slot : Slot) {status : Status} {pending : List SubscriptionEventId}
      (hheld : l.held slot = some ⟨status, pending⟩)
      (hdir : ∀ db, v.dir (slot.path call.world) ≠ some (.database db)) :
      Protocol call caller v l v (l.hold slot ⟨.missing, pending⟩)
  | look {v l} (slot : Slot) {status : Status} {pending : List SubscriptionEventId} {db : Database}
      (hheld : l.held slot = some ⟨status, pending⟩) (hdir : v.dir (slot.path call.world) = some (.database db))
      (hshape : verifyOpenShape db = .ok ()) :
      Protocol call caller v l v (l.hold slot ⟨.ready .existing, pending⟩)
  | reuse {v l} {status : Status} {pending : List SubscriptionEventId} {opened : OpenedWorldKind} {db : Database}
      (hheld : l.held .world = some ⟨status, pending⟩) (hconn : v.conn call.world = some opened)
      (hdir : v.dir call.world = some (.database db)) (hshape : verifyOpenShape db = .ok ()) :
      Protocol call caller v l v (l.hold .world ⟨.ready opened, pending⟩)
  | cache {v l} {pending : List SubscriptionEventId} {opened : OpenedWorldKind}
      (hheld : l.held .world = some ⟨.ready opened, pending⟩) :
      Protocol call caller v l (v.setConn call.world (some ((v.conn call.world).getD opened)))
        (l.hold .world ⟨.ready ((v.conn call.world).getD opened), pending⟩)
  | reuseLedger {v l} {status : Status} {pending : List SubscriptionEventId}
      (hheld : l.held .ledger = some ⟨status, pending⟩) (hconn : v.ledgerConn = true) :
      Protocol call caller v l v (l.hold .ledger ⟨.ready .existing, pending⟩)
  | cacheLedger {v l} {pending : List SubscriptionEventId} {opened : OpenedWorldKind}
      (hheld : l.held .ledger = some ⟨.ready opened, pending⟩) :
      Protocol call caller v l { v with ledgerConn := true } l
  | makeDir {v l} (slot : Slot) {pending : List SubscriptionEventId}
      (hheld : l.held slot = some ⟨.missing, pending⟩) (hopens : slot.Opens call) :
      Protocol call caller v l (v.setDir (slot.path call.world) (some .empty)) l
  | create {v l} (slot : Slot) {pending : List SubscriptionEventId} (generation : WorldGeneration)
      (hheld : l.held slot = some ⟨.missing, pending⟩) (hdurable : isMemoryWorld (slot.path call.world) = false)
      (hopens : slot.Opens call) :
      Protocol call caller v l
        ((v.setDir (slot.path call.world) (some (.database .empty))).record
          (.created (slot.path call.world) generation))
        (l.hold slot ⟨.after generation 0, pending⟩)
  | statement {v l} (slot : Slot) {pending : List SubscriptionEventId} {generation : WorldGeneration} {k : Nat}
      {statement : Database → SqlResult Database} {db db' : Database}
      (hheld : l.held slot = some ⟨.creating generation k, pending⟩)
      (hdir : v.dir (slot.path call.world) = some (.database db))
      (hstatement : (createStatements generation)[k]? = some statement) (hrun : statement db = .ok db')
      (hopens : slot.Opens call) :
      Protocol call caller v l (v.setDir (slot.path call.world) (some (.database db')))
        (l.hold slot ⟨.after generation (k + 1), pending⟩)
  | indexes {v l} (slot : Slot) {pending : List SubscriptionEventId} {opened : OpenedWorldKind} {db db' : Database}
      (hheld : l.held slot = some ⟨.ready opened, pending⟩)
      (hdir : v.dir (slot.path call.world) = some (.database db)) (hrun : ensureWriteIndexes db = .ok db')
      (hopens : slot.Opens call) :
      Protocol call caller v l (v.setDir (slot.path call.world) (some (.database db'))) l
  | write {v l} {opened : OpenedWorldKind} {db db' : Database} {result : WriteAuditResult} {entry : JournalEntry}
      (hheld : l.held .world = some ⟨.ready opened, []⟩) (hdurable : isMemoryWorld call.world = false)
      (hdir : v.dir call.world = some (.database db)) (hcheck : l.MayWrite call.operation)
      (hrun : call.operation.Transaction key call.world opened db result db')
      (hentry : entry = .wrote caller call.world (call.operation.treats opened) db result db') :
      Protocol call caller v l ((v.setDir call.world (some (.database db'))).record entry)
        (((l.hold .world ⟨.ready opened, entry.eventIds⟩).record entry).owe (call.operation.duties opened)).spend
  | mark {v l} {holding : Holding} (hheld : l.held .world = some holding) (hduty : .mark ∈ l.duties) :
      Protocol call caller v l (v.setConn call.world ((v.conn call.world).map fun _ => .existing)) (l.done .mark)
  | count {v l} {holding : Holding} (hheld : l.held .world = some holding) (hduty : .count ∈ l.duties) :
      Protocol call caller v l { v with count := v.count + 1 } (l.done .count)
  | account {v l} (bytes : Nat × Nat × Nat)
      (hmay : call.operation.isWrite = true ∨ .removed caller call.world ∈ l.own) :
      Protocol call caller v l { v with bytes := bytes } l
  | store {v l} {holding : Holding} {entry : MemEntry} (hheld : l.held .world = some holding)
      (hmemory : isMemoryWorld call.world = true) (hrun : call.operation.Stores (v.entry call.world) entry) :
      Protocol call caller v l ((v.setEntry call.world (some entry)).record (.stored caller call.world entry))
        (l.record (.stored caller call.world entry))
  | log {v l} {config : Config} {clock : TxClock} {job : AuditAppendJob} {isEmpty : Bool} {opened : OpenedWorldKind}
      {db db' : Database} {event : AppendedLedgerEvent} (hheld : l.held .ledger = some ⟨.ready opened, []⟩)
      (hworld : (l.held .world).isSome = true) (hkey : config.hmacKey = key)
      (hdir : v.dir deleteLedgerWorld = some (.database db)) (hjob : DeleteJob call.world job)
      (hremoved : job.eventType ≠ .deleteIntent → .removed caller call.world ∈ l.own)
      (hdelete : call.operation.isWrite = false)
      (hrun : ledgerTransaction config clock job isEmpty db = .ok (event, db')) :
      Protocol call caller v l
        ((v.setDir deleteLedgerWorld (some (.database db'))).record (.logged caller event))
        (((l.hold .ledger ⟨.ready opened, JournalEntry.eventIds (.logged caller event)⟩).record
          (.logged caller event)).owe (if job.eventType = .deleteIntent then {.countLedger} else ∅))
  | countLedger {v l} {holding : Holding} (hheld : l.held .ledger = some holding) (hduty : .countLedger ∈ l.duties) :
      Protocol call caller v l
        { v with count := if v.ledgerCreated then v.count else v.count + 1, ledgerCreated := true }
        (l.done .countLedger)
  | forget {v l} {holding : Holding} (hheld : l.held .world = some holding) :
      Protocol call caller v l (v.setConn call.world none) l
  | remove {v l} {opened : OpenedWorldKind} {pending : List SubscriptionEventId}
      (hheld : l.held .world = some ⟨.ready opened, pending⟩) (hdurable : isMemoryWorld call.world = false)
      (hcheck : l.MayWrite call.operation) (hintent : l.HasIntent caller call.world)
      (hdelete : call.operation.isWrite = false) :
      Protocol call caller v l ((v.setDir call.world none).record (.removed caller call.world))
        (((l.hold .world ⟨.unknown, pending⟩).record (.removed caller call.world)).owe {.discount}).spend
  | discount {v l} {holding : Holding} (hheld : l.held .world = some holding) (hduty : .discount ∈ l.duties) :
      Protocol call caller v l { v with count := v.count - 1 } (l.done .discount)
  | removeMemory {v l} {holding : Holding} (hheld : l.held .world = some holding)
      (hmemory : isMemoryWorld call.world = true) (hintent : l.HasIntent caller call.world) :
      Protocol call caller v l ((v.setEntry call.world none).record (.removed caller call.world))
        (l.record (.removed caller call.world)).spend
  | send {v l} (slot : Slot) {status : Status} {id : SubscriptionEventId} {pending : List SubscriptionEventId}
      {change : ChangeEvent} (hheld : l.held slot = some ⟨status, id :: pending⟩)
      (hidentity : change.identity = some id) :
      Protocol call caller v l (v.send change) (l.hold slot ⟨status, pending⟩)
  | signal {v l} {change : ChangeEvent} (hidentity : change.identity = none) :
      Protocol call caller v l (v.send change) l

end

end AuditeDB
