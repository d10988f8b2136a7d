import Mathlib
import AuditeDB.Event

/-!
# The database of one world

The tables of a world database with the definitions that the engine creates them with, and the statements
that the engine runs against them. Rows may hold arbitrary values; the row id of `events` is an integer
primary key that is never reused.
-/

namespace AuditeDB

/-- A row of `stage_meta`. -/
structure StageMetaRow where
  id : Int
  generation : SqlValue
  body : SqlValue
  contentType : SqlValue
deriving DecidableEq

/-- A row of `world_format`. -/
structure WorldFormatRow where
  id : Int
  version : SqlValue
deriving DecidableEq

/-- A row of `cas_bodies`. -/
structure CasBodyRow where
  bodySha256 : SqlValue
  body : SqlValue
deriving DecidableEq

/-- A row of `cas_state`. -/
structure CasStateRow where
  id : Int
  firstRetainedSeq : SqlValue
deriving DecidableEq

/-- A row of `meta_headers`. -/
structure MetaHeaderRow where
  name : SqlValue
  value : SqlValue
deriving DecidableEq

/-- A row of `events`. -/
structure EventRecord where
  id : Int
  timestamp : SqlValue
  eventType : SqlValue
  target : SqlValue
  bodySha256 : SqlValue
  size : SqlValue
  contentType : SqlValue
  metaSha256 : SqlValue
  hmac : SqlValue
  prevHmac : SqlValue
deriving DecidableEq

/-- A row of `event_headers`. -/
structure EventHeaderRow where
  eventId : SqlValue
  name : SqlValue
  value : SqlValue
deriving DecidableEq

/-- The two kinds of schema entries. -/
inductive SchemaKind where
  | table | index
deriving DecidableEq

/-- A row of `sqlite_schema`, with the columns of a table. -/
structure SchemaEntry where
  kind : SchemaKind
  name : String
  tblName : String
  sql : Option String
  columns : List String
deriving DecidableEq

/-- The content of a world database. `eventSequence` is the stored sequence of the row ids of `events`. -/
structure Database where
  schema : List SchemaEntry
  stageMeta : List StageMetaRow
  worldFormat : List WorldFormatRow
  casBodies : List CasBodyRow
  casState : List CasStateRow
  metaHeaders : List MetaHeaderRow
  events : List EventRecord
  eventHeaders : List EventHeaderRow
  eventSequence : Int
deriving DecidableEq

namespace Database

/-- A database file without any table. -/
def empty : Database := ⟨[], [], [], [], [], [], [], [], 0⟩

/-- `SELECT ... FROM stage_meta WHERE id=1`. -/
def stageMetaRow (db : Database) : Option StageMetaRow := db.stageMeta.find? (·.id = 1)

/-- `SELECT first_retained_seq FROM cas_state WHERE id=1`. -/
def casStateRow (db : Database) : Option CasStateRow := db.casState.find? (·.id = 1)

/-- `SELECT ... FROM events ORDER BY id ASC`. -/
def eventsAsc (db : Database) : List EventRecord := db.events.insertionSort fun a b => a.id ≤ b.id

/-- `SELECT ... FROM events ORDER BY id DESC`. -/
def eventsDesc (db : Database) : List EventRecord := db.events.insertionSort fun a b => b.id ≤ a.id

/-- The rows of `events` whose kind carries a body. -/
def bodyEvents (db : Database) : List EventRecord :=
  db.events.filter fun e => AuditEventKind.isBodyType e.eventType

/-- The body events, newest first. -/
def bodyEventsDesc (db : Database) : List EventRecord :=
  db.eventsDesc.filter fun e => AuditEventKind.isBodyType e.eventType

/-- The body events, oldest first. -/
def bodyEventsAsc (db : Database) : List EventRecord :=
  db.eventsAsc.filter fun e => AuditEventKind.isBodyType e.eventType

/-- `SELECT COALESCE(MAX(id), 0) FROM events`. -/
def maxEventId (db : Database) : Int :=
  match db.eventsDesc.head? with
  | some e => e.id
  | none => 0

/-- The row id that `AUTOINCREMENT` assigns next: above every row and every row id used before. -/
def nextEventId (db : Database) : Int := max db.eventSequence (max 0 db.maxEventId) + 1

/-- `SELECT ... FROM cas_bodies WHERE body_sha256=?1`. -/
def casBody (db : Database) (digest : String) : Option CasBodyRow :=
  db.casBodies.find? (·.bodySha256 = .text digest)

/-- The order of `meta_headers` rows by name. -/
def metaHeadersByName (db : Database) : List MetaHeaderRow :=
  db.metaHeaders.insertionSort fun a b => a.name.sortKey ≤ b.name.sortKey

/-- `UPDATE stage_meta SET body=?, content_type=? WHERE id=1`. -/
def updateStage (db : Database) (body : Bytes) (contentType : String) : Database :=
  { db with stageMeta := db.stageMeta.map fun r =>
      if r.id = 1 then { r with body := .blob body, contentType := .text contentType } else r }

/-- `UPDATE stage_meta SET body=? WHERE id=1`. -/
def updateStageBody (db : Database) (body : Bytes) : Database :=
  { db with stageMeta := db.stageMeta.map fun r =>
      if r.id = 1 then { r with body := .blob body } else r }

/-- `UPDATE cas_state SET first_retained_seq=?1 WHERE id=1`. -/
def updateFloor (db : Database) (floor : Int) : Database :=
  { db with casState := db.casState.map fun r =>
      if r.id = 1 then { r with firstRetainedSeq := .integer floor } else r }

end Database

/-- A sum that the database computes over integers: an overflow is an error. -/
def sqlSum (values : List Nat) : SqlResult Int :=
  if values.sum ≤ i64Max then .ok values.sum else .error (.sqliteFailure .error "integer overflow")

/-- `usize::try_from` of a non-negative count. -/
def nonnegativeUsize (value : Int) : SqlResult Nat :=
  if value.toNat ≤ usizeMax then .ok value.toNat else .error .fromSqlConversionFailure

end AuditeDB
