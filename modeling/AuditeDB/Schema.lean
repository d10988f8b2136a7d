import Mathlib
import AuditeDB.Database
import AuditeDB.Library.Results

/-!
# The schema of a world database

The statements that create a world database, one autocommitted statement after the other, and the checks
that every opening of an existing database makes.
-/

namespace AuditeDB

open Results

/-- `CURRENT_WORLD_FORMAT_VERSION`. -/
def currentWorldFormatVersion : Int := 2

/-- `WORLD_FORMAT_TABLE_SQL`, without the line breaks around the statement. -/
def worldFormatTableSql : String :=
"CREATE TABLE world_format(
    id INTEGER PRIMARY KEY CHECK(id=1),
    version INTEGER NOT NULL
        CHECK(typeof(version)='integer')
        CHECK(version=2)
)"

/-- `CAS_BODIES_TABLE_SQL`, without the line breaks around the statement. -/
def casBodiesTableSql : String :=
"CREATE TABLE cas_bodies(
    body_sha256 TEXT NOT NULL PRIMARY KEY
        CHECK(typeof(body_sha256)='text')
        CHECK(length(body_sha256)=64)
        CHECK(body_sha256 NOT GLOB '*[^0-9a-f]*'),
    body BLOB NOT NULL
        CHECK(typeof(body)='blob')
) WITHOUT ROWID"

/-- `CAS_STATE_TABLE_SQL`, without the line breaks around the statement. -/
def casStateTableSql : String :=
"CREATE TABLE cas_state(
    id INTEGER PRIMARY KEY CHECK(id=1),
    first_retained_seq INTEGER
        CHECK(
            first_retained_seq IS NULL OR
            (typeof(first_retained_seq)='integer' AND first_retained_seq > 0)
        )
)"

/-- `EVENT_HEADERS_EVENT_ID_INDEX_NAME`. -/
def eventHeadersIndexName : String := "idx_event_headers_event_id"

/-- `EVENT_HEADERS_EVENT_ID_INDEX_SHAPE_SQL`. -/
def eventHeadersIndexShapeSql : String :=
  "CREATE INDEX idx_event_headers_event_id ON event_headers(event_id)"

/-- `char::is_ascii_whitespace`. -/
def isAsciiWhitespaceChar (c : Char) : Bool :=
  c == ' ' || c == '\t' || c == '\n' || c == '\r' || c == Char.ofNat 12

/-- `is_sql_word_char`. -/
def isSqlWordChar (c : Char) : Bool := c.isAlphanum || c == '_'

/-- The loop of `normalized_schema_sql` over the remaining characters; `out` holds the output reversed. A run
of white space is decided at its last character, where the source looks at the characters around the run. -/
def normalizeSql : Bool → List Char → List Char → List Char
  | _, [], out => out
  | true, '\'' :: '\'' :: rest, out => normalizeSql true rest ('\'' :: '\'' :: out)
  | true, '\'' :: rest, out => normalizeSql false rest ('\'' :: out)
  | true, c :: rest, out => normalizeSql true rest (c :: out)
  | false, '\'' :: rest, out => normalizeSql true rest ('\'' :: out)
  | false, c :: rest, out =>
    if isAsciiWhitespaceChar c then
      match out, rest with
      | before :: _, after :: _ =>
        if isSqlWordChar before && isSqlWordChar after then normalizeSql false rest (' ' :: out)
        else normalizeSql false rest out
      | _, _ => normalizeSql false rest out
    else normalizeSql false rest (c :: out)

/-- `normalized_schema_sql`: a statement without insignificant white space and trailing semicolons. -/
def normalizedSchemaSql (sql : String) : String :=
  String.ofList ((normalizeSql false sql.toList []).dropWhile (· == ';')).reverse

/-- The schema entry of a table. -/
def tableEntry (name sql : String) (columns : List String) : SchemaEntry :=
  ⟨.table, name, name, some sql, columns⟩

/-- The table `stage_meta`: generation, live body and content type of the world. -/
def stageMetaTable : SchemaEntry :=
  tableEntry "stage_meta" "CREATE TABLE stage_meta(
            id INTEGER PRIMARY KEY CHECK(id=1),
            generation TEXT NOT NULL,
            body BLOB DEFAULT x'',
            content_type TEXT DEFAULT 'application/octet-stream'
        )" ["id", "generation", "body", "content_type"]

/-- The table `world_format`. -/
def worldFormatTable : SchemaEntry :=
  tableEntry "world_format" worldFormatTableSql ["id", "version"]

/-- The table `cas_bodies`. -/
def casBodiesTable : SchemaEntry :=
  tableEntry "cas_bodies" casBodiesTableSql ["body_sha256", "body"]

/-- The table `cas_state`. -/
def casStateTable : SchemaEntry :=
  tableEntry "cas_state" casStateTableSql ["id", "first_retained_seq"]

/-- The table `meta_headers`. -/
def metaHeadersTable : SchemaEntry :=
  tableEntry "meta_headers" "CREATE TABLE meta_headers(
            name TEXT NOT NULL,
            value TEXT NOT NULL,
            PRIMARY KEY(name)
        )" ["name", "value"]

/-- The table `events`. -/
def eventsTable : SchemaEntry :=
  tableEntry "events" "CREATE TABLE events(
            id INTEGER PRIMARY KEY AUTOINCREMENT,
            timestamp TEXT NOT NULL,
            event_type TEXT NOT NULL,
            target TEXT DEFAULT '',
            body_sha256 TEXT DEFAULT '',
            size INTEGER DEFAULT 0,
            content_type TEXT DEFAULT '',
            meta_sha256 TEXT DEFAULT '',
            hmac TEXT NOT NULL,
            prev_hmac TEXT DEFAULT ''
        )" ["id", "timestamp", "event_type", "target", "body_sha256", "size", "content_type",
            "meta_sha256", "hmac", "prev_hmac"]

/-- The table `event_headers`. -/
def eventHeadersTable : SchemaEntry :=
  tableEntry "event_headers" "CREATE TABLE event_headers(
            event_id INTEGER NOT NULL,
            name TEXT NOT NULL,
            value TEXT NOT NULL
        )" ["event_id", "name", "value"]

/-- The index of `event_headers`. -/
def eventHeadersIndex : SchemaEntry :=
  ⟨.index, eventHeadersIndexName, "event_headers", some eventHeadersIndexShapeSql, []⟩

/-- `CREATE TABLE`. -/
def createTable (entry : SchemaEntry) (db : Database) : SqlResult Database :=
  if db.schema.any (·.name = entry.name) then
    .error (.sqliteFailure .error s!"table {entry.name} already exists")
  else .ok { db with schema := db.schema ++ [entry] }

/-- `CREATE INDEX IF NOT EXISTS` for the index of `event_headers`. -/
def createEventHeadersIndex (db : Database) : SqlResult Database :=
  if db.schema.any (·.name = eventHeadersIndexName) then .ok db
  else .ok { db with schema := db.schema ++ [eventHeadersIndex] }

/-- `INSERT INTO world_format(id, version) VALUES(1, ?1)`. -/
def insertWorldFormat (db : Database) : SqlResult Database :=
  .ok { db with worldFormat := db.worldFormat ++ [⟨1, .integer currentWorldFormatVersion⟩] }

/-- `INSERT INTO cas_state(id, first_retained_seq) VALUES(1, NULL)`. -/
def insertCasState (db : Database) : SqlResult Database :=
  .ok { db with casState := db.casState ++ [⟨1, .null⟩] }

/-- `INSERT INTO stage_meta(id, generation, body) VALUES(1, ?1, x'')`. -/
def insertStageMeta (generation : WorldGeneration) (db : Database) : SqlResult Database :=
  .ok { db with stageMeta := db.stageMeta ++
    [⟨1, .text generation.text, .blob [], .text "application/octet-stream"⟩] }

/-- `world_schema::create`: the statements in the order in which they are run. -/
def createStatements (generation : WorldGeneration) : List (Database → SqlResult Database) :=
  [ createTable stageMetaTable, createTable worldFormatTable, insertWorldFormat,
    createTable casBodiesTable, createTable casStateTable, insertCasState, insertStageMeta generation,
    createTable metaHeadersTable, createTable eventsTable, createTable eventHeadersTable,
    createEventHeadersIndex ]

/-- `world_schema::new_world`: creation starts only in a database without tables. -/
def newWorld (db : Database) : SqlResult Unit :=
  match db.schema.find? fun e => e.kind = .table && !startsWith e.name "sqlite_" with
  | some e => .error (corruptError s!"new world schema already has table: {e.name}")
  | none => .ok ()

/-- `require_table`. -/
def requireTable (db : Database) (table : String) : SqlResult Unit :=
  if db.schema.any fun e => e.kind = .table && e.name = table then .ok ()
  else .error (corruptError s!"missing required table: {table}")

/-- `verify_exact_table`. -/
def verifyExactTable (db : Database) (table expectedSql : String) : SqlResult Unit := do
  let sql ← requireSome (corruptError s!"missing required table: {table}")
    ((db.schema.find? fun e => e.kind = .table && e.name = table).bind (·.sql))
  rejectIf (normalizedSchemaSql sql ≠ normalizedSchemaSql expectedSql)
    (corruptError s!"schema mismatch for required table: {table}")

/-- `verify_exact_index`. -/
def verifyExactIndex (db : Database) (index expectedTable expectedSql : String) : SqlResult Unit := do
  let entry ← requireSome (corruptError s!"missing required index: {index}")
    (db.schema.find? fun e => e.kind = .index && e.name = index)
  rejectIf (entry.tblName ≠ expectedTable ||
      !entry.sql.any fun actual => normalizedSchemaSql actual = normalizedSchemaSql expectedSql)
    (corruptError s!"schema mismatch for required index: {index}")

/-- `ensure_write_indexes`. -/
def ensureWriteIndexes (db : Database) : SqlResult Database := do
  let db ← createEventHeadersIndex db
  verifyExactIndex db eventHeadersIndexName "event_headers" eventHeadersIndexShapeSql
  pure db

/-- `world_schema::generation`: the generation that the database belongs to. -/
def generation (db : Database) : SqlResult WorldGeneration := do
  let columns := (db.schema.find? fun e => e.kind = .table && e.name = "stage_meta").elim [] (·.columns)
  rejectIf (!columns.contains "generation")
    (corruptError "missing required column: stage_meta.generation")
  let row ← requireSome (corruptError "missing required row: stage_meta id=1") db.stageMetaRow
  let raw ← match row.generation with
    | .text raw => pure raw
    | .malformedText _ => throw .utf8Error
    | _ => throw (corruptError "stage_meta.generation must be TEXT")
  match WorldGeneration.new raw with
  | .ok generation => pure generation
  | .error reason => throw (corruptError s!"invalid stage_meta.generation: {reason}")

/-- The check of one row in `verify_cas_state_row`. -/
def verifyCasStateEntry (row : CasStateRow) : SqlResult Unit := do
  rejectIf (row.id ≠ 1) (corruptError "invalid row: cas_state.id must be 1")
  match row.firstRetainedSeq with
  | .null => pure ()
  | .integer seq => rejectIf (seq ≤ 0) (corruptError "cas_state.first_retained_seq must be positive")
  | _ => throw (corruptError "cas_state.first_retained_seq must be INTEGER or NULL")

/-- The check of one row in `verify_world_format_row`. -/
def verifyWorldFormatEntry (row : WorldFormatRow) : SqlResult Unit := do
  rejectIf (row.id ≠ 1) (corruptError "invalid row: world_format.id must be 1")
  match row.version with
  | .integer version =>
    rejectIf (version ≠ currentWorldFormatVersion)
      (corruptError s!"unsupported world format version: {version}")
  | _ => throw (corruptError "world_format.version must be INTEGER")

/-- A table that has to hold exactly one row. -/
def requireSingleRow (table : String) (count : Nat) : SqlResult Unit :=
  if count = 1 then .ok ()
  else if count = 0 then .error (corruptError s!"missing required row: {table} id=1")
  else .error (corruptError s!"{table} must contain exactly one row")

/-- `verify_cas_state_row`. -/
def verifyCasStateRow (db : Database) : SqlResult Unit := do
  db.casState.forM verifyCasStateEntry
  requireSingleRow "cas_state" db.casState.length

/-- `verify_world_format_row`. -/
def verifyWorldFormatRow (db : Database) : SqlResult Unit := do
  db.worldFormat.forM verifyWorldFormatEntry
  requireSingleRow "world_format" db.worldFormat.length

/-- `verify_open_shape`: what every opening of an existing database checks. -/
def verifyOpenShape (db : Database) : SqlResult Unit := do
  ["stage_meta", "meta_headers", "events", "event_headers"].forM (requireTable db)
  let _ ← generation db
  verifyExactTable db "cas_bodies" casBodiesTableSql
  verifyExactTable db "cas_state" casStateTableSql
  verifyExactTable db "world_format" worldFormatTableSql
  verifyCasStateRow db
  verifyWorldFormatRow db

/-- Run statements one after the other. -/
def runStatements (statements : List (Database → SqlResult Database)) (db : Database) :
    SqlResult Database :=
  statements.foldlM (fun db statement => statement db) db

/-- The tables of a created database. -/
def createdTables : List SchemaEntry :=
  [stageMetaTable, worldFormatTable, casBodiesTable, casStateTable, metaHeadersTable, eventsTable,
    eventHeadersTable]

/-- The schema entries of a created database. -/
def createdSchema : List SchemaEntry := createdTables ++ [eventHeadersIndex]

/-- The schema of a database whose tables were all created. The index is missing when creation stopped right
before it. -/
def CreatedSchema (schema : List SchemaEntry) : Prop := schema = createdTables ∨ schema = createdSchema

/-- A created database before its first event. -/
def createdDatabase (generation : WorldGeneration) : Database where
  schema := createdSchema
  stageMeta := [⟨1, .text generation.text, .blob [], .text "application/octet-stream"⟩]
  worldFormat := [⟨1, .integer currentWorldFormatVersion⟩]
  casBodies := []
  casState := [⟨1, .null⟩]
  metaHeaders := []
  events := []
  eventHeaders := []
  eventSequence := 0

/-- Creation completes in an empty file. -/
theorem runStatements_createStatements (generation : WorldGeneration) :
    runStatements (createStatements generation) Database.empty = .ok (createdDatabase generation) := by
  rfl

/-- A table whose stored statement is the expected one passes the exact check. -/
theorem verifyExactTable_of_find {db : Database} {entry : SchemaEntry} {table sql : String}
    (hfind : db.schema.find? (fun e => e.kind = .table && e.name = table) = some entry)
    (hsql : entry.sql = some sql) : verifyExactTable db table sql = .ok () := by
  rw [verifyExactTable, hfind, Option.bind_some, hsql, requireSome, ok_bind, rejectIf_eq_ok, not_not]

/-- A created table is found in the schema. -/
theorem CreatedSchema.find_table {schema : List SchemaEntry} (hschema : CreatedSchema schema) {table : String}
    {entry : SchemaEntry}
    (hentry : createdTables.find? (fun e => e.kind = .table && e.name = table) = some entry) :
    schema.find? (fun e => e.kind = .table && e.name = table) = some entry := by
  rcases hschema with rfl | rfl
  · exact hentry
  · rw [createdSchema, List.find?_append, hentry]
    rfl

/-- The shape check looks at the schema, the generation and the two singleton tables only. -/
theorem verifyOpenShape_created {db : Database} (hschema : CreatedSchema db.schema)
    {world : WorldGeneration} (hgeneration : generation db = .ok world)
    (hstate : verifyCasStateRow db = .ok ()) (hformat : verifyWorldFormatRow db = .ok ()) :
    verifyOpenShape db = .ok () := by
  have htables : (["stage_meta", "meta_headers", "events", "event_headers"].forM (requireTable db)) =
      .ok () := by
    rw [forM_eq_ok]
    intro table htable
    rw [requireTable, if_pos]
    rcases hschema with hschema | hschema <;> rw [hschema] <;> clear hschema <;> revert table <;> decide
  have hbodies : verifyExactTable db "cas_bodies" casBodiesTableSql = .ok () :=
    verifyExactTable_of_find (hschema.find_table (show _ = some casBodiesTable from rfl)) rfl
  have hcas : verifyExactTable db "cas_state" casStateTableSql = .ok () :=
    verifyExactTable_of_find (hschema.find_table (show _ = some casStateTable from rfl)) rfl
  have hworld : verifyExactTable db "world_format" worldFormatTableSql = .ok () :=
    verifyExactTable_of_find (hschema.find_table (show _ = some worldFormatTable from rfl)) rfl
  refine bind_eq_ok.mpr ⟨⟨⟩, htables, bind_eq_ok.mpr ⟨world, hgeneration, ?_⟩⟩
  refine bind_eq_ok.mpr ⟨⟨⟩, hbodies, bind_eq_ok.mpr ⟨⟨⟩, hcas, ?_⟩⟩
  exact bind_eq_ok.mpr ⟨⟨⟩, hworld, bind_eq_ok.mpr ⟨⟨⟩, hstate, hformat⟩⟩

end AuditeDB
