import Mathlib
import AuditeDB.World.Commit

/-!
# Databases reached by committed transactions

The states that a database goes through when it is created, opened, written and appended to. The newest state stores
a history, and the older ones have fewer events or only miss the index.
-/

namespace AuditeDB

open Results

variable [HashSuite] (key : AuditHmacKey) (world : ValidatedWorldPath)

/-- The states of a database after each of its committed transactions, newest first: it is created, possibly
without the last index, and then written, appended to and opened. -/
inductive Committed : List Database → Prop where
  | created {older : List Database} (generation : WorldGeneration) (indexed : Bool)
      (holder : ∀ db ∈ older, db.events = []) :
      Committed ({ createdDatabase generation with
        schema := if indexed then createdSchema else createdTables } :: older)
  | opened {db db' : Database} {older : List Database} (h : Committed (db :: older))
      (hindexes : ensureWriteIndexes db = .ok db') : Committed (db' :: db :: older)
  | written {db db' : Database} {older : List Database} (h : Committed (db :: older)) {clock : TxClock}
      {verified : Bool} {opened : OpenedWorldKind} {body : Bytes} {contentType : String} {headers : Headers}
      {retained : RetainedBodyCount} {result : WriteAuditResult}
      (hwrite : writeWithAudit key world clock verified opened body contentType headers retained db =
        .ok (result, db')) : Committed (db' :: db :: older)
  | appended {db db' : Database} {older : List Database} (h : Committed (db :: older)) {clock : TxClock}
      {verified : Bool} {body : Bytes} {contentType : String} {headers : Headers} {retained : RetainedBodyCount}
      {result : WriteAuditResult}
      (happend : appendWithAudit key world clock verified body contentType headers retained db =
        .ok (result, db')) : Committed (db' :: db :: older)

/-- An older state of a database: it has fewer events, or only the index is missing. -/
def Behind (log : WorldLog) (db older : Database) : Prop :=
  older.events.length < db.events.length ∨
    older.events = [] ∨ (Represents key world log older ∧ { older with schema := db.schema } = db)

variable {key world}

/-- The number of events is the length of the history. -/
theorem Represents.length_events {log : WorldLog} {db : Database} (h : Represents key world log db) :
    db.events.length = log.entries.length := by
  rw [h.chain.events, List.length_map, render, length_renderFrom]

/-- A stored history does not depend on whether the index is there. -/
theorem Represents.withSchema {log : WorldLog} {db : Database} (h : Represents key world log db)
    {schema : List SchemaEntry} (hschema : CreatedSchema schema) :
    Represents key world log { db with schema := schema } :=
  ⟨hschema, h.stage, h.format, h.casState, h.metaHeaders, ⟨h.chain.events, h.chain.headers, h.chain.sequence,
    h.chain.bounded⟩, h.valid, h.floor, h.bodies⟩

/-- Opening a stored history adds at most the index. -/
theorem Represents.ensureWriteIndexes_eq {log : WorldLog} {db db' : Database} (h : Represents key world log db)
    (hindexes : ensureWriteIndexes db = .ok db') : db' = { db with schema := createdSchema } := by
  simp only [ensureWriteIndexes, bind_eq_ok, pure_eq_ok] at hindexes
  obtain ⟨_, hcreate, _, -, rfl⟩ := hindexes
  unfold createEventHeadersIndex at hcreate
  rcases h.schema with hschema | hschema
  · rw [hschema] at hcreate
    cases hcreate
    rfl
  · rw [hschema] at hcreate
    cases hcreate
    rw [← hschema]

/-- What is behind a state has at most as many events. -/
theorem Behind.length_le {log : WorldLog} {db older : Database} (h : Behind key world log db older) :
    older.events.length ≤ db.events.length := by
  rcases h with hlt | hempty | ⟨-, hsame⟩
  · exact hlt.le
  · simp [hempty]
  · rw [← hsame]

/-- A write leaves everything before it behind. -/
theorem behind_of_commits {kind : AuditEventKind} {body : Bytes} {result : WriteAuditResult}
    {log log' : WorldLog} {db db' : Database} {older : List Database} (hrep : Represents key world log db)
    (hrep' : Represents key world log' db') (hcommits : Commits key world kind body result log log')
    (holder : ∀ d ∈ older, Behind key world log db d) : ∀ d ∈ db :: older, Behind key world log' db' d := by
  have hlt : db.events.length < db'.events.length := by
    rw [hrep.length_events, hrep'.length_events]
    exact hcommits.length_lt
  intro d hd
  rcases List.mem_cons.mp hd with rfl | hd
  · exact .inl hlt
  · exact .inl ((holder d hd).length_le.trans_lt hlt)

/-- The newest state stores a history, and the older ones are behind it. -/
theorem Committed.behind {states : List Database} (h : Committed key world states) :
    ∃ db older log, states = db :: older ∧ Represents key world log db ∧
      ∀ d ∈ older, Behind key world log db d := by
  induction h with
  | created generation indexed holder =>
    refine ⟨_, _, .created generation, rfl, (represents_created key world generation).withSchema ?_,
      fun d hd => .inr (.inl (holder d hd))⟩
    cases indexed
    · exact .inl rfl
    · exact .inr rfl
  | @opened db db' older _ hindexes ih =>
    obtain ⟨_, _, log, hstates, hrep, holder⟩ := ih
    cases hstates
    obtain rfl := hrep.ensureWriteIndexes_eq hindexes
    refine ⟨_, _, log, rfl, hrep.withSchema (.inr rfl), fun d hd => ?_⟩
    rcases List.mem_cons.mp hd with rfl | hd
    · exact .inr (.inr ⟨hrep, rfl⟩)
    · rcases holder d hd with hlt | hempty | ⟨hrep', hsame⟩
      · exact .inl hlt
      · exact .inr (.inl hempty)
      · exact .inr (.inr ⟨hrep', by rw [← hsame]⟩)
  | written _ hwrite ih =>
    obtain ⟨_, _, log, hstates, hrep, holder⟩ := ih
    cases hstates
    obtain ⟨log', hrep', hcommits, -⟩ := writeWithAudit_spec hrep hwrite
    exact ⟨_, _, log', rfl, hrep', behind_of_commits hrep hrep' hcommits holder⟩
  | appended _ happend ih =>
    obtain ⟨_, _, log, hstates, hrep, holder⟩ := ih
    cases hstates
    obtain ⟨log', hrep', hcommits, -⟩ := appendWithAudit_spec hrep happend
    exact ⟨_, _, log', rfl, hrep', behind_of_commits hrep hrep' hcommits holder⟩

end AuditeDB
