import Mathlib
import AuditeDB.World.Chain
import AuditeDB.World.Write

/-!
# Databases that hold a history

The relation between a world database and the history it stores: the chain is the rendered history, the live
row holds the newest body, and the retained bodies are those of the body events from the floor on.
-/

namespace AuditeDB

open Utf8 Results HashChain

/-- The state of a world as a client sees it: its history, its representation metadata and its floor. -/
structure WorldLog where
  generation : WorldGeneration
  entries : List LogEntry
  contentType : String
  headers : Headers
  floor : Option Nat

/-- A world right after its database was created. -/
def WorldLog.created (generation : WorldGeneration) : WorldLog :=
  ⟨generation, [], "application/octet-stream", [], none⟩

/-- The body events at or above a floor. -/
def retainedEntries (floor : Option Nat) (entries : List LogEntry) : List LogEntry :=
  floor.elim [] fun f => (entries.drop (f - 1)).filter fun e => e.kind.bodyBearing

/-- The retained body events by their positions. -/
theorem mem_retainedEntries {floor : Option Nat} {entries : List LogEntry} {e : LogEntry} :
    e ∈ retainedEntries floor entries ↔ ∃ f ∈ floor, ∃ i, ∃ hi : i < entries.length,
      f ≤ i + 1 ∧ entries[i] = e ∧ e.kind.bodyBearing = true := by
  cases floor with
  | none => simp [retainedEntries]
  | some f =>
    simp only [retainedEntries, Option.elim_some, List.mem_filter, List.mem_drop_iff_getElem, Option.mem_def,
      Option.some.injEq, exists_eq_left']
    constructor
    · rintro ⟨⟨i, hi, rfl⟩, hbearing⟩
      exact ⟨f - 1 + i, by omega, by omega, rfl, hbearing⟩
    · rintro ⟨i, hi, hf, rfl, hbearing⟩
      refine ⟨⟨i - (f - 1), by omega, ?_⟩, hbearing⟩
      congr 1
      omega

/-- A floor that fits a history: it names a body event, and there is one as soon as there are body events. -/
def FloorFits (floor : Option Nat) (entries : List LogEntry) : Prop :=
  match floor with
  | none => ∀ e ∈ entries, e.kind.bodyBearing = false
  | some f => 1 ≤ f ∧ ∃ e, entries[f - 1]? = some e ∧ e.kind.bodyBearing = true

section

variable [HashSuite]

/-- The stored form of a retained body. -/
def casRow (body : Bytes) : CasBodyRow := ⟨.text (BodySha256.forBody body).text, .blob body⟩

/-- The retained bodies of a database are those of the body events from the floor on. -/
structure HasBodies (casBodies : List CasBodyRow) (floor : Option Nat) (entries : List LogEntry) :
    Prop where
  nodup : (casBodies.map CasBodyRow.bodySha256).Nodup
  stored : ∀ row ∈ casBodies, ∃ body, row = casRow body ∧ body.length ≤ i64Max ∧
    ∀ e ∈ retainedEntries floor entries, e.bodySha256 = .forBody body → e.size = body.length
  keys : ∀ digest : BodySha256, (∃ row ∈ casBodies, row.bodySha256 = .text digest.text) ↔
    ∃ e ∈ retainedEntries floor entries, e.bodySha256 = digest

/-- A database stores a history. -/
structure Represents (key : AuditHmacKey) (world : ValidatedWorldPath) (log : WorldLog) (db : Database) :
    Prop where
  schema : CreatedSchema db.schema
  stage : db.stageMeta =
    [⟨1, .text log.generation.text, .blob (bodyAfter log.entries), .text log.contentType⟩]
  format : db.worldFormat = [⟨1, .integer currentWorldFormatVersion⟩]
  casState : db.casState = [⟨1, log.floor.elim .null fun f => .integer f⟩]
  metaHeaders : db.metaHeaders = log.headers.map fun h => ⟨.text h.1, .text h.2⟩
  chain : db.HasChain key world log.generation log.entries
  valid : ∀ e ∈ log.entries, e.Valid world
  floor : FloorFits log.floor log.entries
  bodies : HasBodies db.casBodies log.floor log.entries

variable {key : AuditHmacKey} {world : ValidatedWorldPath} {log : WorldLog} {db : Database}

/-- A created database stores the empty history. -/
theorem represents_created (key : AuditHmacKey) (world : ValidatedWorldPath) (generation : WorldGeneration) :
    Represents key world (.created generation) (createdDatabase generation) where
  schema := .inr rfl
  stage := rfl
  format := rfl
  casState := rfl
  metaHeaders := rfl
  chain := ⟨rfl, rfl, rfl, Nat.zero_le _⟩
  valid := fun _ h => (by cases h)
  floor := fun _ h => (by cases h)
  bodies := ⟨.nil, fun _ h => (by cases h), fun digest => by simp [createdDatabase, retainedEntries,
    WorldLog.created]⟩

/-- The database of a history of which only the newest body is retained. -/
def storedDatabase (key : AuditHmacKey) (world : ValidatedWorldPath) (generation : WorldGeneration)
    (entries : List LogEntry) (contentType : String) (headers : Headers) : Database where
  schema := createdSchema
  stageMeta := [⟨1, .text generation.text, .blob (bodyAfter entries), .text contentType⟩]
  worldFormat := [⟨1, .integer currentWorldFormatVersion⟩]
  casBodies := [casRow (bodyAfter entries)]
  casState := [⟨1, .integer entries.length⟩]
  metaHeaders := headers.map fun h => ⟨.text h.1, .text h.2⟩
  events := (render key world generation entries).map fun event => event.1.record
  eventHeaders := headerRows (render key world generation entries)
  eventSequence := entries.length

/-- A history that ends in a body event is stored with its newest body retained. -/
theorem represents_stored (key : AuditHmacKey) (generation : WorldGeneration) {entries : List LogEntry}
    (hvalid : ∀ e ∈ entries, e.Valid world) (hlength : entries.length ≤ i64Max) {before : List LogEntry}
    {last : LogEntry} (hlast : entries = before ++ [last]) {body : Bytes} (hbody : last.content = some body)
    (contentType : String) (headers : Headers) :
    Represents key world ⟨generation, entries, contentType, headers, some entries.length⟩
      (storedDatabase key world generation entries contentType headers) := by
  have hlastValid : last.Valid world := hvalid last (by simp [hlast])
  have hbearing : last.kind.bodyBearing = true := hlastValid.bearing.mpr (by rw [hbody]; rfl)
  obtain ⟨hdigest, hsize, hfits⟩ := hlastValid.body body hbody
  have hafter : bodyAfter entries = body := by simp [bodyAfter, hlast, hbody]
  have hretained : retainedEntries (some entries.length) entries = [last] := by
    simp [retainedEntries, hlast, hbearing]
  refine ⟨.inr rfl, rfl, rfl, rfl, rfl, ⟨rfl, rfl, rfl, hlength⟩, hvalid, ⟨by simp [hlast], last, by simp [hlast],
    hbearing⟩, ⟨List.nodup_singleton _, ?_, fun digest => ?_⟩⟩
  · intro row hrow
    rw [List.mem_singleton.mp hrow, hafter, hretained]
    exact ⟨body, rfl, hfits, by simp [hsize]⟩
  · simp only [hretained, storedDatabase, hafter, List.mem_singleton, exists_eq_left, hdigest]
    exact ⟨fun h => BodySha256.ext (SqlValue.text.inj h), fun h => h ▸ rfl⟩

namespace Represents

/-- A floor is a row id. -/
theorem floor_positive (h : Represents key world log db) {f : Nat} (hfloor : log.floor = some f) : 1 ≤ f := by
  have hfits := h.floor
  rw [hfloor] at hfits
  exact hfits.1

/-- The table of the live row is in the schema. -/
theorem find_stageMeta (h : Represents key world log db) :
    db.schema.find? (fun e => e.kind = .table && e.name = "stage_meta") = some stageMetaTable :=
  h.schema.find_table rfl

/-- The live row. -/
theorem stageMetaRow_eq (h : Represents key world log db) : db.stageMetaRow =
    some ⟨1, .text log.generation.text, .blob (bodyAfter log.entries), .text log.contentType⟩ := by
  rw [Database.stageMetaRow, h.stage]
  rfl

/-- The stored generation is the one of the history. -/
theorem generation_eq (h : Represents key world log db) : generation db = .ok log.generation := by
  have hcolumns : (db.schema.find? fun e => e.kind = .table && e.name = "stage_meta").elim []
      SchemaEntry.columns = stageMetaTable.columns := by
    rw [h.find_stageMeta]
    rfl
  have hcontains : (!stageMetaTable.columns.contains "generation") = false := rfl
  simp only [AuditeDB.generation, hcolumns, hcontains, h.stageMetaRow_eq, rejectIf, Bool.false_eq_true,
    if_false, requireSome, ok_bind, WorldGeneration.new_text, pure, Except.pure]

/-- The database has the shape that opening it checks. -/
theorem verifyOpenShape_eq (h : Represents key world log db) : verifyOpenShape db = .ok () := by
  refine verifyOpenShape_created h.schema h.generation_eq ?_ ?_
  · rw [verifyCasStateRow, h.casState]
    cases hfloor : log.floor with
    | none => rfl
    | some f =>
      have hpositive : f ≠ 0 := Nat.one_le_iff_ne_zero.mp (h.floor_positive hfloor)
      simp [verifyCasStateEntry, rejectIf, hpositive, requireSingleRow, bind, Except.bind, pure, Except.pure]
  · rw [verifyWorldFormatRow, h.format]
    rfl

/-- The live body. -/
theorem liveBody_eq (h : Represents key world log db) : liveBody db = .ok (bodyAfter log.entries) := by
  rw [liveBody, h.stageMetaRow_eq]
  rfl

/-- The stored floor. -/
theorem firstRetainedSeq_eq (h : Represents key world log db) :
    ∃ floor, firstRetainedSeq db = .ok floor ∧ floor.map TimelineSeq.get = log.floor.map Nat.cast := by
  have hrow : db.casStateRow = some ⟨1, log.floor.elim .null fun f => .integer f⟩ := by
    rw [Database.casStateRow, h.casState]
    rfl
  rw [firstRetainedSeq, hrow]
  cases hfloor : log.floor with
  | none => exact ⟨none, rfl, rfl⟩
  | some f =>
    have hpositive : 0 < (f : Int) := by exact_mod_cast h.floor_positive hfloor
    exact ⟨some ⟨f, hpositive⟩, TimelineSeq.newOption_get _ (some ⟨f, hpositive⟩), rfl⟩

end Represents

/-- Loading distinct retained bodies finds the size of each. -/
theorem foldlM_loadHashedBody {rows : List CasBodyRow}
    (hstored : ∀ row ∈ rows, ∃ body, row = casRow body ∧ body.length ≤ i64Max)
    (hnodup : (rows.map CasBodyRow.bodySha256).Nodup) (bodies : RetainedBodies) :
    ∃ loaded, rows.foldlM loadHashedBody bodies = .ok loaded ∧
      ∀ digest, loaded.lookup digest = match rows.find? (·.bodySha256 = .text digest.text) with
        | some row => row.body.blobLength.map Nat.cast
        | none => bodies.lookup digest := by
  induction rows generalizing bodies with
  | nil => exact ⟨bodies, rfl, fun _ => rfl⟩
  | cons row rest ih =>
    obtain ⟨⟨body, rfl, hlength⟩, hrest⟩ := List.forall_mem_cons.mp hstored
    obtain ⟨hfresh, hnodup⟩ := List.nodup_cons.mp hnodup
    obtain ⟨loaded, hloaded, hlookup⟩ := ih hrest hnodup (bodies.insert (.forBody body) body.length)
    have hstep : loadHashedBody bodies (casRow body) =
        .ok (bodies.insert (.forBody body) body.length) := by
      simp [loadHashedBody, casRow, SqlValue.getString, SqlValue.getBytes, not_lt.mpr hlength, pure,
        Except.pure]
    refine ⟨loaded, ?_, fun digest => ?_⟩
    · rw [List.foldlM_cons, hstep, ok_bind, hloaded]
    · rw [hlookup, List.find?_cons]
      by_cases hdigest : BodySha256.forBody body = digest
      · -- no later row has the same digest
        have hnone : rest.find? (·.bodySha256 = .text digest.text) = none := by
          rw [List.find?_eq_none]
          rintro row hrow hsame
          refine hfresh (List.mem_map.mpr ⟨row, hrow, ?_⟩)
          rw [of_decide_eq_true hsame, ← hdigest]
          rfl
        rw [hnone, ← hdigest, AList.lookup_insert]
        simp [casRow, SqlValue.blobLength]
      · have hne : ¬ (casRow body).bodySha256 = .text digest.text :=
          fun hsame => hdigest (BodySha256.ext (SqlValue.text.inj hsame))
        rw [decide_eq_false hne, AList.lookup_insert_ne (Ne.symm hdigest)]

end

namespace Sample

/-- A key. -/
def key : AuditHmacKey := ⟨List.replicate 32 107, by decide, by decide⟩

/-- A durable world. -/
def world : ValidatedWorldPath := ⟨"home/notes", by decide +kernel⟩

/-- A generation. -/
def generation : WorldGeneration := .ofEntropy (List.replicate 16 1) rfl

/-- A point in time. -/
def time : AuditTimestamp := ⟨"2024-05-01T12:00:00.000Z", by decide +kernel⟩

/-- The event of a replace without headers. -/
def put [HashSuite] (body : Bytes) : LogEntry :=
  ⟨time, .put, world, .forBody body, body.length, "text/plain", [], .nil, some body⟩

/-- A replace with a small body may be recorded. -/
theorem put_valid [HashSuite] {body : Bytes} (hlength : body.length ≤ i64Max) : (put body).Valid world :=
  ⟨fun _ => rfl, fun h => (by cases h), ⟨fun _ => rfl, fun _ => rfl⟩,
    fun _ h => Option.some.inj h ▸ ⟨rfl, rfl, hlength⟩, fun h => (by cases h)⟩

end Sample

end AuditeDB
