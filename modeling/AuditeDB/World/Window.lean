import Mathlib
import AuditeDB.World.Committed
import AuditeDB.World.Progress

/-!
# The retention window

After a write the floor is the oldest of the newest body events that the retention count keeps, unless it was higher
before, and the retained bodies are those of the body events from the floor on.
-/

namespace AuditeDB

open Utf8 Results

/-- The last of the first members of a list. -/
theorem getLast?_take_eq {α : Type*} {l : List α} {n : Nat} (hn : 0 < n) :
    (l.take n).getLast? = l[min n l.length - 1]? := by
  rw [List.getLast?_eq_getElem?, List.length_take, List.getElem?_take]
  exact if_pos (by omega)

/-- The floor of a count is the id of a body event counted from the newest one. -/
theorem Database.floorForLimit_eq (db : Database) (retained : RetainedBodyCount) :
    db.floorForLimit retained.count =
      (db.bodyEventsDesc[min retained.count db.bodyEvents.length - 1]?).map EventRecord.id := by
  have hlength : db.bodyEventsDesc.length = db.bodyEvents.length :=
    ((List.perm_insertionSort _ _).filter _).length_eq
  rw [Database.floorForLimit, getLast?_take_eq retained.positive, hlength]

/-- The floor that is read from the only row. -/
theorem firstRetainedSeq_of_casState {db : Database} {seq : TimelineSeq} (hstate : db.casState = [⟨1, .integer seq.get⟩]) :
    firstRetainedSeq db = .ok (some seq) := by
  have hrow : db.casStateRow = some ⟨1, .integer seq.get⟩ := by
    rw [Database.casStateRow, hstate]
    rfl
  rw [firstRetainedSeq, hrow]
  exact TimelineSeq.newOption_get _ (some seq)

/-- Pruning keeps a floor that is not below that of the count, and otherwise moves it there and deletes what only
older events refer to. -/
theorem pruneToCount_inv {retained : RetainedBodyCount} {db db' : Database} {f pruned : Nat} {id : Int}
    (hstate : db.casState = [⟨1, .integer f⟩]) (hlimit : db.floorForLimit retained.count = some id)
    (h : pruneToCount retained db = .ok (pruned, db')) :
    db'.events = db.events ∧
      (id ≤ f ∧ pruned = 0 ∧ db'.casState = [⟨1, .integer f⟩] ∨
        (f : Int) < id ∧ db'.casState = [⟨1, .integer id⟩] ∧ ∃ bytes, nonnegativeUsize bytes = .ok pruned ∧
          sumBodyLength (db.casBodies.filter fun row =>
            ((db.prunable id).map CasBodyRow.bodySha256).contains row.bodySha256) = .ok bytes) := by
  unfold pruneToCount at h
  obtain ⟨floor, hfloor, h⟩ := bind_eq_ok.mp h
  have hget := TimelineSeq.newOption_eq_ok hfloor
  rw [hlimit, Option.map_eq_some_iff] at hget
  obtain ⟨newFloor, rfl, rfl⟩ := hget
  obtain ⟨current, hcurrent, h⟩ := bind_eq_ok.mp h
  have hread : current.map TimelineSeq.get = (some f).map Nat.cast := readFloorForWrite_eq_ok hstate hcurrent
  obtain ⟨seq, rfl, hseq⟩ := Option.map_eq_some_iff.mp hread
  split_ifs at h with hbelow
  · cases h
    rw [Option.any_some, decide_eq_true_eq, hseq] at hbelow
    exact ⟨rfl, .inl ⟨hbelow, rfl, hstate⟩⟩
  · simp only [bind_eq_ok, pure_eq_ok, liftWrite, mapError_eq_ok, Prod.mk.injEq] at h
    obtain ⟨bytes, hbytes, -, -, moved, hmoved, n, hn, rfl, rfl⟩ := h
    have hdeleted : (db.deleteCasBodies ((db.prunable newFloor.get).map CasBodyRow.bodySha256)).casState =
        [⟨1, .integer f⟩] := hstate
    rw [Option.any_some, decide_eq_true_eq, hseq, not_le] at hbelow
    rw [setFloor_spec hdeleted hmoved]
    exact ⟨rfl, .inr ⟨hbelow, rfl, bytes, hn, hbytes⟩⟩

section

variable [HashSuite] {key : AuditHmacKey} {world : ValidatedWorldPath} {log extended : WorldLog}
  {db before db' : Database} {retained : RetainedBodyCount}

/-- The transaction of a replace or of an append with a retention count. -/
inductive Writes (key : AuditHmacKey) (world : ValidatedWorldPath) (retained : RetainedBodyCount)
    (db db' : Database) : Prop where
  | replace {clock : TxClock} {verified : Bool} {opened : OpenedWorldKind} {body : Bytes} {contentType : String}
      {headers : Headers} {result : WriteAuditResult}
      (hwrite : writeWithAudit key world clock verified opened body contentType headers retained db =
        .ok (result, db'))
  | append {clock : TxClock} {verified : Bool} {body : Bytes} {contentType : String} {headers : Headers}
      {result : WriteAuditResult}
      (happend : appendWithAudit key world clock verified body contentType headers retained db = .ok (result, db'))

/-- A write extends the history that its database stores. -/
theorem Writes.extends (hrep : Represents key world log db) (h : Writes key world retained db db') :
    ∃ kind body result extended before, kind.bodyBearing = true ∧
      Extends key world kind body retained result log extended db before db' := by
  cases h with
  | replace hwrite =>
    obtain ⟨extended, before, hextends, -⟩ := writeWithAudit_extends hrep hwrite
    exact ⟨_, _, _, extended, before, rfl, hextends⟩
  | append happend =>
    obtain ⟨extended, before, hextends, -⟩ := appendWithAudit_extends hrep happend
    exact ⟨_, _, _, extended, before, rfl, hextends⟩

variable {kind : AuditEventKind} {body : Bytes} {result : WriteAuditResult}

/-- The new event is the last one and a body event. -/
theorem Extends.last (h : Extends key world kind body retained result log extended db before db')
    (hkind : kind.bodyBearing = true) : ∃ e ∈ before.bodyEvents, e.id = extended.entries.length := by
  obtain ⟨opening, e, -, hentries, rfl, -⟩ := h.entries
  have hlt : (log.entries ++ opening).length < extended.entries.length := by
    rw [hentries]
    simp
  have hlast : extended.entries[(log.entries ++ opening).length] = e := by
    simp [hentries]
  obtain ⟨row, hrow, hid, -⟩ := h.represents.chain.exists_bodyEvent hlt (by rw [hlast, hkind])
  refine ⟨row, hrow, ?_⟩
  simp only [hid, hentries, List.length_append, List.length_singleton]
  push_cast
  ring

/-- Without a floor before, the new event is the only body event. -/
theorem Extends.id_of_floor_none (hrep : Represents key world log db)
    (h : Extends key world kind body retained result log extended db before db') (hfloor : log.floor = none)
    {e : EventRecord} (he : e ∈ before.bodyEvents) : e.id = extended.entries.length := by
  obtain ⟨opening, last, hopening, hentries, -⟩ := h.entries
  obtain ⟨i, hi, hbearing, hid, -⟩ := h.represents.chain.mem_bodyEvents he
  have hfits := hrep.floor
  rw [hfloor] at hfits
  -- neither an older event nor a format event has a body
  have hnone : ∀ e ∈ log.entries ++ opening, e.kind.bodyBearing = false :=
    List.forall_mem_append.mpr ⟨hfits, hopening.bodyBearing_eq⟩
  have hlength : extended.entries.length = (log.entries ++ opening).length + 1 := by
    simp only [hentries, List.length_append, List.length_singleton]
  have hge : ¬ i < (log.entries ++ opening).length := by
    intro hlt
    have hget : extended.entries[i] = (log.entries ++ opening)[i] := by
      simp only [hentries, List.getElem_append_left hlt]
    rw [hget, hnone _ (List.getElem_mem hlt)] at hbearing
    cases hbearing
  omega

/-- The floor after a write: the floor of the count, unless it was higher before. -/
theorem Extends.floor_eq (hrep : Represents key world log db)
    (h : Extends key world kind body retained result log extended db before db') (hkind : kind.bodyBearing = true) :
    ∃ e, db'.bodyEventsDesc[min retained.count db'.bodyEvents.length - 1]? = some e ∧ 0 < e.id ∧
      db'.casState = [⟨1, .integer (max (log.floor.getD 0 : Int) e.id)⟩] := by
  have hstate : before.casState = [⟨1, .integer (log.floor.getD extended.entries.length : Nat)⟩] := by
    rw [h.represents.casState, h.floor]
    rfl
  obtain ⟨last, hlast, -⟩ := h.last hkind
  have hsome : ∃ e, before.bodyEventsDesc[min retained.count before.bodyEvents.length - 1]? = some e := by
    have hpositive := retained.positive
    have hlength : before.bodyEventsDesc.length = before.bodyEvents.length :=
      ((List.perm_insertionSort _ _).filter _).length_eq
    have hmany : 0 < before.bodyEvents.length := List.length_pos_of_mem hlast
    exact ⟨_, List.getElem?_eq_getElem (by omega)⟩
  obtain ⟨e, he⟩ := hsome
  have hlimit : before.floorForLimit retained.count = some e.id := by
    rw [Database.floorForLimit_eq, he]
    rfl
  obtain ⟨hevents, hpruned⟩ := pruneToCount_inv hstate hlimit h.pruned
  have hmoved : db'.casState = [⟨1, .integer (max ((log.floor.getD extended.entries.length : Nat) : Int) e.id)⟩] := by
    rcases hpruned with ⟨hle, -, hkept⟩ | ⟨hlt, hset, -⟩
    · rw [hkept, max_eq_left hle]
    · rw [hset, max_eq_right hlt.le]
  have hbodyEvents : db'.bodyEvents = before.bodyEvents := by rw [Database.bodyEvents, hevents]; rfl
  have hdesc : db'.bodyEventsDesc = before.bodyEventsDesc := by
    rw [Database.bodyEventsDesc, Database.eventsDesc, hevents]
    rfl
  have hmem : e ∈ before.bodyEvents := by
    have hfiltered := List.mem_of_getElem? he
    rw [Database.bodyEventsDesc, List.mem_filter, Database.eventsDesc, List.mem_insertionSort] at hfiltered
    exact List.mem_filter.mpr hfiltered
  refine ⟨e, by rw [hbodyEvents, hdesc, he], ?_, ?_⟩
  · obtain ⟨i, hi, -, hid, -⟩ := h.represents.chain.mem_bodyEvents hmem
    omega
  · rw [hmoved]
    cases hfloor : log.floor with
    | some f => rfl
    | none =>
      rw [Option.getD_none, h.id_of_floor_none hrep hfloor hmem]
      simp

/-- The retained bodies are those of the body events from the floor on. -/
theorem Represents.mem_casBodies_iff (h : Represents key world log db) {f : Nat} (hfloor : log.floor = some f)
    (value : SqlValue) : value ∈ db.casBodies.map CasBodyRow.bodySha256 ↔ value ∈ db.digestsFrom f := by
  have hkeys := h.bodies.keys
  rw [hfloor] at hkeys
  constructor
  · intro hvalue
    obtain ⟨row, hrow, rfl⟩ := List.mem_map.mp hvalue
    obtain ⟨stored, rfl, -⟩ := h.bodies.stored row hrow
    exact h.chain.mem_digestsFrom.mpr ((hkeys _).mp ⟨_, hrow, rfl⟩)
  · intro hvalue
    obtain ⟨digest, rfl⟩ := h.chain.digest_of_mem hvalue
    obtain ⟨row, hrow, hdigest⟩ := (hkeys digest).mpr (h.chain.mem_digestsFrom.mp hvalue)
    exact List.mem_map.mpr ⟨row, hrow, hdigest⟩

/-- After a write the floor is that of the retention count, unless it was higher before, and the retained bodies are
those of the body events from the floor on. -/
theorem retention_window {older : List Database} (hdb : Committed key world (db :: older))
    (hwrite : Writes key world retained db db') :
    ∃ floor newFloor e, firstRetainedSeq db = .ok floor ∧ firstRetainedSeq db' = .ok (some newFloor) ∧
      db'.bodyEventsDesc[min retained.count db'.bodyEvents.length - 1]? = some e ∧
      newFloor.get = max (floor.elim 0 TimelineSeq.get) e.id ∧
      (∀ digest, digest ∈ db'.casBodies.map CasBodyRow.bodySha256 ↔ digest ∈ db'.digestsFrom newFloor.get) ∧
      ∀ row ∈ db'.casBodies, ∃ body, row = casRow body := by
  obtain ⟨_, _, log, hstates, hrep, -⟩ := hdb.behind
  cases hstates
  obtain ⟨kind, body, result, extended, before, hkind, hextends⟩ := hwrite.extends hrep
  obtain ⟨floor, hfloor, hget⟩ := hrep.firstRetainedSeq_eq
  obtain ⟨e, he, hpositive, hstate⟩ := hextends.floor_eq hrep hkind
  obtain ⟨floor', hrep', -⟩ := hextends.commits
  have hbefore : floor.elim 0 TimelineSeq.get = (log.floor.getD 0 : Int) := by
    cases floor with
    | none =>
      rw [Option.map_none, eq_comm, Option.map_eq_none_iff] at hget
      rw [hget]
      rfl
    | some seq =>
      rw [Option.map_some, eq_comm, Option.map_eq_some_iff] at hget
      obtain ⟨f, hf, hcast⟩ := hget
      rw [hf, Option.elim_some, ← hcast]
      rfl
  have hnew : 0 < max (log.floor.getD 0 : Int) e.id := lt_max_of_lt_right hpositive
  refine ⟨floor, ⟨_, hnew⟩, e, hfloor, firstRetainedSeq_of_casState hstate, he, by rw [hbefore], ?_, ?_⟩
  · -- the floor of the stored history is the one that was computed
    have hsame : floor' = some (max (log.floor.getD 0 : Int) e.id).toNat := by
      have hcells := hrep'.casState.symm.trans hstate
      cases floor' with
      | none => simp at hcells
      | some f =>
        have hcast : (f : Int) = max (log.floor.getD 0 : Int) e.id := by simpa using hcells
        rw [← hcast, Int.toNat_natCast]
    have hcast : (((max (log.floor.getD 0 : Int) e.id).toNat : Nat) : Int) = max (log.floor.getD 0 : Int) e.id :=
      Int.toNat_of_nonneg hnew.le
    intro value
    have hvalue := hrep'.mem_casBodies_iff hsame value
    rwa [hcast] at hvalue
  · intro row hrow
    obtain ⟨stored, hstored, -⟩ := hrep'.bodies.stored row hrow
    exact ⟨stored, hstored⟩

end

/-- The first replace of a created world sets the floor to its own event. -/
theorem retention_window_created :
    letI := sha2Suite
    ∃ db', Writes Sample.key Sample.world .default (createdDatabase Sample.generation) db' ∧
      ∃ newFloor, firstRetainedSeq db' = .ok (some newFloor) := by
  let _ := sha2Suite
  have hrep := represents_created Sample.key Sample.world Sample.generation
  have hcan : CanCommit (WorldLog.created Sample.generation).entries 2 [] .default :=
    ⟨by decide, by decide, fun _ h => (by cases h), by decide⟩
  have hheaders : (([] : Headers).map Prod.fst).Nodup := List.nodup_nil
  obtain ⟨result, db', hwrite, -⟩ := writeWithAudit_ok hrep (.inl rfl) hcan hheaders false Sample.time Sample.time
    "text/plain"
  have hcommitted : Committed Sample.key Sample.world [createdDatabase Sample.generation] :=
    .created Sample.generation true (fun _ h => (by cases h))
  obtain ⟨-, newFloor, -, -, hfloor, -⟩ := retention_window hcommitted (.replace hwrite)
  exact ⟨db', .replace hwrite, newFloor, hfloor⟩

end AuditeDB
