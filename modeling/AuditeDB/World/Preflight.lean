import Mathlib
import AuditeDB.World.Window

/-!
# The quota preflight

Before a write the engine computes how many bytes the write will add to the retained bodies and how many it will
prune. When the write commits, both numbers are what the transaction inserts and prunes.
-/

namespace AuditeDB

open Utf8 Results

/-- Rows with distinct digests are told apart by them. -/
theorem filter_contains_filter {rows : List CasBodyRow} (hnodup : (rows.map CasBodyRow.bodySha256).Nodup)
    (p : CasBodyRow → Bool) :
    (rows.filter fun row => ((rows.filter p).map CasBodyRow.bodySha256).contains row.bodySha256) = rows.filter p := by
  refine List.filter_congr fun row hrow => ?_
  rw [Bool.eq_iff_iff, List.contains_iff_mem, List.mem_map]
  constructor
  · rintro ⟨other, hother, hkey⟩
    obtain ⟨hmem, hp⟩ := List.mem_filter.mp hother
    rwa [← List.inj_on_of_nodup_map hnodup hmem hrow hkey]
  · exact fun hp => ⟨row, List.mem_filter.mpr ⟨hrow, hp⟩, rfl⟩

/-- A further text rules out the rows that have it. -/
theorem sqlNotIn_concat (value : SqlValue) (values : List SqlValue) (text : String) :
    sqlNotIn value (values ++ [.text text]) = (sqlNotIn value values && decide (value ≠ .text text)) := by
  rw [Bool.eq_iff_iff]
  simp only [sqlNotIn, Bool.and_eq_true, Bool.not_eq_true', ← Bool.not_eq_true, List.contains_iff_mem,
    List.mem_append, List.mem_singleton, decide_eq_true_eq, not_or, ne_eq, reduceCtorEq, not_false_eq_true, and_true]
  tauto

section

variable [HashSuite] {key : AuditHmacKey} {world : ValidatedWorldPath} {log extended : WorldLog}
  {db before db' : Database} {retained : RetainedBodyCount} {kind : AuditEventKind} {body : Bytes}
  {result : WriteAuditResult}

/-- A format event adds no body event. -/
theorem Opening.bodyRecords_eq {generation : WorldGeneration} {entries opening : List LogEntry}
    {formatEvent : Option AppendedAuditRow} (h : Opening key world generation entries formatEvent opening) :
    (((render key world generation (entries ++ opening)).map fun event => event.1.record).filter
        fun e => AuditEventKind.isBodyType e.eventType) =
      ((render key world generation entries).map fun event => event.1.record).filter
        fun e => AuditEventKind.isBodyType e.eventType := by
  cases h with
  | existing => rw [List.append_nil]
  | @format row e hkind =>
    rw [render_append, List.map_append, List.filter_append]
    simp [LogEntry.row, EventRow.record, hkind, AuditEventKind.bodyBearing]

/-- A write adds one body event, with the digest of its body. -/
theorem Extends.bodyEvents_eq (hrep : Represents key world log db)
    (h : Extends key world kind body retained result log extended db before db') (hkind : kind.bodyBearing = true) :
    ∃ row : EventRecord, before.bodyEvents = db.bodyEvents ++ [row] ∧ row.id = extended.entries.length ∧
      row.bodySha256 = .text (BodySha256.forBody body).text := by
  obtain ⟨opening, e, hopening, hentries, rfl, hcontent, -⟩ := h.entries
  have hvalid : e.Valid world := h.represents.valid e (by rw [hentries]; simp)
  obtain ⟨hdigest, -, -⟩ := hvalid.body body hcontent
  have hevents := h.represents.chain.events
  rw [hentries, h.generation, render_append, List.map_append, List.map_singleton] at hevents
  refine ⟨(e.row key world log.generation ((log.entries ++ opening).length + 1)
    (chainHead key world log.generation (log.entries ++ opening))).record, ?_, ?_, ?_⟩
  · rw [Database.bodyEvents, hevents, List.filter_append, hopening.bodyRecords_eq, ← hrep.chain.events]
    simp [Database.bodyEvents, LogEntry.row, EventRow.record, hkind]
  · simp only [hentries, List.length_append, List.length_singleton, LogEntry.row, EventRow.record]
    push_cast
    ring
  · rw [← hdigest]
    rfl

/-- A write adds an event. -/
theorem Extends.length_lt (h : Extends key world kind body retained result log extended db before db') :
    log.entries.length < extended.entries.length := by
  obtain ⟨opening, last, -, hentries, -⟩ := h.entries
  simp only [hentries, List.length_append, List.length_singleton]
  omega

/-- The newest row id is the number of events. -/
theorem Database.HasChain.maxEventId_eq {generation : WorldGeneration} {entries : List LogEntry}
    (h : db.HasChain key world generation entries) : db.maxEventId = entries.length := by
  rcases List.eq_nil_or_concat' entries with rfl | ⟨init, last, rfl⟩
  · rw [Database.maxEventId, h.eventsDesc_eq, h.events]
    rfl
  · rw [Database.maxEventId, h.eventsDesc_eq, h.events_append, List.head?_reverse, List.getLast?_append]
    simp [Database.HasChain.lastRow, LogEntry.row, EventRow.record]

/-- The write prunes what the preflight counts, for floors that split the older events alike. -/
theorem Extends.prunable_eq (hrep : Represents key world log db)
    (h : Extends key world kind body retained result log extended db before db') (hkind : kind.bodyBearing = true)
    {floor guess : Int} (hfloor : floor ≤ extended.entries.length)
    (hsplit : ∀ e ∈ db.bodyEvents, e.id < floor ↔ e.id < guess) :
    before.prunable floor =
      (db.prunable guess).filter (·.bodySha256 ≠ .text (BodySha256.forBody body).text) := by
  obtain ⟨row, hevents, hid, hdigest⟩ := h.bodyEvents_eq hrep hkind
  have hbelow : before.digestsBelow floor = db.digestsBelow guess := by
    have hnew : ¬ row.id < floor := by omega
    have hold : ∀ e ∈ db.bodyEvents, decide (e.id < floor) = decide (e.id < guess) := fun e he =>
      decide_eq_decide.mpr (hsplit e he)
    rw [Database.digestsBelow, Database.digestsBelow, hevents, List.filter_append, List.filter_congr hold]
    simp [hnew]
  have hfrom : before.digestsFrom floor = db.digestsFrom guess ++ [.text (BodySha256.forBody body).text] := by
    have hnew : floor ≤ row.id := by omega
    have hold : ∀ e ∈ db.bodyEvents, decide (floor ≤ e.id) = decide (guess ≤ e.id) := fun e he => by
      rw [decide_eq_decide, ← not_lt, ← not_lt, hsplit e he]
    rw [Database.digestsFrom, Database.digestsFrom, hevents, List.filter_append, List.filter_congr hold]
    simp [hnew, hdigest]
  -- the row of the new body is not pruned
  have hrows : ∀ p : CasBodyRow → Bool, p (casRow body) = false →
      before.casBodies.filter p = db.casBodies.filter p := by
    intro p hp
    rw [h.bodies, retainedRows]
    split_ifs
    · rw [List.filter_append, List.filter_singleton, hp]
      exact List.append_nil _
    · rfl
  rw [Database.prunable, Database.prunable, List.filter_filter, hbelow, hfrom, hrows]
  · refine List.filter_congr fun row _ => ?_
    rw [sqlNotIn_concat, ← Bool.and_assoc, Bool.and_comm]
  · rw [sqlNotIn_concat]
    simp [casRow]

/-- The floor that a write moves to, and the one that the preflight estimates. -/
theorem Extends.floorForLimit_eq (hrep : Represents key world log db)
    (h : Extends key world kind body retained result log extended db before db') (hkind : kind.bodyBearing = true)
    (hcount : retained.count ≠ 1) (hmany : retained.count ≤ db.bodyEvents.length + 1) :
    before.floorForLimit retained.count = db.floorForLimit (retained.count - 1) := by
  obtain ⟨row, hevents, -, -⟩ := h.bodyEvents_eq hrep hkind
  have hpositive := retained.positive
  obtain ⟨n, hn⟩ : ∃ n, retained.count = n + 2 := ⟨retained.count - 2, by omega⟩
  rw [Database.floorForLimit, Database.floorForLimit, h.represents.chain.bodyEventsDesc_eq,
    hrep.chain.bodyEventsDesc_eq, hevents, List.reverse_append, List.reverse_singleton, List.singleton_append, hn,
    List.take_succ_cons, show n + 2 - 1 = n + 1 from rfl]
  have hne : db.bodyEvents.reverse.take (n + 1) ≠ [] := by
    intro hnil
    have hlength := congrArg List.length hnil
    rw [List.length_take, List.length_reverse, List.length_nil] at hlength
    omega
  rw [List.getLast?_cons, List.getLast?_eq_some_getLast hne]
  rfl

/-- The floor that the preflight reads. -/
theorem Represents.readFloorForEstimate_eq (h : Represents key world log db) :
    ∃ floor, readFloorForEstimate db = .ok floor ∧ floor.map TimelineSeq.get = log.floor.map Nat.cast := by
  have hrow : db.casStateRow = some ⟨1, log.floor.elim .null fun f => .integer f⟩ := by
    rw [Database.casStateRow, h.casState]
    rfl
  rw [readFloorForEstimate, hrow]
  cases hfloor : log.floor with
  | none => exact ⟨none, rfl, rfl⟩
  | some f =>
    have hpositive : 0 < (f : Int) := by exact_mod_cast h.floor_positive hfloor
    exact ⟨some ⟨f, hpositive⟩, TimelineSeq.newOption_get _ (some ⟨f, hpositive⟩), rfl⟩

/-- Nothing is retained before a floor is set. -/
theorem Represents.casBodies_eq_nil (h : Represents key world log db) (hfloor : log.floor = none) :
    db.casBodies = [] := by
  rw [List.eq_nil_iff_forall_not_mem]
  intro row hrow
  obtain ⟨stored, rfl, -⟩ := h.bodies.stored row hrow
  obtain ⟨e, he, -⟩ := (h.bodies.keys (.forBody stored)).mp ⟨_, hrow, rfl⟩
  rw [hfloor] at he
  cases he

/-- The preflight with an estimated floor counts what the write prunes, when the estimate and the new floor split the
older events and the old floor alike. -/
theorem Extends.prunableBodyLen_of_floor (hrep : Represents key world log db)
    (h : Extends key world kind body retained result log extended db before db') (hkind : kind.bodyBearing = true)
    {floor : Int} (hlimit : before.floorForLimit retained.count = some floor)
    (hfloor : floor ≤ extended.entries.length) {guess : TimelineSeq}
    (hguess : retainedFloorAfterNextBody retained db = .ok (some guess))
    (hsplit : ∀ e ∈ db.bodyEvents, e.id < floor ↔ e.id < guess.get)
    (hcompare : ∀ f ∈ log.floor, guess.get ≤ (f : Int) ↔ floor ≤ (f : Int)) :
    prunableBodyLenAfterNextBody body retained db = .ok result.prunedCas := by
  obtain ⟨current, hcurrent, hget⟩ := hrep.readFloorForEstimate_eq
  have hstate : before.casState = [⟨1, .integer (log.floor.getD extended.entries.length : Nat)⟩] := by
    rw [h.represents.casState, h.floor]
    rfl
  obtain ⟨-, hpruned⟩ := pruneToCount_inv hstate hlimit h.pruned
  simp only [prunableBodyLenAfterNextBody, hguess, hcurrent, ok_bind]
  cases hlog : log.floor with
  | none =>
    rw [hlog, Option.map_none, Option.map_eq_none_iff] at hget
    -- without a floor there is nothing to prune
    have hzero : result.prunedCas = 0 := by
      rcases hpruned with ⟨-, hzero, -⟩ | ⟨hlt, -⟩
      · exact hzero
      · rw [hlog, Option.getD_none] at hlt
        omega
    have hempty : db.prunable guess.get = [] := by
      rw [Database.prunable, hrep.casBodies_eq_nil hlog]
      rfl
    rw [hget, hempty, hzero]
    rfl
  | some f =>
    rw [hlog, Option.map_some, Option.map_eq_some_iff] at hget
    obtain ⟨seq, rfl, hseq⟩ := hget
    rw [hlog, Option.getD_some] at hpruned
    rw [Option.any_some]
    rcases hpruned with ⟨hle, hzero, -⟩ | ⟨hlt, -, bytes, hbytes, hsum⟩
    · have hbelow : guess.get ≤ seq.get := hseq ▸ (hcompare f hlog).mpr hle
      simp [hbelow, hzero, pure, Except.pure]
    · have habove : ¬ guess.get ≤ seq.get := fun hle => absurd ((hcompare f hlog).mp (hseq ▸ hle)) (not_le.mpr hlt)
      rw [Database.prunable, filter_contains_filter h.represents.bodies.nodup, ← Database.prunable,
        h.prunable_eq hrep hkind hfloor hsplit] at hsum
      rw [if_neg (by simpa using habove), hsum, ok_bind, hbytes]

/-- The preflight counts what the write prunes. -/
theorem Extends.prunableBodyLen_eq (hrep : Represents key world log db)
    (h : Extends key world kind body retained result log extended db before db') (hkind : kind.bodyBearing = true) :
    prunableBodyLenAfterNextBody body retained db = .ok result.prunedCas := by
  obtain ⟨row, hevents, hid, -⟩ := h.bodyEvents_eq hrep hkind
  by_cases hfew : db.bodyEvents.length + 1 < retained.count
  · -- all body events stay within the count
    have hwithin : before.bodyEvents.length ≤ retained.count := by
      rw [hevents, List.length_append, List.length_singleton]
      omega
    have hzero : (0, before) = (result.prunedCas, db') :=
      Except.ok.inj ((h.represents.pruneToCount_eq h.floor hwithin).symm.trans h.pruned)
    rw [← (Prod.mk.inj hzero).1, prunableBodyLenAfterNextBody, retainedFloorAfterNextBody, if_pos hfew]
    rfl
  · by_cases hone : retained.count = 1
    · -- only the new body is kept, and no older event has its id or a later one
      have hmax : db.maxEventId = log.entries.length := hrep.chain.maxEventId_eq
      have hpositive : 0 < db.maxEventId + 1 := by omega
      have hguess : retainedFloorAfterNextBody retained db = .ok (some ⟨db.maxEventId + 1, hpositive⟩) := by
        rw [retainedFloorAfterNextBody, if_neg hfew, if_pos hone]
        exact TimelineSeq.newOption_get _ (some ⟨_, hpositive⟩)
      have hlimit : before.floorForLimit retained.count = some (extended.entries.length : Int) := by
        rw [Database.floorForLimit, h.represents.chain.bodyEventsDesc_eq, hevents, hone]
        simp [hid]
      refine h.prunableBodyLen_of_floor hrep hkind hlimit le_rfl hguess (fun e he => ?_) fun f hf => ?_
      · obtain ⟨i, hi, -, hid, -⟩ := hrep.chain.mem_bodyEvents he
        have hlt := h.length_lt
        simp only
        omega
      · have hfits := hrep.floor
        rw [Option.mem_def.mp hf] at hfits
        obtain ⟨hpos, first, hat, -⟩ := hfits
        have hle := (List.getElem?_eq_some_iff.mp hat).1
        have hlt := h.length_lt
        simp only
        omega
    · -- the oldest body event that the new one leaves within the count
      have hcount := retained.positive
      have hlimit := h.floorForLimit_eq hrep hkind hone (by omega)
      obtain ⟨floor, hfloor⟩ : ∃ floor, db.floorForLimit (retained.count - 1) = some floor := by
        have hne : db.bodyEventsDesc.take (retained.count - 1) ≠ [] := by
          rw [hrep.chain.bodyEventsDesc_eq, ← List.length_pos_iff, List.length_take, List.length_reverse]
          omega
        rw [Database.floorForLimit, List.getLast?_eq_some_getLast hne]
        exact ⟨_, rfl⟩
      obtain ⟨e, he, rfl⟩ := Database.exists_bodyEvent_of_floorForLimit hfloor
      obtain ⟨i, hi, -, hposition, -⟩ := hrep.chain.mem_bodyEvents he
      have hpositive : 0 < e.id := by omega
      have hguess : retainedFloorAfterNextBody retained db = .ok (some ⟨e.id, hpositive⟩) := by
        rw [retainedFloorAfterNextBody, if_neg hfew, if_neg hone, hfloor]
        exact TimelineSeq.newOption_get _ (some ⟨_, hpositive⟩)
      have hlt := h.length_lt
      exact h.prunableBodyLen_of_floor hrep hkind (hlimit.trans hfloor) (by omega) hguess (fun _ _ => Iff.rfl)
        fun _ _ => Iff.rfl

/-- The bytes that a write adds to the retained bodies. -/
def WriteAuditResult.insertedBytes (result : WriteAuditResult) (body : Bytes) : Nat :=
  if result.casBodyInserted then body.length else 0

/-- The preflight counts what the write inserts. -/
theorem Extends.missingBodyLen_eq (h : Extends key world kind body retained result log extended db before db') :
    missingBodyLen db body = result.insertedBytes body := by
  rw [missingBodyLen, WriteAuditResult.insertedBytes, h.inserted]
  cases db.casBody (BodySha256.forBody body).text <;> rfl

/-- The live body of a stored history has a length that fits. -/
theorem Represents.liveBodyLength_eq (h : Represents key world log db) :
    liveBodyLength db = .ok (bodyAfter log.entries).length := by
  have hbound : (bodyAfter log.entries).length ≤ i64Max := by
    unfold bodyAfter
    cases hlast : (log.entries.filterMap LogEntry.content).getLast? with
    | none => simp
    | some body =>
      obtain ⟨e, he, hcontent⟩ := List.mem_filterMap.mp (List.mem_of_getLast? hlast)
      exact ((h.valid e he).body body hcontent).2.2
  have hmax : i64Max ≤ usizeMax := by decide
  simp only [liveBodyLength, h.stageMetaRow_eq, requireSome, SqlValue.blobLength, nonnegativeUsize, ok_bind]
  rw [if_pos (by simp; omega)]
  simp

/-- There is nothing to prune in a created database. -/
theorem prunableBodyLen_created (body : Bytes) (retained : RetainedBodyCount) (generation : WorldGeneration) :
    prunableBodyLenAfterNextBody body retained (createdDatabase generation) = .ok 0 := by
  have hpositive := retained.positive
  have hevents : (createdDatabase generation).bodyEvents.length = 0 := rfl
  by_cases hone : retained.count = 1
  · rw [prunableBodyLenAfterNextBody, retainedFloorAfterNextBody, hevents, if_neg (by omega), if_pos hone]
    rfl
  · rw [prunableBodyLenAfterNextBody, retainedFloorAfterNextBody, hevents, if_pos (by omega)]
    rfl

/-- When a write commits, the preflight on the database before it gave the bytes that it inserts and the bytes that it
prunes; for a replace this includes a missing database. -/
theorem quotaPreflight_exact :
    (∀ {older : List Database} {clock : TxClock} {verified : Bool} {opened : OpenedWorldKind} {contentType : String}
      {headers : Headers}, Committed key world (db :: older) →
        writeWithAudit key world clock verified opened body contentType headers retained db = .ok (result, db') →
        ∃ previous, replaceQuotaSnapshot body retained (some db) =
          .ok ⟨previous, result.insertedBytes body, result.prunedCas⟩) ∧
    (∀ {generation : WorldGeneration} {clock : TxClock} {verified : Bool} {opened : OpenedWorldKind}
      {contentType : String} {headers : Headers},
        writeWithAudit key world clock verified opened body contentType headers retained
          (createdDatabase generation) = .ok (result, db') →
        replaceQuotaSnapshot body retained none = .ok ⟨0, result.insertedBytes body, result.prunedCas⟩) ∧
    ∀ {older : List Database} {clock : TxClock} {verified : Bool} {contentType : String} {headers : Headers},
      Committed key world (db :: older) →
        appendWithAudit key world clock verified body contentType headers retained db = .ok (result, db') →
        ∃ current, liveBody db = .ok current ∧
          appendBodyLenIfMissing body db = .ok (result.insertedBytes (current ++ body)) ∧
          appendPrunableBodyLenAfterNextWrite body retained db = .ok result.prunedCas := by
  refine ⟨?_, ?_, ?_⟩
  · intro older clock verified opened contentType headers hdb hwrite
    obtain ⟨_, _, log, hstates, hrep, -⟩ := hdb.behind
    cases hstates
    obtain ⟨extended, before, hextends, -⟩ := writeWithAudit_extends hrep hwrite
    refine ⟨(bodyAfter log.entries).length, ?_⟩
    simp only [replaceQuotaSnapshot, hrep.liveBodyLength_eq, hextends.prunableBodyLen_eq hrep rfl,
      hextends.missingBodyLen_eq, ok_bind]
    rfl
  · intro generation clock verified opened contentType headers hwrite
    have hrep := represents_created key world generation
    obtain ⟨extended, before, hextends, -⟩ := writeWithAudit_extends hrep hwrite
    have hinserted : body.length = result.insertedBytes body := hextends.missingBodyLen_eq
    have hpruned := (prunableBodyLen_created body retained generation).symm.trans (hextends.prunableBodyLen_eq hrep rfl)
    rw [replaceQuotaSnapshot, ← hinserted, ← Except.ok.inj hpruned]
    rfl
  · intro older clock verified contentType headers hdb happend
    obtain ⟨_, _, log, hstates, hrep, -⟩ := hdb.behind
    cases hstates
    obtain ⟨extended, before, hextends, -⟩ := appendWithAudit_extends hrep happend
    refine ⟨bodyAfter log.entries, hrep.liveBody_eq, ?_, ?_⟩
    · simp only [appendBodyLenIfMissing, hrep.liveBody_eq, hextends.missingBodyLen_eq, ok_bind]
      rfl
    · simp only [appendPrunableBodyLenAfterNextWrite, hrep.liveBody_eq, hextends.prunableBodyLen_eq hrep rfl, ok_bind]

end

/-- The first replace of a created world inserts its body and prunes nothing, as its preflight says. -/
theorem quotaPreflight_exact_created :
    letI := sha2Suite
    ∃ result db', writeWithAudit Sample.key Sample.world ⟨Sample.time.text, Sample.time.text⟩ false .created [1, 2]
        "text/plain" [] .default (createdDatabase Sample.generation) = .ok (result, db') ∧
      replaceQuotaSnapshot [1, 2] .default none = .ok ⟨0, result.insertedBytes [1, 2], result.prunedCas⟩ := by
  let _ := sha2Suite
  have hrep := represents_created Sample.key Sample.world Sample.generation
  have hcan : CanCommit (WorldLog.created Sample.generation).entries 2 [1, 2] .default :=
    ⟨by decide, by decide, fun _ h => (by cases h), by decide⟩
  have hheaders : (([] : Headers).map Prod.fst).Nodup := List.nodup_nil
  obtain ⟨result, db', hwrite, -⟩ := writeWithAudit_ok hrep (.inl rfl) hcan hheaders false Sample.time Sample.time
    "text/plain"
  have hexact := @quotaPreflight_exact _ Sample.key Sample.world (createdDatabase Sample.generation) db' .default
    [1, 2] result
  exact ⟨result, db', hwrite, hexact.2.1 hwrite⟩

end AuditeDB
