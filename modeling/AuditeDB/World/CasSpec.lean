import Mathlib
import AuditeDB.World.Represents

/-!
# Retention steps on stored histories

What the retention steps of a write do to the database, and how they keep the retained bodies those of the
body events from the floor on.
-/

namespace AuditeDB

open Utf8 Results

section

variable [HashSuite]

/-- The rows of `cas_bodies` after a body was retained. -/
def retainedRows (db : Database) (body : Bytes) : List CasBodyRow :=
  if (db.casBody (BodySha256.forBody body).text).isNone then db.casBodies ++ [casRow body] else db.casBodies

/-- Retaining a body adds its row unless the digest is there, and checks the stored length. -/
theorem retainBody_spec {body : Bytes} {db db' : Database} {stored : RetainedCasBody}
    (h : retainBody body db = .ok (stored, db')) :
    db' = { db with casBodies := retainedRows db body } ∧
      stored = ⟨.forBody body, body.length, (db.casBody (BodySha256.forBody body).text).isNone⟩ ∧
      body.length ≤ i64Max ∧ ∀ row, db.casBody (BodySha256.forBody body).text = some row →
        row.body.blobLength = some body.length := by
  unfold retainBody at h
  simp only [bind_eq_ok, rejectIf_eq_ok, liftWrite, mapError_eq_ok, requireSome_eq_ok, pure_eq_ok,
    Prod.mk.injEq, not_not] at h
  obtain ⟨-, hlength, row, hrow, -, hstored, rfl, rfl⟩ := h
  unfold Database.insertCasBody retainedRows at *
  cases hfound : db.casBody (BodySha256.forBody body).text with
  | none => exact ⟨rfl, rfl, not_lt.mp hlength, fun _ h => by cases h⟩
  | some found =>
    simp only [hfound] at hrow
    cases hrow
    exact ⟨rfl, rfl, not_lt.mp hlength, fun _ h => Option.some.inj h ▸ hstored⟩

end

/-- The floor that a write reads. -/
theorem readFloorForWrite_eq_ok {db : Database} {floor : Option Nat}
    (hstate : db.casState = [⟨1, floor.elim .null fun f => .integer f⟩]) {seq : Option TimelineSeq}
    (h : readFloorForWrite db = .ok seq) : seq.map TimelineSeq.get = floor.map Nat.cast := by
  have hrow : db.casStateRow = some ⟨1, floor.elim .null fun f => .integer f⟩ := by
    rw [Database.casStateRow, hstate]
    rfl
  rw [readFloorForWrite, hrow] at h
  have hnew : TimelineSeq.newOption (WriteAuditError.storageInvariant "cas_state first_retained_seq invalid")
      (floor.map Nat.cast) = .ok seq := by
    cases floor <;> exact h
  exact TimelineSeq.newOption_eq_ok hnew

/-- Moving the floor writes it into the only row. -/
theorem setFloor_spec {seq : TimelineSeq} {db db' : Database} {value : SqlValue}
    (hstate : db.casState = [⟨1, value⟩]) (h : setFloor seq db = .ok db') :
    db' = { db with casState := [⟨1, .integer seq.get⟩] } := by
  unfold setFloor at h
  simp only [bind_eq_ok, pure_eq_ok] at h
  obtain ⟨-, -, rfl⟩ := h
  simp [Database.updateFloor, hstate]

/-- Retention starts at the first body event and keeps an existing floor. -/
theorem markRetentionStarted_spec {seq : TimelineSeq} {n : Nat} (hseq : seq.get = n) {db db' : Database}
    {floor : Option Nat} (hstate : db.casState = [⟨1, floor.elim .null fun f => .integer f⟩])
    (h : markRetentionStarted seq db = .ok db') :
    db' = { db with casState := [⟨1, .integer (floor.getD n : Nat)⟩] } := by
  unfold markRetentionStarted at h
  obtain ⟨read, hread, h⟩ := bind_eq_ok.mp h
  have hfloor := readFloorForWrite_eq_ok hstate hread
  cases read with
  | some current =>
    simp only [bind_eq_ok, pure_eq_ok] at h
    obtain ⟨-, -, -, -, rfl⟩ := h
    rw [Option.map_some, eq_comm, Option.map_eq_some_iff] at hfloor
    obtain ⟨f, rfl, -⟩ := hfloor
    rw [Option.elim_some] at hstate
    rw [Option.getD_some, ← hstate]
  | none =>
    simp only [bind_eq_ok] at h
    obtain ⟨-, -, -, -, h⟩ := h
    obtain rfl : floor = none := by simpa using hfloor.symm
    rw [setFloor_spec hstate h, hseq]
    rfl

/-- The new floor of a count is the id of a body event. -/
theorem Database.exists_bodyEvent_of_floorForLimit {db : Database} {limit : Nat} {id : Int}
    (h : db.floorForLimit limit = some id) : ∃ e ∈ db.bodyEvents, e.id = id := by
  unfold Database.floorForLimit at h
  obtain ⟨e, he, rfl⟩ := Option.map_eq_some_iff.mp h
  have hmem := List.mem_of_mem_take (List.mem_of_getLast? he)
  rw [Database.bodyEventsDesc, List.mem_filter, Database.eventsDesc, List.mem_insertionSort] at hmem
  exact ⟨e, List.mem_filter.mpr hmem, rfl⟩

/-- A sum of lengths is not negative, so its conversion keeps it. -/
theorem nonnegativeUsize_of_sumBodyLength {rows : List CasBodyRow} {bytes : Int} {n : Nat}
    (hbytes : sumBodyLength rows = .ok bytes) (hn : nonnegativeUsize bytes = .ok n) : bytes = n := by
  unfold sumBodyLength sqlSum at hbytes
  unfold nonnegativeUsize at hn
  split_ifs at hbytes hn
  cases hbytes
  cases hn
  exact (Int.toNat_of_nonneg (Int.natCast_nonneg _)).symm

/-- Pruning does nothing, or moves the floor up to a body event and deletes the rows below it. -/
theorem pruneToCount_spec {retained : RetainedBodyCount} {db db' : Database} {f pruned : Nat}
    (hstate : db.casState = [⟨1, .integer f⟩]) (h : pruneToCount retained db = .ok (pruned, db')) :
    (pruned = 0 ∧ db' = db) ∨ ∃ e ∈ db.bodyEvents, (f : Int) < e.id ∧
      db' = { db with
        casBodies := db.casBodies.filter fun row =>
          !((db.prunable e.id).map CasBodyRow.bodySha256).contains row.bodySha256
        casState := [⟨1, .integer e.id⟩] } ∧
      sumBodyLength (db.casBodies.filter fun row =>
        ((db.prunable e.id).map CasBodyRow.bodySha256).contains row.bodySha256) = .ok (pruned : Int) := by
  unfold pruneToCount at h
  obtain ⟨floor, hfloor, h⟩ := bind_eq_ok.mp h
  have hget := TimelineSeq.newOption_eq_ok hfloor
  cases floor with
  | none =>
    cases h
    exact .inl ⟨rfl, rfl⟩
  | some newFloor =>
    obtain ⟨current, hcurrent, h⟩ := bind_eq_ok.mp h
    have hread : current.map TimelineSeq.get = (some f).map Nat.cast := readFloorForWrite_eq_ok hstate hcurrent
    obtain ⟨seq, rfl, hseq⟩ := Option.map_eq_some_iff.mp hread
    split_ifs at h with hbelow
    · cases h
      exact .inl ⟨rfl, rfl⟩
    · simp only [bind_eq_ok, pure_eq_ok, liftWrite, mapError_eq_ok, Prod.mk.injEq] at h
      obtain ⟨bytes, hbytes, -, -, moved, hmoved, n, hn, rfl, rfl⟩ := h
      obtain ⟨e, he, hid⟩ := Database.exists_bodyEvent_of_floorForLimit hget.symm
      have hdeleted : (db.deleteCasBodies ((db.prunable newFloor.get).map CasBodyRow.bodySha256)).casState =
          [⟨1, .integer f⟩] := hstate
      have hlt : (f : Int) < newFloor.get := by
        rw [Option.any_some, decide_eq_true_eq, hseq] at hbelow
        exact not_le.mp hbelow
      refine .inr ⟨e, he, hid ▸ hlt, ?_, ?_⟩
      · rw [setFloor_spec hdeleted hmoved, hid]
        rfl
      · rw [hid, hbytes, nonnegativeUsize_of_sumBodyLength hbytes hn]

section

variable [HashSuite] {db : Database} {key : AuditHmacKey} {world : ValidatedWorldPath}
  {generation : WorldGeneration} {entries : List LogEntry}

/-- The body events of a stored history by their positions. -/
theorem Database.HasChain.mem_bodyEvents (h : db.HasChain key world generation entries) {e : EventRecord} :
    e ∈ db.bodyEvents → ∃ i, ∃ hi : i < entries.length, entries[i].kind.bodyBearing = true ∧
      e.id = i + 1 ∧ e.bodySha256 = .text entries[i].bodySha256.text := by
  rw [Database.bodyEvents, List.mem_filter, h.events]
  rintro ⟨he, hbearing⟩
  obtain ⟨event, hevent, rfl⟩ := List.mem_map.mp he
  obtain ⟨i, hi, prev, rfl⟩ := mem_render hevent
  exact ⟨i, hi, by simpa [LogEntry.row, EventRow.record] using hbearing, rfl, rfl⟩

/-- Every body event of a history is stored. -/
theorem Database.HasChain.exists_bodyEvent (h : db.HasChain key world generation entries) {i : Nat}
    (hi : i < entries.length) (hbearing : entries[i].kind.bodyBearing = true) :
    ∃ e ∈ db.bodyEvents, e.id = i + 1 ∧ e.bodySha256 = .text entries[i].bodySha256.text := by
  obtain ⟨prev, hrow⟩ : ∃ prev, (render key world generation entries)[i]? =
      some (entries[i].row key world generation (i + 1) prev, entries[i].headers) := render_get entries hi
  refine ⟨(entries[i].row key world generation (i + 1) prev).record, ?_, rfl, rfl⟩
  rw [Database.bodyEvents, List.mem_filter, h.events]
  refine ⟨List.mem_map.mpr ⟨_, List.mem_of_getElem? hrow, rfl⟩, ?_⟩
  simpa [LogEntry.row, EventRow.record] using hbearing

omit [HashSuite] in
/-- A new body event is retained, and retention starts with it when there was no floor. -/
theorem retainedEntries_append {floor : Option Nat} (hfits : FloorFits floor entries) {e : LogEntry}
    (hbearing : e.kind.bodyBearing = true) :
    retainedEntries (some (floor.getD (entries.length + 1))) (entries ++ [e]) =
      retainedEntries floor entries ++ [e] := by
  cases floor with
  | none => simp [retainedEntries, hbearing]
  | some f =>
    obtain ⟨-, first, hat, -⟩ := hfits
    have hle : f - 1 ≤ entries.length := (List.getElem?_eq_some_iff.mp hat).1.le
    simp [retainedEntries, List.drop_append_of_le_length hle, List.filter_append, hbearing]

omit [HashSuite] in
/-- The floor fits after a new body event. -/
theorem floorFits_append {floor : Option Nat} (hfits : FloorFits floor entries) {e : LogEntry}
    (hbearing : e.kind.bodyBearing = true) :
    FloorFits (some (floor.getD (entries.length + 1))) (entries ++ [e]) := by
  cases floor with
  | none => exact ⟨by simp, e, by simp, hbearing⟩
  | some f =>
    obtain ⟨hpositive, first, hat, hfirst⟩ := hfits
    have hlt := (List.getElem?_eq_some_iff.mp hat).1
    exact ⟨hpositive, first, by rw [Option.getD_some, List.getElem?_append_left hlt, hat], hfirst⟩

/-- Retaining the body of a new event keeps the retained bodies those of the retained events. -/
theorem HasBodies.retain {floor : Option Nat} (h : HasBodies db.casBodies floor entries)
    (hfits : FloorFits floor entries) {body : Bytes} (hlength : body.length ≤ i64Max) {e : LogEntry}
    (hbearing : e.kind.bodyBearing = true) (hdigest : e.bodySha256 = .forBody body)
    (hsize : e.size = body.length)
    (hstored : ∀ row, db.casBody (BodySha256.forBody body).text = some row →
      row.body.blobLength = some body.length) :
    HasBodies (retainedRows db body) (some (floor.getD (entries.length + 1))) (entries ++ [e]) := by
  unfold retainedRows
  cases hfound : db.casBody (BodySha256.forBody body).text with
  | none =>
    -- no stored row and no retained event has the digest
    have hfresh : ∀ row ∈ db.casBodies, row.bodySha256 ≠ .text (BodySha256.forBody body).text := by
      intro row hrow hkey
      exact List.find?_eq_none.mp hfound row hrow (decide_eq_true hkey)
    have hunused : ∀ e' ∈ retainedEntries floor entries, e'.bodySha256 ≠ .forBody body := by
      intro e' he' hsame
      obtain ⟨row, hrow, hkey⟩ := (h.keys _).mpr ⟨e', he', hsame⟩
      exact hfresh row hrow hkey
    rw [Option.isNone_none, if_pos rfl]
    refine ⟨?_, ?_, ?_⟩
    · rw [List.map_append, List.nodup_append]
      refine ⟨h.nodup, by simp, ?_⟩
      rintro _ hold _ hnew rfl
      obtain ⟨row, hrow, hkey⟩ := List.mem_map.mp hold
      exact hfresh row hrow (hkey.trans (by simpa [casRow] using hnew))
    · rw [retainedEntries_append hfits hbearing]
      intro row hrow
      rcases List.mem_append.mp hrow with hrow | hrow
      · obtain ⟨body', rfl, hlength', hsizes⟩ := h.stored row hrow
        refine ⟨body', rfl, hlength', fun e' he' hsame => ?_⟩
        rcases List.mem_append.mp he' with he' | he'
        · exact hsizes e' he' hsame
        · rw [List.mem_singleton.mp he', hdigest] at hsame
          exact absurd (congrArg (fun d : BodySha256 => SqlValue.text d.text) hsame.symm)
            (hfresh (casRow body') hrow)
      · refine ⟨body, List.mem_singleton.mp hrow, hlength, fun e' he' hsame => ?_⟩
        rcases List.mem_append.mp he' with he' | he'
        · exact absurd hsame (hunused e' he')
        · rw [List.mem_singleton.mp he', hsize]
    · intro digest
      rw [retainedEntries_append hfits hbearing]
      simp only [List.mem_append, List.mem_singleton, or_and_right, exists_or, exists_eq_left, h.keys digest,
        hdigest]
      simp [casRow, BodySha256.ext_iff]
  | some found =>
    rw [Option.isNone_some, if_neg (by simp)]
    have hmem := List.mem_of_find?_eq_some hfound
    have hkey := List.find?_some hfound
    refine ⟨h.nodup, ?_, ?_⟩
    · rw [retainedEntries_append hfits hbearing]
      intro row hrow
      obtain ⟨body', rfl, hlength', hsizes⟩ := h.stored row hrow
      refine ⟨body', rfl, hlength', fun e' he' hsame => ?_⟩
      rcases List.mem_append.mp he' with he' | he'
      · exact hsizes e' he' hsame
      · -- the row is the one that was found, and its length was checked
        rw [List.mem_singleton.mp he', hdigest] at hsame
        have hrows : found = casRow body' := by
          refine List.inj_on_of_nodup_map h.nodup hmem hrow ((of_decide_eq_true hkey).trans ?_)
          rw [hsame]
          rfl
        have hblob := hstored found hfound
        rw [hrows, casRow, SqlValue.blobLength, Option.some.injEq] at hblob
        rw [List.mem_singleton.mp he', hsize, hblob]
    · intro digest
      rw [retainedEntries_append hfits hbearing]
      simp only [List.mem_append, List.mem_singleton, or_and_right, exists_or, exists_eq_left, h.keys digest]
      refine ⟨.inl, fun hor => hor.elim id fun hsame => (h.keys digest).mp ⟨found, hmem, ?_⟩⟩
      rw [of_decide_eq_true hkey, ← hsame, hdigest]

/-- The digests below a floor are those of the body events before it. -/
theorem Database.HasChain.mem_digestsBelow (h : db.HasChain key world generation entries) {digest : BodySha256}
    {g : Nat} : SqlValue.text digest.text ∈ db.digestsBelow g ↔ ∃ i, ∃ hi : i < entries.length,
      entries[i].kind.bodyBearing = true ∧ i + 1 < g ∧ entries[i].bodySha256 = digest := by
  unfold Database.digestsBelow
  simp only [List.mem_map, List.mem_filter, decide_eq_true_eq]
  constructor
  · rintro ⟨e, ⟨he, hid⟩, hdigest⟩
    obtain ⟨i, hi, hbearing, hi1, hd⟩ := h.mem_bodyEvents he
    exact ⟨i, hi, hbearing, by omega, BodySha256.ext (SqlValue.text.inj (hd.symm.trans hdigest))⟩
  · rintro ⟨i, hi, hbearing, hlt, rfl⟩
    obtain ⟨e, he, hid, hd⟩ := h.exists_bodyEvent hi hbearing
    exact ⟨e, ⟨he, by omega⟩, hd⟩

/-- The digests from a floor on are those of the retained events. -/
theorem Database.HasChain.mem_digestsFrom (h : db.HasChain key world generation entries) {digest : BodySha256}
    {g : Nat} : SqlValue.text digest.text ∈ db.digestsFrom g ↔
      ∃ e ∈ retainedEntries (some g) entries, e.bodySha256 = digest := by
  unfold Database.digestsFrom
  simp only [List.mem_map, List.mem_filter, decide_eq_true_eq, mem_retainedEntries, Option.mem_def,
    Option.some.injEq, exists_eq_left']
  constructor
  · rintro ⟨e, ⟨he, hid⟩, hdigest⟩
    obtain ⟨i, hi, hbearing, hi1, hd⟩ := h.mem_bodyEvents he
    exact ⟨entries[i], ⟨i, hi, by omega, rfl, hbearing⟩,
      BodySha256.ext (SqlValue.text.inj (hd.symm.trans hdigest))⟩
  · rintro ⟨_, ⟨i, hi, hle, rfl, hbearing⟩, rfl⟩
    obtain ⟨e, he, hid, hd⟩ := h.exists_bodyEvent hi hbearing
    exact ⟨e, ⟨he, by omega⟩, hd⟩

/-- The digests of body events are texts. -/
theorem Database.HasChain.digest_of_mem (h : db.HasChain key world generation entries) {value : SqlValue} {g : Int}
    (hvalue : value ∈ db.digestsFrom g) : ∃ digest : BodySha256, value = .text digest.text := by
  obtain ⟨e, he, rfl⟩ := List.mem_map.mp hvalue
  obtain ⟨i, hi, -, -, hdigest⟩ := h.mem_bodyEvents (List.mem_filter.mp he).1
  exact ⟨_, hdigest⟩

/-- A row is prunable exactly when only events below the floor have its digest. -/
theorem Database.HasChain.prunable_iff (h : db.HasChain key world generation entries) {digest : BodySha256}
    {row : CasBodyRow} (hrow : row ∈ db.casBodies) (hkey : row.bodySha256 = .text digest.text) {g : Nat} :
    row ∈ db.prunable g ↔
      (∃ i, ∃ hi : i < entries.length, entries[i].kind.bodyBearing = true ∧ i + 1 < g ∧
        entries[i].bodySha256 = digest) ∧ ∀ e ∈ retainedEntries (some g) entries, e.bodySha256 ≠ digest := by
  have hnull : SqlValue.null ∉ db.digestsFrom g := by
    intro hmem
    obtain ⟨digest, hnull⟩ := h.digest_of_mem hmem
    cases hnull
  rw [Database.prunable, List.mem_filter]
  simp only [hrow, true_and, hkey, sqlNotIn, Bool.and_eq_true, List.contains_iff_mem, Bool.not_eq_true',
    ← Bool.not_eq_true, h.mem_digestsBelow, h.mem_digestsFrom, hnull, not_false_eq_true, and_true, not_exists,
    not_and, ne_eq]

/-- Pruning to a higher floor keeps the retained bodies those of the retained events. -/
theorem HasBodies.prune (hchain : db.HasChain key world generation entries) {f g : Nat} (hlt : f < g)
    (h : HasBodies db.casBodies (some f) entries) :
    HasBodies (db.casBodies.filter fun row =>
      !((db.prunable g).map CasBodyRow.bodySha256).contains row.bodySha256) (some g) entries := by
  have hsubset : ∀ e ∈ retainedEntries (some g) entries, e ∈ retainedEntries (some f) entries := by
    intro e he
    obtain ⟨_, ⟨⟩, i, hi, hle, rfl, hbearing⟩ := mem_retainedEntries.mp he
    exact mem_retainedEntries.mpr ⟨f, rfl, i, hi, by omega, rfl, hbearing⟩
  have hcandidate : ∀ row ∈ db.casBodies, row.bodySha256 ∈ (db.prunable g).map CasBodyRow.bodySha256 ↔
      row ∈ db.prunable g := by
    intro row hrow
    refine ⟨fun hmem => ?_, fun hmem => List.mem_map_of_mem hmem⟩
    obtain ⟨other, hother, hkey⟩ := List.mem_map.mp hmem
    rwa [List.inj_on_of_nodup_map h.nodup hrow (List.mem_filter.mp hother).1 hkey.symm]
  refine ⟨h.nodup.sublist (List.filter_sublist.map _), ?_, ?_⟩
  · intro row hrow
    obtain ⟨body, hbody, hlength, hsizes⟩ := h.stored row (List.mem_filter.mp hrow).1
    exact ⟨body, hbody, hlength, fun e he => hsizes e (hsubset e he)⟩
  · intro digest
    simp only [List.mem_filter, Bool.not_eq_true', ← Bool.not_eq_true, List.contains_iff_mem]
    constructor
    · rintro ⟨row, ⟨hrow, hkept⟩, hkey⟩
      rw [hcandidate row hrow, hchain.prunable_iff hrow hkey, not_and] at hkept
      by_contra hnone
      -- the digest belongs to a retained event, which can only be one below the new floor
      obtain ⟨e, he, hdigest⟩ := (h.keys digest).mp ⟨row, hrow, hkey⟩
      obtain ⟨_, ⟨⟩, i, hi, -, rfl, hbearing⟩ := mem_retainedEntries.mp he
      have hunused : ∀ e' ∈ retainedEntries (some g) entries, e'.bodySha256 ≠ digest :=
        fun e' he' hsame => hnone ⟨e', he', hsame⟩
      refine hkept ⟨i, hi, hbearing, ?_, hdigest⟩ hunused
      by_contra hge
      exact hunused _ (mem_retainedEntries.mpr ⟨g, rfl, i, hi, by omega, rfl, hbearing⟩) hdigest
    · rintro ⟨e, he, hdigest⟩
      obtain ⟨row, hrow, hkey⟩ := (h.keys digest).mpr ⟨e, hsubset e he, hdigest⟩
      refine ⟨row, ⟨hrow, ?_⟩, hkey⟩
      rw [hcandidate row hrow, hchain.prunable_iff hrow hkey]
      exact fun hpruned => hpruned.2 e he hdigest

end

end AuditeDB
