import Mathlib
import AuditeDB.World.Progress

/-!
# The storage that a history takes

The retained bodies of a stored history are among the bodies of its retained events, so the sizes of those bound
what the database holds.
-/

namespace AuditeDB

open Results

section

variable [HashSuite] {key : AuditHmacKey} {world : ValidatedWorldPath} {log : WorldLog} {db : Database}

/-- The retained bytes are at most the sizes of the retained events. -/
theorem HasBodies.sum_length_le {casBodies : List CasBodyRow} {floor : Option Nat} {entries : List LogEntry}
    (h : HasBodies casBodies floor entries) :
    (casBodies.filterMap (·.body.blobLength)).sum ≤
      ((retainedEntries floor entries).map fun e => e.size.toNat).sum := by
  -- Rows and events as pairs of a digest and a size: the rows are distinct and all among the events.
  let rows := casBodies.map fun row => (row.bodySha256, row.body.blobLength.getD 0)
  let events := (retainedEntries floor entries).map fun e => (SqlValue.text e.bodySha256.text, e.size.toNat)
  have hnodup : rows.Nodup := by
    refine List.Nodup.of_map Prod.fst ?_
    rw [List.map_map]
    exact h.nodup
  have hsubset : rows ⊆ events := by
    intro pair hpair
    obtain ⟨row, hrow, rfl⟩ := List.mem_map.mp hpair
    obtain ⟨body, rfl, -, hsize⟩ := h.stored row hrow
    obtain ⟨e, he, hdigest⟩ := (h.keys (.forBody body)).mp ⟨_, hrow, rfl⟩
    refine List.mem_map.mpr ⟨e, he, ?_⟩
    simp [hdigest, hsize e he hdigest, casRow, SqlValue.blobLength]
  have hlengths : casBodies.filterMap (·.body.blobLength) = rows.map Prod.snd := by
    rw [List.map_map]
    refine List.filterMap_eq_map_iff_forall_eq_some.mpr fun row hrow => ?_
    obtain ⟨body, rfl, -⟩ := h.stored row hrow
    rfl
  have hsizes : ((retainedEntries floor entries).map fun e => e.size.toNat) = events.map Prod.snd := by
    rw [List.map_map]
    rfl
  obtain ⟨kept, hperm, hsublist⟩ := List.Nodup.subperm hnodup hsubset
  rw [hlengths, hsizes, ← (hperm.map Prod.snd).sum_eq]
  exact (hsublist.map Prod.snd).sum_le_sum fun _ _ => Nat.zero_le _

/-- The usage of a stored history whose bodies fit. -/
theorem Represents.storageUsage_eq (h : Represents key world log db)
    (hlive : (bodyAfter log.entries).length ≤ i64Max)
    (hbytes : (db.casBodies.filterMap (·.body.blobLength)).sum ≤ i64Max) :
    storageUsage db = .ok
      ⟨(bodyAfter log.entries).length, (db.casBodies.filterMap (·.body.blobLength)).sum, db.events.length⟩ := by
  have hcount : db.events.length ≤ i64Max := by
    rw [h.chain.events, List.length_map, render, length_renderFrom]
    exact h.chain.bounded
  have hmax : i64Max + i64Max ≤ usizeMax := by decide
  have hlength : liveBodyLength db = .ok (bodyAfter log.entries).length := by
    simp only [liveBodyLength, h.stageMetaRow_eq, requireSome, SqlValue.blobLength, nonnegativeUsize, ok_bind]
    rw [if_pos (by simp; omega)]
    simp
  simp only [storageUsage, hlength, sqlSum, if_pos hbytes, nonnegativeUsize, ok_bind, Int.toNat_natCast, rejectIf]
  rw [if_pos (by omega), if_pos (by omega), ok_bind, if_neg (by omega)]
  rfl

/-- The usage of a stored history can be computed when its bodies fit. -/
theorem Represents.exists_storageUsage (h : Represents key world log db)
    (hlive : (bodyAfter log.entries).length ≤ i64Max)
    (hretained : ((retainedEntries log.floor log.entries).map fun e => e.size.toNat).sum ≤ i64Max) :
    ∃ usage, storageUsage db = .ok usage :=
  ⟨_, h.storageUsage_eq hlive (h.bodies.sum_length_le.trans hretained)⟩

end

namespace Sample

/-- A short history of bodies of two bytes. -/
structure Small (n : Nat) (entries : List LogEntry) : Prop where
  few : entries.length ≤ 2 * n
  short : ∀ e ∈ entries, ∀ body ∈ e.content, body.length = 2

variable [HashSuite] {n : Nat} {log : WorldLog} {db : Database} {body : Bytes}

/-- A short history has the sizes of its bodies. -/
theorem Small.size_eq (hsmall : Small n log.entries) (hrep : Represents key world log db) {e : LogEntry}
    (he : e ∈ log.entries) (hbearing : e.kind.bodyBearing = true) : e.size = 2 := by
  have hvalid := hrep.valid e he
  obtain ⟨content, hcontent⟩ := Option.isSome_iff_exists.mp (hvalid.bearing.mp hbearing)
  obtain ⟨-, hsize, -⟩ := hvalid.body content hcontent
  rw [hsize, hsmall.short e he content hcontent]
  rfl

/-- A short history takes another body. -/
theorem Small.canCommit (hsmall : Small n log.entries) (hrep : Represents key world log db) (hn : n < 500)
    (hbody : body.length = 2) : CanCommit log.entries 2 body .default := by
  have hfew := hsmall.few
  have hfilter := List.length_filter_le (fun e => e.kind.bodyBearing) log.entries
  have hmax : 1002 ≤ i64Max := by decide
  refine ⟨by omega, by omega, fun e he _ hbearing => ?_, ?_⟩
  · rw [hsmall.size_eq hrep he hbearing, hbody]
    rfl
  · show _ ≤ 1024
    omega

/-- The usage of a short history can be computed. -/
theorem Small.exists_storageUsage (hsmall : Small n log.entries) (hrep : Represents key world log db) (hn : n < 500) :
    ∃ usage, storageUsage db = .ok usage := by
  have hfew := hsmall.few
  have hmax : 4000 ≤ i64Max := by decide
  refine hrep.exists_storageUsage ?_ ?_
  · unfold bodyAfter
    cases hlast : (log.entries.filterMap LogEntry.content).getLast? with
    | none => simp
    | some body =>
      obtain ⟨e, he, hcontent⟩ := List.mem_filterMap.mp (List.mem_of_getLast? hlast)
      rw [Option.getD_some, hsmall.short e he body hcontent]
      omega
  · have hsizes : ∀ size ∈ (retainedEntries log.floor log.entries).map fun e => e.size.toNat, size ≤ 2 := by
      intro size hsize
      obtain ⟨e, he, rfl⟩ := List.mem_map.mp hsize
      obtain ⟨f, -, i, hi, -, rfl, hbearing⟩ := mem_retainedEntries.mp he
      rw [hsmall.size_eq hrep (List.getElem_mem hi) hbearing]
      rfl
    have hlength : (retainedEntries log.floor log.entries).length ≤ log.entries.length := by
      cases log.floor with
      | none => exact Nat.zero_le _
      | some f => exact (List.length_filter_le _ _).trans (by simp)
    have hsum := List.sum_le_card_nsmul _ 2 hsizes
    rw [List.length_map, smul_eq_mul] at hsum
    omega

/-- A write extends a short history. -/
theorem Small.commits {log' : WorldLog} {kind : AuditEventKind} {result : WriteAuditResult}
    (hsmall : Small n log.entries) (hbody : body.length = 2)
    (hcommits : Commits key world kind body result log log') : Small (n + 1) log'.entries := by
  obtain ⟨opening, e, hopening, hentries, -, hcontent, -⟩ := hcommits.entries
  have hfew := hsmall.few
  rw [hentries]
  generalize result.formatEvent = formatEvent at hopening
  cases hopening with
  | existing =>
    refine ⟨by simp; omega, fun e' he' body' hbody' => ?_⟩
    rw [List.append_nil, List.mem_append, List.mem_singleton] at he'
    rcases he' with he' | rfl
    · exact hsmall.short e' he' body' hbody'
    · rw [hcontent] at hbody'
      rw [← Option.some.inj hbody', hbody]
  | format hkind hnone hrecords =>
    refine ⟨by simp; omega, fun e' he' body' hbody' => ?_⟩
    rw [List.mem_append, List.mem_append, List.mem_singleton, List.mem_singleton] at he'
    rcases he' with (he' | rfl) | rfl
    · exact hsmall.short e' he' body' hbody'
    · rw [hnone] at hbody'
      cases hbody'
    · rw [hcontent] at hbody'
      rw [← Option.some.inj hbody', hbody]

/-- A replace of a short history succeeds. -/
theorem Small.replace (hsmall : Small n log.entries) (hrep : Represents key world log db) (hn : n < 500)
    (verified : Bool) (opened : OpenedWorldKind) (hopen : Openable log opened) (hbody : body.length = 2) :
    ∃ result db' log', writeWithAudit key world ⟨time.text, time.text⟩ verified opened body "text/plain" []
        .default db = .ok (result, db') ∧
      Represents key world log' db' ∧ Small (n + 1) log'.entries ∧ Commits key world .put body result log log' ∧
      (result.formatEvent.isSome = true ↔ opened = .created ∨ log.entries = [] ∧ log.headers = []) := by
  obtain ⟨result, db', hwrite, hformat⟩ := writeWithAudit_ok hrep hopen (hsmall.canCommit hrep hn hbody)
    (show (([] : Headers).map Prod.fst).Nodup from .nil) verified time time "text/plain"
  obtain ⟨log', hrep', hcommits, -⟩ := writeWithAudit_spec hrep hwrite
  exact ⟨result, db', log', hwrite, hrep', hsmall.commits hbody hcommits, hcommits, hformat⟩

end Sample

end AuditeDB
