import Mathlib
import AuditeDB.World.Authenticity
import AuditeDB.World.TailGate

/-!
# Metadata of an accepted world

Verification compares the live body with the newest body event. The content type and the headers of the live
row are served as they are stored, so they are the signed ones exactly when the tables agree.
-/

namespace AuditeDB

open Utf8 Results HashChain

/-- The lowercase form of a stored name. -/
def lowercaseCell : SqlValue → SqlValue
  | .text name => .text (toAsciiLowercase name)
  | value => value

/-- The stored form of headers. -/
def headerValues (headers : Headers) : List (SqlValue × SqlValue) :=
  headers.map (Prod.map SqlValue.text SqlValue.text)

/-- The stored headers of an event with a name and a value. -/
def Database.storedHeaders (db : Database) (e : EventRecord) : List (SqlValue × SqlValue) :=
  ((db.eventHeaders.filter (·.eventId = .integer e.id)).map fun h => (h.name, h.value)).filter
    fun h => h.1 ≠ .null && h.2 ≠ .null

/-- The live metadata agrees with an event: the content types are equal, and the live headers with lowercase
names are those of the event in some order. -/
structure Database.MetadataAgrees (db : Database) (e : EventRecord) : Prop where
  contentType : ∃ row ∈ db.stageMetaRow, row.contentType = e.contentType
  headers : (db.metaHeaders.map fun h => (lowercaseCell h.name, h.value)).Perm (db.storedHeaders e)

/-- The headers of the audit statement are the stored headers in order. -/
theorem Database.namedHeaders_perm (db : Database) (e : EventRecord) :
    (db.namedHeaders e).Perm (db.storedHeaders e) := by
  have hsort : (db.namedHeaders e).Perm (Database.named (db.joinHeaders e)) :=
    ((List.perm_insertionSort _ _).map _).filter _
  refine hsort.trans (List.Perm.of_eq ?_)
  rw [Database.named, Database.storedHeaders, Database.joinHeaders]
  split
  · next hnil => simp [hnil]
  · rw [List.map_map]
    rfl

/-- Two sorted header lists with the same elements are equal. -/
theorem headers_eq_of_perm {a b : Headers} (ha : a.Pairwise fun x y => headerKey x ≤ headerKey y)
    (hb : b.Pairwise fun x y => headerKey x ≤ headerKey y) (h : a.Perm b) : a = b := by
  have hantisymm : ∀ x y : String × String, headerKey x ≤ headerKey y → headerKey y ≤ headerKey x → x = y := by
    intro x y hxy hyx
    have hkey := toLex.injective (le_antisymm hxy hyx)
    exact Prod.ext (utf8Bytes_injective (SqlValue.octets_injective (congrArg Prod.fst hkey)))
      (utf8Bytes_injective (SqlValue.octets_injective (congrArg Prod.snd hkey)))
  exact h.eq_of_pairwise (fun x y _ _ => hantisymm x y) ha hb

/-- The headers that a read returns, in the stored form. -/
theorem readMetaHeaders_values {db : Database} {headers : Headers} (h : readMetaHeaders db = .ok headers) :
    (headerValues (canonicalHeaders headers)).Perm
      (db.metaHeaders.map fun r => (lowercaseCell r.name, r.value)) := by
  have hread {rows : List MetaHeaderRow} {headers : Headers}
      (h : (rows.mapM fun row => do
        let name ← row.name.getString
        let value ← row.value.getString
        pure (name, value)) = (.ok headers : SqlResult Headers)) :
      rows.map (fun r => (lowercaseCell r.name, r.value)) =
        headerValues (headers.map fun h => (toAsciiLowercase h.1, h.2)) := by
    induction rows generalizing headers with
    | nil =>
      cases h
      rfl
    | cons row rest ih =>
      simp only [List.mapM_cons, bind_eq_ok, pure_eq_ok, SqlValue.getString_eq_ok] at h
      obtain ⟨_, ⟨name, hname, value, hvalue, rfl⟩, tail, htail, rfl⟩ := h
      rw [List.map_cons, ih htail, hname, hvalue]
      rfl
  have hsorted := hread h
  have hrows : (db.metaHeadersByName.map fun r => (lowercaseCell r.name, r.value)).Perm
      (db.metaHeaders.map fun r => (lowercaseCell r.name, r.value)) := (List.perm_insertionSort _ _).map _
  rw [hsorted] at hrows
  exact ((List.perm_insertionSort _ _).map _).trans hrows

/-- The headers of a decoded event are sorted. -/
theorem Database.decodeEvent_sorted {db : Database} {e : EventRecord} {event : EventRow × Headers}
    (h : db.decodeEvent e = .ok event) : event.2.Pairwise fun a b => headerKey a ≤ headerKey b := by
  have hnamed := Database.namedHeaders_of_decodeEvent h
  have hsorted : (db.namedHeaders e).Pairwise fun a b =>
      toLex (a.1.sortKey, a.2.sortKey) ≤ toLex (b.1.sortKey, b.2.sortKey) := by
    have htotal : Std.Total fun a b : JoinedRow => a.headerKey ≤ b.headerKey :=
      ⟨fun a b => le_total a.headerKey b.headerKey⟩
    have htrans : IsTrans JoinedRow fun a b => a.headerKey ≤ b.headerKey := ⟨fun _ _ _ => le_trans⟩
    have hrows : (db.sortedHeaders e).Pairwise fun a b => a.headerKey ≤ b.headerKey :=
      List.pairwise_insertionSort _ _
    exact List.Pairwise.filter _ (List.pairwise_map.mpr hrows)
  rw [hnamed, List.pairwise_map] at hsorted
  refine hsorted.imp fun {a b} hab => ?_
  rw [Prod.Lex.toLex_le_toLex] at hab
  rw [headerKey, headerKey, Prod.Lex.toLex_le_toLex]
  refine hab.imp SqlValue.sortKey_text_lt.mp ?_
  rintro ⟨hname, hvalue⟩
  refine ⟨?_, SqlValue.sortKey_text_le.mp hvalue⟩
  rw [show a.1 = b.1 from SqlValue.sortKey_text_inj hname]

/-- The walk can read every row that it collects from. -/
theorem groupRows_readable {rows : List JoinedRow} {current : Option (EventRow × Headers)}
    {chain : List (EventRow × Headers)} (h : groupRows rows current = .ok chain) :
    ∀ r ∈ rows, (∃ row, r.event.read = .ok row) ∧
      ∃ name value, r.name.getOptionString = .ok name ∧ r.value.getOptionString = .ok value := by
  induction rows generalizing current chain with
  | nil => exact fun _ h => (by cases h)
  | cons joined rows ih =>
    rw [groupRows] at h
    simp only [bind_eq_ok, pure_eq_ok] at h
    obtain ⟨row, hrow, name, hname, value, hvalue, rest, hrest, -⟩ := h
    exact List.forall_mem_cons.mpr ⟨⟨⟨row, hrow⟩, name, value, hname, hvalue⟩, ih hrest⟩

section

variable [HashSuite] {key : AuditHmacKey} {world : ValidatedWorldPath} {db : Database}

/-- Every row of an accepted table can be decoded. -/
theorem verifyWorldWithFileOp_decodes (h : verifyWorldWithFileOp key world db = .ok ()) :
    ∀ e ∈ db.events, ∃ event, db.decodeEvent e = .ok event := by
  intro e he
  obtain ⟨generation, chain, -, hchain, -⟩ := verifyWorldWithFileOp_chain h
  have hreadable := groupRows_readable hchain
  obtain ⟨r, hr⟩ := List.exists_mem_of_ne_nil _ (db.joinHeaders_ne_nil e)
  obtain ⟨row, hrow⟩ := (hreadable r (Database.mem_auditSelect.mpr ⟨e, he, hr⟩)).1
  rw [Database.event_of_mem_joinHeaders hr] at hrow
  have hheaders : ∀ r ∈ db.sortedHeaders e, ∃ name value,
      r.name.getOptionString = .ok name ∧ r.value.getOptionString = .ok value := fun r hr =>
    (hreadable r (Database.mem_auditSelect.mpr ⟨e, he, (List.mem_insertionSort _).mp hr⟩)).2
  obtain ⟨headers, hheaders⟩ := Database.exists_decodeHeaders.mpr hheaders
  exact ⟨(row, headers), Database.decodeEvent_eq_ok.mpr ⟨hrow, hheaders⟩⟩

/-- What a read serves is what an event signs: its content type, and its headers in canonical form. -/
def ServesSignedMetadata (db : Database) (stage : Stage) (e : EventRecord) : Prop :=
  ∃ event, db.decodeEvent e = .ok event ∧ stage.contentType = event.1.contentType ∧
    canonicalHeaders stage.headers = event.2

/-- In an accepted world the metadata that a read serves is that of the newest body event exactly when the
live metadata agrees with it. -/
theorem servesSignedMetadata_iff (haccept : verifyWorldWithFileOp key world db = .ok ()) {e : EventRecord}
    (hnewest : db.bodyEventsDesc.head? = some e) {stage : Stage} {hmac : Option String}
    (hread : readWithHmac key world db = .ok (stage, hmac)) :
    ServesSignedMetadata db stage e ↔ db.MetadataAgrees e := by
  have he : e ∈ db.events :=
    (List.mem_insertionSort _).mp (List.mem_of_mem_filter (List.mem_of_mem_head? hnewest))
  obtain ⟨event, hevent⟩ := verifyWorldWithFileOp_decodes haccept e he
  have hcolumns := EventRecord.read_eq_ok.mp (Database.decodeEvent_eq_ok.mp hevent).1
  unfold readWithHmac at hread
  simp only [bind_eq_ok, liftSql_eq_ok, requireSome_eq_ok, SqlValue.getString_eq_ok, pure_eq_ok,
    Prod.mk.injEq] at hread
  obtain ⟨_, _, row, hrow, body, _, contentType, htype, headers, hheaders, _, _, rfl, _⟩ := hread
  have hserved := readMetaHeaders_values hheaders
  have hsigned : (headerValues event.2).Perm (db.storedHeaders e) :=
    (List.Perm.of_eq (Database.namedHeaders_of_decodeEvent hevent).symm).trans (db.namedHeaders_perm e)
  have htypes : contentType = event.1.contentType ↔ row.contentType = e.contentType := by
    rw [htype, hcolumns]
    exact ⟨fun h => h ▸ rfl, SqlValue.text.inj⟩
  constructor
  · rintro ⟨event', hevent', hcontent, hcanonical⟩
    cases Except.ok.inj (hevent.symm.trans hevent')
    refine ⟨⟨row, hrow, htypes.mp hcontent⟩, hserved.symm.trans ?_⟩
    rw [hcanonical]
    exact hsigned
  · rintro ⟨⟨row', hrow', hcontent⟩, hperm⟩
    cases Option.some.inj (hrow.symm.trans hrow')
    refine ⟨event, hevent, htypes.mpr hcontent, ?_⟩
    have hvalues : (headerValues (canonicalHeaders headers)).Perm (headerValues event.2) :=
      hserved.trans (hperm.trans hsigned.symm)
    have htext : Function.Injective (Prod.map SqlValue.text SqlValue.text) :=
      Prod.map_injective.mpr ⟨fun _ _ => SqlValue.text.inj, fun _ _ => SqlValue.text.inj⟩
    exact headers_eq_of_perm (canonicalHeaders_sorted headers) (Database.decodeEvent_sorted hevent)
      ((List.map_perm_map_iff htext).mp hvalues)

/-- The database of one replace whose live content type was edited. -/
def Sample.relabelled : Database :=
  storedDatabase Sample.key Sample.world Sample.generation [Sample.put []] "text/html" []

/-- The edited database still passes for a stored history. -/
theorem Sample.represents_relabelled : Represents Sample.key Sample.world
    ⟨Sample.generation, [Sample.put []], "text/html", [], some 1⟩ Sample.relabelled :=
  represents_stored Sample.key Sample.generation (List.forall_mem_singleton.mpr (Sample.put_valid (by decide)))
    (show 1 ≤ i64Max by decide) (List.nil_append _).symm rfl "text/html" []

end

/-- The unedited database serves the metadata that its event signs. -/
theorem servesSignedMetadata_replaced :
    letI := sha2Suite
    verifyWorldWithFileOp Sample.key Sample.world Sample.replaced = .ok () ∧
      ∃ stage hmac, readWithHmac Sample.key Sample.world Sample.replaced = .ok (stage, hmac) ∧
        ServesSignedMetadata Sample.replaced stage Sample.replacedRow.record := by
  let _ := sha2Suite
  have haccept := Sample.represents_replaced.verifyWorldWithFileOp_eq (List.cons_ne_nil _ _)
  obtain ⟨headers, hread⟩ := Sample.represents_replaced.readWithHmac_eq (List.cons_ne_nil _ _)
  exact ⟨haccept, _, _, hread, (servesSignedMetadata_iff haccept rfl hread).mpr ⟨⟨_, rfl, rfl⟩, .nil⟩⟩

/-- An accepted world may serve a content type that no event signs. -/
theorem relabelled_serves_unsigned_contentType :
    letI := sha2Suite
    verifyWorldWithFileOp Sample.key Sample.world Sample.relabelled = .ok () ∧
      Sample.relabelled.bodyEventsDesc.head? = some Sample.replacedRow.record ∧
      ∃ stage hmac, readWithHmac Sample.key Sample.world Sample.relabelled = .ok (stage, hmac) ∧
        stage.contentType = "text/html" ∧ Sample.replacedRow.contentType = "text/plain" ∧
        ¬ ServesSignedMetadata Sample.relabelled stage Sample.replacedRow.record := by
  let _ := sha2Suite
  have haccept := Sample.represents_relabelled.verifyWorldWithFileOp_eq (List.cons_ne_nil _ _)
  obtain ⟨headers, hread⟩ := Sample.represents_relabelled.readWithHmac_eq (List.cons_ne_nil _ _)
  refine ⟨haccept, rfl, _, _, hread, rfl, rfl, ?_⟩
  rintro ⟨event, hevent, hcontent, -⟩
  have hrow : Sample.replacedRow = event.1 := Except.ok.inj (Database.decodeEvent_eq_ok.mp hevent).1
  rw [← hrow] at hcontent
  exact absurd hcontent (show ¬ "text/html" = "text/plain" by decide)

end AuditeDB
