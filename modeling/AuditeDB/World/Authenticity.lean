import Mathlib
import AuditeDB.Audit.Grouping
import AuditeDB.World.Intact

/-!
# Which rows an accepted world authenticates

The full verification accepts a table as soon as the rows that the walk checks are signed. A row that repeats
the id of another one is not checked, so every row is authentic exactly when repeated rows are copies.
-/

namespace AuditeDB

open Utf8 Results HashChain Sorting

namespace Database

variable {db : Database}

/-- The order of the audit statement. -/
def auditOrder (a b : JoinedRow) : Prop := toLex (a.event.id, a.headerKey) ≤ toLex (b.event.id, b.headerKey)

instance : DecidableRel auditOrder := fun _ _ => inferInstanceAs (Decidable (_ ≤ _))

instance : IsTrans JoinedRow auditOrder := ⟨fun _ _ _ => le_trans⟩

instance : Std.Total auditOrder := ⟨fun a _ => le_total (toLex (a.event.id, a.headerKey)) _⟩

/-- The rows of the audit statement have ascending ids. -/
theorem auditSelect_sorted (db : Database) : db.auditSelect.Pairwise fun a b => a.event.id ≤ b.event.id := by
  have hsorted : db.auditSelect.Pairwise auditOrder := List.pairwise_insertionSort auditOrder _
  exact hsorted.imp fun {a b} h => (Prod.Lex.toLex_le_toLex.mp h).elim le_of_lt fun h => h.1.le

/-- The rows of the audit statement are the joined rows of the events. -/
theorem mem_auditSelect {r : JoinedRow} : r ∈ db.auditSelect ↔ ∃ e ∈ db.events, r ∈ db.joinHeaders e := by
  simp only [auditSelect, eventsAsc, List.mem_insertionSort, List.mem_flatMap]

/-- The rows of one id in the audit statement. -/
theorem filter_auditSelect (db : Database) (id : Int) :
    db.auditSelect.filter (·.event.id = id) =
      ((db.eventsAsc.filter (·.id = id)).flatMap db.joinHeaders).insertionSort fun a b =>
        a.headerKey ≤ b.headerKey := by
  have hjoin (events : List EventRecord) : (events.flatMap db.joinHeaders).filter (·.event.id = id) =
      (events.filter (·.id = id)).flatMap db.joinHeaders := by
    induction events with
    | nil => rfl
    | cons e rest ih =>
      rw [List.flatMap_cons, List.filter_append, ih, List.filter_cons]
      split_ifs with he
      · rw [List.flatMap_cons, List.filter_eq_self.mpr]
        intro r hr
        rw [event_of_mem_joinHeaders hr]
        exact he
      · rw [List.filter_eq_nil_iff.mpr, List.nil_append]
        intro r hr
        rw [event_of_mem_joinHeaders hr]
        exact he
  have hfilter : db.auditSelect.filter (·.event.id = id) =
      ((db.eventsAsc.flatMap db.joinHeaders).filter (·.event.id = id)).insertionSort auditOrder :=
    filter_insertionSort _ _
  rw [hfilter, hjoin]
  refine insertionSort_congr fun a ha b hb => ?_
  have hid {r : JoinedRow} (hr : r ∈ (db.eventsAsc.filter (·.id = id)).flatMap db.joinHeaders) :
      r.event.id = id := by
    obtain ⟨e, he, hr⟩ := List.mem_flatMap.mp hr
    rw [event_of_mem_joinHeaders hr]
    simpa using (List.mem_filter.mp he).2
  rw [auditOrder, Prod.Lex.toLex_le_toLex, hid ha, hid hb]
  simp

/-- The headers with a name and a value among joined rows. -/
def named (rows : List JoinedRow) : List (SqlValue × SqlValue) :=
  (rows.map fun row => (row.name, row.value)).filter fun h => h.1 ≠ .null && h.2 ≠ .null

/-- Rows in another order have as many headers. -/
theorem length_named_of_perm {rows rows' : List JoinedRow} (h : rows.Perm rows') :
    (named rows).length = (named rows').length :=
  ((h.map _).filter _).length_eq

/-- The join repeats the headers of an id for every row of it. -/
theorem length_named_flatMap (db : Database) (e : EventRecord) {events : List EventRecord}
    (h : ∀ e' ∈ events, e'.id = e.id) :
    (named (events.flatMap db.joinHeaders)).length = events.length * (db.namedHeaders e).length := by
  have hsame {e' : EventRecord} (hid : e'.id = e.id) :
      (named (db.joinHeaders e')).length = (db.namedHeaders e).length := by
    have hrows : (db.joinHeaders e').map (fun row => (row.name, row.value)) =
        (db.joinHeaders e).map fun row => (row.name, row.value) := by
      rw [joinHeaders, joinHeaders, hid]
      split <;> simp
    rw [named, hrows]
    exact (length_named_of_perm (List.perm_insertionSort _ _)).symm
  induction events with
  | nil => simp [named]
  | cons first rest ih =>
    obtain ⟨hfirst, hrest⟩ := List.forall_mem_cons.mp h
    have hsplit : named ((first :: rest).flatMap db.joinHeaders) =
        named (db.joinHeaders first) ++ named (rest.flatMap db.joinHeaders) := by
      simp [named]
    rw [hsplit, List.length_append, hsame hfirst, ih hrest, List.length_cons]
    ring

/-- Headers can be collected exactly when every row is readable. -/
theorem exists_decodeHeaders {headers : Headers} {rows : List JoinedRow} :
    (∃ decoded, decodeHeaders headers rows = .ok decoded) ↔
      ∀ r ∈ rows, ∃ name value, r.name.getOptionString = .ok name ∧ r.value.getOptionString = .ok value := by
  induction rows generalizing headers with
  | nil => simp [decodeHeaders, pure, Except.pure]
  | cons row rest ih =>
    rw [List.forall_mem_cons]
    constructor
    · rintro ⟨decoded, h⟩
      have hfirst := h
      rw [decodeHeaders, List.foldlM_cons] at hfirst
      simp only [bind_eq_ok, pure_eq_ok] at hfirst
      obtain ⟨_, ⟨name, hname, value, hvalue, rfl⟩, -⟩ := hfirst
      exact ⟨⟨name, value, hname, hvalue⟩, ih.mp ⟨decoded, (decodeHeaders_cons hname hvalue).mp h⟩⟩
    · rintro ⟨⟨name, value, hname, hvalue⟩, hrest⟩
      obtain ⟨decoded, h⟩ := ih.mpr hrest
      exact ⟨decoded, (decodeHeaders_cons hname hvalue).mpr h⟩

/-- The rows of an id in order are as many as in the table. -/
theorem length_filter_eventsAsc (db : Database) (id : Int) :
    (db.eventsAsc.filter (·.id = id)).length = (db.events.filter (·.id = id)).length :=
  ((List.perm_insertionSort _ _).filter _).length_eq

/-- The audit statement lists the headers of an id once for every row of it. -/
theorem length_named_auditSelect (db : Database) (e : EventRecord) :
    (named (db.auditSelect.filter (·.event.id = e.id))).length =
      (db.events.filter (·.id = e.id)).length * (db.namedHeaders e).length := by
  rw [filter_auditSelect, length_named_of_perm (List.perm_insertionSort _ _),
    length_named_flatMap db e fun e' he' => of_decide_eq_true (List.mem_filter.mp he').2,
    length_filter_eventsAsc]

/-- Rows that share an id are copies of each other, and a repeated id has no headers. -/
structure RepeatsAreCopies (db : Database) : Prop where
  rows : ∀ e₁ ∈ db.events, ∀ e₂ ∈ db.events, e₁.id = e₂.id → e₁ = e₂
  headers : ∀ e ∈ db.events, 1 < (db.events.filter (·.id = e.id)).length → db.namedHeaders e = []

/-- The walk collects the headers of a row exactly when the row is not repeated or has none. -/
theorem RepeatsAreCopies.decodeHeaders_eq (h : db.RepeatsAreCopies) {e : EventRecord} (he : e ∈ db.events)
    {headers : Headers} (hheaders : decodeHeaders [] (db.auditSelect.filter (·.event.id = e.id)) = .ok headers) :
    decodeHeaders [] (db.sortedHeaders e) = .ok headers := by
  have hmem : ∀ e' ∈ db.eventsAsc.filter (·.id = e.id), e' = e := by
    intro e' he'
    obtain ⟨he', hid⟩ := List.mem_filter.mp he'
    exact h.rows e' ((List.mem_insertionSort _).mp he') e he (of_decide_eq_true hid)
  have hrows : db.eventsAsc.filter (·.id = e.id) =
      List.replicate (db.eventsAsc.filter (·.id = e.id)).length e := List.eq_replicate_iff.mpr ⟨rfl, hmem⟩
  have hpos : e ∈ db.eventsAsc.filter (·.id = e.id) :=
    List.mem_filter.mpr ⟨(List.mem_insertionSort _).mpr he, by simp⟩
  by_cases hone : (db.eventsAsc.filter (·.id = e.id)).length = 1
  · rw [filter_auditSelect, hrows, hone] at hheaders
    simpa [sortedHeaders] using hheaders
  · -- a repeated row has no headers, once and for all copies
    have hmany : 1 < (db.events.filter (·.id = e.id)).length := by
      have hlength : 0 < (db.eventsAsc.filter (·.id = e.id)).length := List.length_pos_of_mem hpos
      rw [length_filter_eventsAsc] at hone hlength
      omega
    have hnone : headers = [] := by
      have hnamed := congrArg List.length (decodeHeaders_named hheaders)
      have hcount := db.length_named_auditSelect e
      rw [h.headers e he hmany, List.length_nil, mul_zero] at hcount
      rw [List.map_nil, List.nil_append, List.length_map] at hnamed
      exact List.length_eq_zero_iff.mp (hnamed.symm.trans hcount)
    have hreadable : ∀ r ∈ db.sortedHeaders e, ∃ name value,
        r.name.getOptionString = .ok name ∧ r.value.getOptionString = .ok value := by
      intro r hr
      refine exists_decodeHeaders.mp ⟨headers, hheaders⟩ r (List.mem_filter.mpr ⟨?_, ?_⟩)
      · exact mem_auditSelect.mpr ⟨e, he, (List.mem_insertionSort _).mp hr⟩
      · rw [event_of_mem_sortedHeaders hr]
        simp
    obtain ⟨decoded, hdecoded⟩ := exists_decodeHeaders.mpr hreadable
    have hnamed := decodeHeaders_named hdecoded
    have hempty : named (db.sortedHeaders e) = [] := h.headers e he hmany
    rw [named] at hempty
    rw [hempty] at hnamed
    rw [hdecoded, hnone]
    simpa using hnamed.symm

end Database

section

variable [HashSuite] {key : AuditHmacKey} {world : ValidatedWorldPath} {db : Database}

/-- Every row of the table is authentic: the walk collects a linked chain of signed events, and every row
decodes, with its own columns and headers, to an event of it. -/
def AllRowsAuthentic (key : AuditHmacKey) (world : ValidatedWorldPath) (db : Database) : Prop :=
  ∃ generation chain, AuditeDB.generation db = .ok generation ∧ groupRows db.auditSelect none = .ok chain ∧
    Linked eventTag eventPrev "" chain ∧
    (∀ event ∈ chain, ∃ kind timestamp, SignedEvent key world generation event kind timestamp) ∧
    ∀ e ∈ db.events, ∃ event ∈ chain, db.decodeEvent e = .ok event

/-- The walk over an accepted table collects a linked chain of signed events. -/
theorem verifyWorldWithFileOp_chain (h : verifyWorldWithFileOp key world db = .ok ()) :
    ∃ generation chain, AuditeDB.generation db = .ok generation ∧ groupRows db.auditSelect none = .ok chain ∧
      Linked eventTag eventPrev "" chain ∧
      ∀ event ∈ chain, ∃ kind timestamp, SignedEvent key world generation event kind timestamp := by
  unfold verifyWorldWithFileOp requireWorldIntact requireStatementIntact at h
  simp only [bind_eq_ok, liftSql_eq_ok] at h
  obtain ⟨_, _, generation, hgeneration, retention, _, _, ⟨report, hreport, hvalid⟩, _⟩ := h
  unfold verifyStatementCapture at hreport
  split at hreport
  case h_1 walked hwalked =>
    obtain ⟨final, hwalk, -⟩ := bind_eq_ok.mp hwalked
    obtain ⟨chain, hchain, hfold⟩ := walkRows_eq_ok.mp hwalk
    obtain ⟨hlinked, hsigned, -⟩ := foldlM_verifyEvent_signed hfold
    exact ⟨generation, chain, hgeneration, hchain, hlinked, hsigned⟩
  · cases hreport
    exact absurd hvalid (by rintro ⟨⟩)
  · cases hreport

/-- In an accepted world every row is authentic exactly when rows that share an id are copies of each other
and have no headers. -/
theorem allRowsAuthentic_iff (h : verifyWorldWithFileOp key world db = .ok ()) :
    AllRowsAuthentic key world db ↔ db.RepeatsAreCopies := by
  constructor
  · rintro ⟨generation, chain, -, hchain, -, -, hrows⟩
    have hcollects := groupRows_collects hchain db.auditSelect_sorted (by simp)
    have hnodup : (chain.map fun event => event.1.id).Nodup := by
      rw [List.Nodup, List.pairwise_map]
      exact hcollects.ascending.imp fun hlt => hlt.ne
    refine ⟨fun e₁ he₁ e₂ he₂ hid => ?_, fun e he hmany => ?_⟩
    · obtain ⟨a, ha, hdecoded₁⟩ := hrows e₁ he₁
      obtain ⟨b, hb, hdecoded₂⟩ := hrows e₂ he₂
      have hread₁ := (Database.decodeEvent_eq_ok.mp hdecoded₁).1
      have hread₂ := (Database.decodeEvent_eq_ok.mp hdecoded₂).1
      have hsame : a = b := List.inj_on_of_nodup_map hnodup ha hb
        (by rw [EventRecord.id_of_read hread₁, EventRecord.id_of_read hread₂, hid])
      rw [EventRecord.read_eq_ok.mp hread₁, EventRecord.read_eq_ok.mp hread₂, hsame]
    · obtain ⟨event, hevent, hdecoded⟩ := hrows e he
      have hid : event.1.id = e.id := EventRecord.id_of_read (Database.decodeEvent_eq_ok.mp hdecoded).1
      have hall := congrArg List.length (decodeHeaders_named (hcollects.headers event hevent))
      have hown := congrArg List.length (Database.namedHeaders_of_decodeEvent hdecoded)
      have hcount := db.length_named_auditSelect e
      rw [show collected none event.1.id = [] from rfl, List.map_nil, List.nil_append, hid, ← hown] at hall
      rw [Database.named, hall] at hcount
      exact List.length_eq_zero_iff.mp (Nat.eq_zero_of_not_pos fun hpos => by nlinarith)
  · intro hcopies
    obtain ⟨generation, chain, hgeneration, hchain, hlinked, hsigned⟩ := verifyWorldWithFileOp_chain h
    have hcollects := groupRows_collects hchain db.auditSelect_sorted (by simp)
    refine ⟨generation, chain, hgeneration, hchain, hlinked, hsigned, fun e he => ?_⟩
    obtain ⟨r, hr⟩ := List.exists_mem_of_ne_nil _ (db.joinHeaders_ne_nil e)
    obtain ⟨event, hevent, hid⟩ := hcollects.covers r (Database.mem_auditSelect.mpr ⟨e, he, hr⟩)
    rw [Database.event_of_mem_joinHeaders hr] at hid
    refine ⟨event, hevent, Database.decodeEvent_eq_ok.mpr ⟨?_, ?_⟩⟩
    · obtain ⟨c, hc, -⟩ | ⟨r', hr', hread⟩ := hcollects.columns event hevent
      · cases hc
      · obtain ⟨e', he', hr'⟩ := Database.mem_auditSelect.mp hr'
        rw [Database.event_of_mem_joinHeaders hr'] at hread
        rw [← hcopies.rows e' he' e he (by rw [← EventRecord.id_of_read hread, hid])]
        exact hread
    · refine hcopies.decodeHeaders_eq he ?_
      rw [← hid]
      exact hcollects.headers event hevent

/-- The database of one replace with an empty body. -/
def Sample.replaced : Database :=
  storedDatabase Sample.key Sample.world Sample.generation [Sample.put []] "text/plain" []

/-- The database stores its history. -/
theorem Sample.represents_replaced : Represents Sample.key Sample.world
    ⟨Sample.generation, [Sample.put []], "text/plain", [], some 1⟩ Sample.replaced :=
  represents_stored Sample.key Sample.generation (List.forall_mem_singleton.mpr (Sample.put_valid (by decide)))
    (show 1 ≤ i64Max by decide) (List.nil_append _).symm rfl "text/plain" []

/-- The only row feeds one byte string to the HMAC. -/
theorem Sample.hmacFed_replaced (generation : WorldGeneration) :
    (Sample.replaced.hmacFed Sample.world generation).Subsingleton := by
  rintro _ ⟨e₁, he₁, row₁, t₁, hread₁, ht₁, rfl⟩ _ ⟨e₂, he₂, row₂, t₂, hread₂, ht₂, rfl⟩
  have hsame : e₁ = e₂ := (List.mem_singleton.mp ((List.mem_insertionSort _).mp he₁)).trans
    (List.mem_singleton.mp ((List.mem_insertionSort _).mp he₂)).symm
  cases hsame
  cases Except.ok.inj (hread₁.symm.trans hread₂)
  cases Except.ok.inj (ht₁.symm.trans ht₂)
  rfl

/-- The only row feeds one byte string to the metadata digest. -/
theorem Sample.sha256Fed_replaced : Sample.replaced.sha256Fed.Subsingleton := by
  rintro _ ⟨e₁, he₁, event₁, hdecoded₁, rfl⟩ _ ⟨e₂, he₂, event₂, hdecoded₂, rfl⟩
  have hsame : e₁ = e₂ := (List.mem_singleton.mp ((List.mem_insertionSort _).mp he₁)).trans
    (List.mem_singleton.mp ((List.mem_insertionSort _).mp he₂)).symm
  cases hsame
  cases Except.ok.inj (hdecoded₁.symm.trans hdecoded₂)
  rfl

end

section

variable [HashSuite]

/-- The row of the replace. -/
def Sample.replacedRow : EventRow := (Sample.put []).row Sample.key Sample.world Sample.generation 1 ""

/-- A row that repeats the id of another one and that nobody signed. -/
def Sample.forgedRow : EventRow := { Sample.replacedRow with size := 5, hmac := "" }

/-- The database with the forged row behind the signed one. -/
def Sample.shadowed : Database :=
  { Sample.replaced with events := [Sample.replacedRow.record, Sample.forgedRow.record] }

/-- The audit statement lists the signed row first. -/
theorem Sample.auditSelect_shadowed : Sample.shadowed.auditSelect =
    [⟨Sample.replacedRow.record, .null, .null⟩, ⟨Sample.forgedRow.record, .null, .null⟩] := by
  have hjoin (e : EventRecord) : Sample.shadowed.joinHeaders e = [⟨e, .null, .null⟩] := rfl
  have hsorted : Sample.shadowed.eventsAsc = [Sample.replacedRow.record, Sample.forgedRow.record] := rfl
  rw [Database.auditSelect, hsorted]
  refine List.Pairwise.insertionSort_eq (List.pairwise_pair.mpr ?_)
  exact le_of_eq rfl

/-- The forged row is not looked at. -/
theorem Sample.verifyWorldWithFileOp_shadowed :
    verifyWorldWithFileOp Sample.key Sample.world Sample.shadowed = .ok () := by
  have hrep := Sample.represents_replaced
  obtain ⟨retention, hload, hlists⟩ := hrep.load_eq
  have hrow : SignedEvent Sample.key Sample.world Sample.generation (Sample.replacedRow, []) .put Sample.time :=
    (Sample.put_valid (show ([] : Bytes).length ≤ i64Max by decide)).signed 1 ""
  have hgroup : groupRows Sample.shadowed.auditSelect none = .ok [(Sample.replacedRow, [])] := by
    rw [Sample.auditSelect_shadowed]
    rfl
  have hload' : CasRetentionState.load Sample.shadowed = .ok retention := by
    unfold CasRetentionState.load loadRetention at hload ⊢
    simp only [bind_eq_ok, rejectIf_eq_ok, pure_eq_ok] at hload ⊢
    obtain ⟨floor, hfloor, bodies, hbodies, _, hbefore, _, -, rfl⟩ := hload
    refine ⟨floor, hfloor, bodies, hbodies, ⟨⟩, hbefore, ⟨⟩, ?_, rfl⟩
    cases hfloor
    simp
  have hlive : verifyLiveBody Sample.shadowed = .ok none := by
    have hlatest : latestBodyEvent Sample.shadowed = .ok (some (1, (BodySha256.forBody []).text, 0)) := rfl
    have hstage : Sample.shadowed.stageMetaRow =
      some ⟨1, .text Sample.generation.text, .blob [], .text "text/plain"⟩ := rfl
    have htable : (Sample.shadowed.schema.any fun e => e.kind = .table && e.name = "stage_meta") = true := rfl
    rw [verifyLiveBody, htable, hstage, hlatest]
    simp [requireSome, SqlValue.getBytes, liveBodyHeadBreak, bind, Except.bind, pure, Except.pure]
  have hvalid : ∃ ok head read, verifyStatementCapture Sample.key retention Sample.world Sample.generation
      Sample.shadowed.auditSelect false none = .ok (.valid ok head read) := by
    refine verifyStatementCapture_of_walk (fun state final hfold => walkRows_eq_ok.mpr ⟨_, hgroup, hfold⟩)
      ⟨rfl, trivial⟩ ?_ ?_ ?_ ?_ (show 1 ≤ i64Max by decide) (.inl (by simp)) none
    · exact List.forall_mem_singleton.mpr ⟨_, _, hrow⟩
    · exact hlists.retainedEvent hrep.floor
    · exact hlists.reached hrep.floor
    · exact hlists.referenced
  have hintact := requireWorldIntact_ok (show AuditeDB.generation Sample.shadowed = .ok Sample.generation from
    hrep.generation_eq) hload' hvalid hlive
  rw [verifyWorldWithFileOp, show verifyOpenShape Sample.shadowed = .ok () from hrep.verifyOpenShape_eq, hintact]
  rfl

end

/-- The world with one replace is accepted and all its rows are authentic. -/
theorem allRowsAuthentic_replaced :
    letI := sha2Suite
    verifyWorldWithFileOp Sample.key Sample.world Sample.replaced = .ok () ∧
      AllRowsAuthentic Sample.key Sample.world Sample.replaced := by
  let _ := sha2Suite
  have haccept := Sample.represents_replaced.verifyWorldWithFileOp_eq (List.cons_ne_nil _ _)
  refine ⟨haccept, (allRowsAuthentic_iff haccept).mpr ⟨?_, ?_⟩⟩
  · intro e₁ he₁ e₂ he₂ _
    rw [List.mem_singleton.mp he₁, List.mem_singleton.mp he₂]
  · intro e he hmany
    exact absurd hmany (not_lt.mpr (List.length_filter_le _ _))

/-- An accepted world may hold a row that carries no HMAC of its own columns. -/
theorem shadowed_row_not_signed :
    letI := sha2Suite
    verifyWorldWithFileOp Sample.key Sample.world Sample.shadowed = .ok () ∧
      Sample.forgedRow.record ∈ Sample.shadowed.events ∧
      ¬ ∃ event kind timestamp, Sample.shadowed.decodeEvent Sample.forgedRow.record = .ok event ∧
        SignedEvent Sample.key Sample.world Sample.generation event kind timestamp := by
  let _ := sha2Suite
  refine ⟨Sample.verifyWorldWithFileOp_shadowed, by simp [Sample.shadowed], ?_⟩
  rintro ⟨event, kind, timestamp, hdecoded, hsigned⟩
  have hrow : Sample.forgedRow = event.1 := Except.ok.inj (Database.decodeEvent_eq_ok.mp hdecoded).1
  have hhmac : event.1.hmac = "" := hrow ▸ rfl
  exact eventHmac_ne_empty _ _ (hsigned.signature.trans hhmac)

end AuditeDB
