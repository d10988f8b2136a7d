import Mathlib
import AuditeDB.World.DereferenceSpec
import AuditeDB.World.Authenticity
import AuditeDB.World.Progress

/-!
# Forged answers about the timeline

A database that the verifier accepts with the newest HMAC of a stored history holds the rows of the history,
but the row ids are not signed. A coordinate therefore resolves exactly when its row kept its id.
-/

namespace AuditeDB

open Utf8 Results HashChain

/-- The answers that give a body or prove that it has expired. -/
def TimelineDereference.resolves : TimelineDereference → Bool
  | .body .. | .expired .. => true
  | _ => false

/-- A row matches as a body row only with its kind and digest. -/
theorem matchBodyRow_inv {row : TimelineEventSnapshot} {world : ValidatedWorldPath}
    {expected bodySha256 : BodySha256} (h : row.matchBodyRow world expected = .body bodySha256) :
    AuditEventKind.isBodyType (.text row.identity.eventType) = true ∧
      row.identity.bodySha256 = expected.text := by
  unfold TimelineEventSnapshot.matchBodyRow at h
  split at h
  · cases h
  · next kind hkind =>
    split_ifs at h with hbearing htarget
    · unfold TimelineEventSnapshot.matchNonBodyRow at h
      split_ifs at h
      split at h
      · cases h
      · split at h
        · cases h
        · split at h
          · cases h
          · cases h
    · split at h
      · cases h
      · next digest hdigest =>
        split_ifs at h with hsame
        rw [AuditEventKind.asStr_of_fromStorage hkind, AuditEventKind.isBodyType_asStr]
        rw [Bool.not_eq_true', Bool.not_eq_false, ctEqStr_iff] at hsame
        exact ⟨by simpa using hbearing, by rw [← BodySha256.new_eq_ok hdigest, hsame]⟩

section

variable [HashSuite] {key : AuditHmacKey} {db : Database}

/-- A snapshot resolves only as a body row. -/
theorem dereferenceSnapshot_resolves {coordinate : TimelineCoordinate} {row : TimelineEventSnapshot}
    {generation : WorldGeneration} {result : TimelineDereference}
    (h : dereferenceSnapshot db coordinate row generation = .ok result) (hresolves : result.resolves = true) :
    AuditEventKind.isBodyType (.text row.identity.eventType) = true ∧
      row.identity.bodySha256 = coordinate.bodySha256.text := by
  unfold dereferenceSnapshot at h
  split at h
  case h_1 bodySha256 hmatch => exact matchBodyRow_inv hmatch
  case h_3 =>
    split_ifs at h
    · cases h
      cases hresolves
    · cases h
      cases hresolves
  all_goals
    cases h
    cases hresolves

/-- A coordinate resolves only through a body row with its id and digest. -/
theorem dereference_resolves {coordinate : TimelineCoordinate} {result : TimelineDereference}
    (h : dereferenceTimelineCoordinate key coordinate db = .ok result) (hresolves : result.resolves = true) :
    ∃ e ∈ db.events, e.id = coordinate.seq.get ∧ AuditEventKind.isBodyType e.eventType = true ∧
      e.bodySha256 = .text coordinate.bodySha256.text := by
  unfold dereferenceTimelineCoordinate at h
  simp only [bind_eq_ok, liftSql_eq_ok] at h
  obtain ⟨actual, -, -, -, h⟩ := h
  split_ifs at h
  · cases h
    cases hresolves
  · obtain ⟨loaded, hloaded, h⟩ := bind_eq_ok.mp h
    cases loaded with
    | none =>
      cases h
      cases hresolves
    | some row =>
      obtain ⟨htype, hdigest⟩ := dereferenceSnapshot_resolves (liftSql_eq_ok.mp h) hresolves
      rw [liftSql_eq_ok, loadEventSnapshot] at hloaded
      split at hloaded
      · cases hloaded
      · next e he =>
        simp only [bind_eq_ok, pure_eq_ok, EventRecord.identity, SqlValue.getString_eq_ok] at hloaded
        obtain ⟨_, ⟨eventType, heventType, target, _, bodySha256, hbodySha256, rfl⟩, _, _, _, _, _, _, _, _,
          hrow⟩ := hloaded
        cases hrow
        have hid := List.find?_some he
        exact ⟨e, List.mem_of_find?_eq_some he, of_decide_eq_true hid, heventType ▸ htype, by
          rw [hbodySha256, ← hdigest]⟩

omit [HashSuite] in
/-- With unique ids the descending order is the reverse of the ascending one. -/
theorem Database.eventsDesc_reverse (hunique : db.UniqueIds) : db.eventsDesc = db.eventsAsc.reverse := by
  have htotal : Std.Total fun a b : EventRecord => b.id ≤ a.id := ⟨fun a b => le_total b.id a.id⟩
  have htrans : IsTrans EventRecord fun a b => b.id ≤ a.id := ⟨fun _ _ _ hab hbc => le_trans hbc hab⟩
  have hdesc : db.eventsDesc.Pairwise fun a b => b.id ≤ a.id := List.pairwise_insertionSort _ _
  have hasc : db.eventsAsc.reverse.Pairwise fun a b => b.id ≤ a.id :=
    List.pairwise_reverse.mpr ((Database.eventsAsc_pairwise hunique).imp fun h => h.le)
  have hperm : db.eventsDesc.Perm db.eventsAsc.reverse :=
    (List.perm_insertionSort _ _).trans ((List.perm_insertionSort _ _).symm.trans
      (List.reverse_perm _).symm)
  refine hperm.eq_of_pairwise (fun a b ha hb hab hba => ?_) hdesc hasc
  exact List.inj_on_of_nodup_map hunique ((List.mem_insertionSort _).mp ha)
    ((List.mem_insertionSort _).mp (List.mem_reverse.mp hb)) (le_antisymm hba hab)

/-- The newest HMAC of a decoded table is that of its last event. -/
theorem Database.DecodesTo.latestHmac_eq {world : ValidatedWorldPath} {generation : WorldGeneration}
    {chain : List (EventRow × Headers)} (h : db.DecodesTo key world generation chain)
    (hunique : db.UniqueIds) : latestHmac db = .ok (chain.getLast?.map eventTag) := by
  rw [latestHmac, Database.eventsDesc_reverse hunique, List.head?_reverse]
  have hlength := h.decoded.length_eq
  rcases List.eq_nil_or_concat' chain with rfl | ⟨init, last, rfl⟩
  · rw [List.length_eq_zero_iff.mp hlength]
    rfl
  · rw [List.length_append, List.length_singleton] at hlength
    have hget := h.decoded.get (i := init.length) (by omega) (by simp)
    rw [List.get_eq_getElem, List.get_eq_getElem, List.getElem_concat_length rfl] at hget
    rw [List.getLast?_eq_getElem?, hlength, Nat.add_sub_cancel, List.getElem?_eq_getElem (by omega),
      EventRecord.read_eq_ok.mp (Database.decodeEvent_eq_ok.mp hget).1]
    simp [EventRow.record, SqlValue.getString, eventTag, pure, Except.pure, bind, Except.bind]

variable {db' : Database} {world : ValidatedWorldPath} {log : WorldLog}

/-- A stored history decodes to its rendered chain. -/
theorem Represents.decodesTo (h : Represents key world log db) :
    db.DecodesTo key world log.generation (render key world log.generation log.entries) :=
  ⟨h.chain.decode, linked_render log.entries, signed_render h.valid⟩

/-- The columns of a row are those of an event of a history. -/
def EventRow.Records (row : EventRow) (e : LogEntry) : Prop :=
  row.eventType = e.kind.asStr ∧ row.bodySha256 = e.bodySha256.text ∧ row.size = e.size

/-- The hash functions do not collide on what two tables and the bodies of a history feed to them. -/
structure NoCollisions (key : AuditHmacKey) (world : ValidatedWorldPath) (log : WorldLog) (db db' : Database) :
    Prop where
  hmac : ∀ generation, AuditeDB.generation db' = .ok generation → Set.InjOn (HashSuite.hmacSha256 key.bytes)
    (db.hmacFed world log.generation ∪ db'.hmacFed world generation)
  metadata : Set.InjOn HashSuite.sha256 (db.sha256Fed ∪ db'.sha256Fed)
  bodies : Set.InjOn HashSuite.sha256 {body | ∃ e ∈ log.entries, e.content = some body}

/-- An accepted table with the newest HMAC of a stored history has its generation and rows. -/
theorem Represents.rows_of_latestHmac (hrep : Represents key world log db) (hne : log.entries ≠ [])
    (hhash : NoCollisions key world log db db') {generation : WorldGeneration} {retention : CasRetentionState}
    {chain : List (EventRow × Headers)} (h : db'.Accepted key world generation retention chain)
    (hunique : db'.UniqueIds) (hlatest : latestHmac db' = latestHmac db) :
    generation = log.generation ∧ ∀ event ∈ chain, ∃ e ∈ log.entries, event.1.Records e := by
  have hlength : (render key world log.generation log.entries).length = log.entries.length :=
    length_render log.entries
  have hpos := List.length_pos_iff.mpr hne
  rw [h.decodes.latestHmac_eq hunique, hrep.decodesTo.latestHmac_eq hrep.chain.uniqueIds, Except.ok.injEq,
    List.getLast?_eq_getElem?, List.getLast?_eq_getElem?, hlength,
    List.getElem?_eq_getElem (show log.entries.length - 1 < _ by omega)] at hlatest
  have hchain : chain.length - 1 < chain.length := by
    by_contra hnot
    rw [List.getElem?_eq_none (not_lt.mp hnot)] at hlatest
    cases hlatest
  rw [List.getElem?_eq_getElem hchain, Option.map_some, Option.map_some, Option.some.injEq] at hlatest
  obtain ⟨hsame, -, hgeneration, -, -, hagree⟩ := hrep.decodesTo.agree h.decodes (hhash.hmac _ h.stored)
    hhash.metadata (by omega) hchain hlatest.symm
  refine ⟨hgeneration.symm, fun event hevent => ?_⟩
  obtain ⟨k, hk⟩ := List.get_of_mem hevent
  have hlen := h.decodes.decoded.length_eq
  have hasc : db.eventsAsc.length = log.entries.length := by rw [hrep.decodesTo.decoded.length_eq, hlength]
  have hkl : k.val < log.entries.length := by have := k.isLt; omega
  -- the rows at one position agree, and one of them is the rendered event
  have hrow := hagree k.val (by omega) (by omega) (by omega)
  have hleft := hrep.decodesTo.decoded.get (i := k.val) (by omega) (by omega)
  have hright := h.decodes.decoded.get (i := k.val) (by omega) k.isLt
  obtain ⟨prev, hget⟩ : ∃ prev, (render key world log.generation log.entries)[k.val]? =
      some (log.entries[k.val].row key world log.generation (k.val + 1) prev, log.entries[k.val].headers) :=
    render_get log.entries hkl
  rw [show (render key world log.generation log.entries).get ⟨k.val, by omega⟩ = _ from
    (List.getElem?_eq_some_iff.mp hget).2] at hleft
  rw [show chain.get ⟨k.val, k.isLt⟩ = event from hk] at hright
  have hrecord := EventRecord.read_eq_ok.mp (Database.decodeEvent_eq_ok.mp hleft).1
  have hrecord' := EventRecord.read_eq_ok.mp (Database.decodeEvent_eq_ok.mp hright).1
  rw [hrecord, hrecord'] at hrow
  exact ⟨log.entries[k.val], List.getElem_mem hkl, (SqlValue.text.inj hrow.eventType).symm,
    (SqlValue.text.inj hrow.bodySha256).symm, (SqlValue.integer.inj hrow.size).symm⟩

/-- Without collisions, body rows of a history with one digest have one size. -/
theorem EventRow.Records.size_eq (hvalid : ∀ e ∈ log.entries, e.Valid world)
    (hbodies : Set.InjOn HashSuite.sha256 {body | ∃ e ∈ log.entries, e.content = some body})
    {row row' : EventRow} {e e' : LogEntry} (he : e ∈ log.entries) (he' : e' ∈ log.entries)
    (h : row.Records e) (h' : row'.Records e') (hbody : AuditEventKind.isBodyType (.text row.eventType) = true)
    (hbody' : AuditEventKind.isBodyType (.text row'.eventType) = true)
    (hdigest : row.bodySha256 = row'.bodySha256) : row.size = row'.size := by
  have hcontent {row : EventRow} {e : LogEntry} (he : e ∈ log.entries) (h : row.Records e)
      (hbody : AuditEventKind.isBodyType (.text row.eventType) = true) : ∃ body, e.content = some body ∧
        row.bodySha256 = (BodySha256.forBody body).text ∧ row.size = body.length := by
    rw [h.1, AuditEventKind.isBodyType_asStr, (hvalid e he).bearing] at hbody
    obtain ⟨body, hsome⟩ := Option.isSome_iff_exists.mp hbody
    obtain ⟨hhash, hsize, -⟩ := (hvalid e he).body body hsome
    exact ⟨body, hsome, by rw [h.2.1, hhash], by rw [h.2.2, hsize]⟩
  obtain ⟨body, hsome, hhash, hsize⟩ := hcontent he h hbody
  obtain ⟨body', hsome', hhash', hsize'⟩ := hcontent he' h' hbody'
  have hsame : body = body' := by
    refine hbodies ⟨e, he, hsome⟩ ⟨e', he', hsome'⟩ (Subtype.ext (hexEncode_injective ?_))
    exact hhash.symm.trans (hdigest.trans hhash')
  rw [hsize, hsize', hsame]

/-- The result of a body row resolves. -/
theorem LoadedFrom.resolves_bodyResult {retention : CasRetentionState} (h : LoadedFrom retention db)
    (coordinate : TimelineCoordinate) (event : EventRow × Headers) :
    (bodyResult db coordinate event).resolves = true := by
  unfold bodyResult
  cases hfound : db.casBody coordinate.bodySha256.text with
  | none => rfl
  | some row =>
    obtain ⟨body, rfl, -⟩ := h.found _ row hfound
    rfl

/-- A coordinate of a stored body event resolves in an accepted table with the same newest HMAC exactly when
the table has a body row with its digest under its id. -/
theorem dereference_resolves_iff (hrep : Represents key world log db) {i : Nat} (hi : i < log.entries.length)
    (hconforms : db'.Conforms) (haccept : verifyWorldWithFileOp key world db' = .ok ())
    (hlatest : latestHmac db' = latestHmac db) (hhash : NoCollisions key world log db db') {seq : TimelineSeq}
    (hseq : seq.get = i + 1) :
    (∃ result, dereferenceTimelineCoordinate key
        ⟨world, log.generation, seq, log.entries[i].bodySha256⟩ db' = .ok result ∧ result.resolves = true) ↔
      ∃ e ∈ db'.events, e.id = i + 1 ∧ AuditEventKind.isBodyType e.eventType = true ∧
        e.bodySha256 = .text log.entries[i].bodySha256.text := by
  constructor
  · rintro ⟨result, hresult, hresolves⟩
    rw [← hseq]
    exact dereference_resolves hresult hresolves
  · rintro ⟨e, he, hid, hbody, hdigest⟩
    have hintact := requireChainIntact_of_accepted haccept
    obtain ⟨generation, retention, chain, haccepted⟩ := requireChainIntact_inv hconforms.ids hintact
    obtain ⟨rfl, hrows⟩ := hrep.rows_of_latestHmac (List.ne_nil_of_length_pos (by omega)) hhash haccepted
      hconforms.ids hlatest
    obtain ⟨event, hevent, hdecoded⟩ := haccepted.decodes.exists_event he
    have hrecord := EventRecord.read_eq_ok.mp (Database.decodeEvent_eq_ok.mp hdecoded).1
    have htype : AuditEventKind.isBodyType (.text event.1.eventType) = true := by rwa [hrecord] at hbody
    have hown : event.1.bodySha256 = log.entries[i].bodySha256.text := by
      rw [hrecord] at hdigest
      exact SqlValue.text.inj hdigest
    have hloaded := CasRetentionState.loadedFrom hconforms.bodies haccepted.load
    obtain ⟨floor, hfloor⟩ := Option.isSome_iff_exists.mp
      (hloaded.started (List.ne_nil_of_mem (List.mem_filter.mpr ⟨he, hbody⟩)))
    -- the size of a retained body is that of a retained row with the same digest
    have hsize : ∀ size, retention.bodies.lookup log.entries[i].bodySha256 = some size →
        size = event.1.size := by
      intro size hlookup
      obtain ⟨event', hevent', hretained, hlisted⟩ := haccepted.referenced floor hfloor
        log.entries[i].bodySha256 (AList.lookup_isSome.mp (by rw [hlookup]; rfl))
      obtain ⟨e₁, he₁, hrecords⟩ := hrows event hevent
      obtain ⟨e₂, he₂, hrecords'⟩ := hrows event' hevent'
      rw [hrecords.size_eq hrep.valid hhash.bodies he₁ he₂ hrecords' htype hretained.2
        (hown.trans hlisted.1)]
      exact Option.some.inj (hlookup.symm.trans hlisted.2)
    exact ⟨_, haccepted.dereference_body hintact hconforms he hevent hdecoded hbody (hseq.trans hid.symm)
      hdigest hsize, hloaded.resolves_bodyResult _ event⟩

variable {generation : WorldGeneration} {entries before : List LogEntry} {last : LogEntry} {body : Bytes}

/-- The database of a history whose rows are numbered from another id on, with the newest body retained. -/
def renumbered (key : AuditHmacKey) (world : ValidatedWorldPath) (generation : WorldGeneration) (base : Int)
    (entries : List LogEntry) : Database :=
  { storedDatabase key world generation entries "text/plain" [] with
    casState := [⟨1, .integer (base + (entries.length - 1 : Nat))⟩]
    events := (renderFrom key world generation base "" entries).map fun event => event.1.record
    eventHeaders := headerRows (renderFrom key world generation base "" entries) }

/-- A history that ends in a body event. -/
structure EndsInBody (world : ValidatedWorldPath) (entries before : List LogEntry) (last : LogEntry)
    (body : Bytes) : Prop where
  split : entries = before ++ [last]
  content : last.content = some body
  valid : ∀ e ∈ entries, e.Valid world
  bounded : entries.length ≤ i64Max

/-- The renumbered rows are a stored chain. -/
theorem storesChain_renumbered (base : Int) (entries : List LogEntry) :
    (renumbered key world generation base entries).StoresChain
      (renderFrom key world generation base "" entries) := by
  refine ⟨rfl, rfl, (ascendingIds_renderFrom base "" entries).2, ?_⟩
  generalize "" = prev
  induction entries generalizing base prev with
  | nil => exact fun _ h => (by cases h)
  | cons e rest ih => exact List.forall_mem_cons.mpr ⟨e.sorted, ih _ _⟩

/-- Numbering does not change the HMACs. -/
theorem map_eventTag_renderFrom (base : Int) (prev : String) (entries : List LogEntry) :
    (renderFrom key world generation base prev entries).map eventTag =
      (renderFrom key world generation 1 prev entries).map eventTag := by
  suffices h : ∀ base base' : Int, (renderFrom key world generation base prev entries).map eventTag =
      (renderFrom key world generation base' prev entries).map eventTag from h base 1
  induction entries generalizing prev with
  | nil => exact fun _ _ => rfl
  | cons e rest ih =>
    intro base base'
    rw [renderFrom, renderFrom, List.map_cons, List.map_cons]
    exact congrArg₂ _ rfl (ih _ _ _)

/-- A renumbered history has the newest HMAC of the history. -/
theorem latestHmac_renumbered (base : Int) (hrep : Represents key world log db) :
    latestHmac (renumbered key world log.generation base log.entries) = latestHmac db := by
  rw [(storesChain_renumbered base log.entries).latestHmac_eq, hrep.chain.latestHmac_eq, ← List.getLast?_map,
    ← List.getLast?_map, map_eventTag_renderFrom]
  rfl

/-- The last row of a renumbered history, and the rows before it. -/
theorem renderFrom_split (key : AuditHmacKey) (generation : WorldGeneration)
    (h : EndsInBody world entries before last body) (base : Int) :
    ∃ prev, renderFrom key world generation base "" entries =
      renderFrom key world generation base "" before ++
        [(last.row key world generation (base + before.length) prev, last.headers)] ∧
      ∀ event ∈ renderFrom key world generation base "" before, event.1.id < base + before.length := by
  have hsplit : renderFrom key world generation base "" (before ++ [last]) = _ :=
    renderFrom_append base "" before last
  have hasc : AscendingIds (renderFrom key world generation base "" (before ++ [last])) :=
    (ascendingIds_renderFrom base "" _).2
  rw [← h.split] at hsplit hasc
  refine ⟨_, hsplit, ?_⟩
  rw [hsplit] at hasc
  exact fun event hevent => (List.pairwise_append.mp hasc).2.2 event hevent _ (List.mem_singleton_self _)

/-- The retention state of a renumbered history lists the newest body. -/
theorem load_renumbered (key : AuditHmacKey) (generation : WorldGeneration)
    (h : EndsInBody world entries before last body) {base : Int} (hfloor : 0 < base + (before.length : Int)) :
    ∃ retention, CasRetentionState.load (renumbered key world generation base entries) = .ok retention ∧
      retention.firstRetainedSeq = some ⟨base + before.length, hfloor⟩ ∧
      ∀ digest, retention.bodies.lookup digest =
        if digest = .forBody body then some (body.length : Int) else none := by
  have hlast : last.Valid world := h.valid last (by simp [h.split])
  obtain ⟨-, -, hfits⟩ := hlast.body body h.content
  have hafter : bodyAfter entries = body := by simp [bodyAfter, h.split, h.content]
  have hlength : entries.length - 1 = before.length := by simp [h.split]
  have hseq : firstRetainedSeq (renumbered key world generation base entries) =
      .ok (some ⟨base + before.length, hfloor⟩) := by
    simp only [firstRetainedSeq, Database.casStateRow, renumbered, hlength]
    exact TimelineSeq.newOption_get _ (some ⟨base + before.length, hfloor⟩)
  have hrows : (renumbered key world generation base entries).casBodies = [casRow body] := by
    simp [renumbered, storedDatabase, hafter]
  have hlisted : ∀ row ∈ [casRow body], ∃ body', row = casRow body' ∧ body'.length ≤ i64Max := by
    simpa using ⟨body, rfl, hfits⟩
  obtain ⟨loaded, hloaded, hlookup⟩ := foldlM_loadHashedBody hlisted (List.nodup_singleton _) ∅
  refine ⟨⟨some ⟨base + before.length, hfloor⟩, loaded⟩, ?_, rfl, fun digest => ?_⟩
  · rw [CasRetentionState.load, loadRetention, hseq, hrows, ok_bind, hloaded]
    simp [bind, Except.bind, pure, Except.pure]
  · rw [hlookup]
    by_cases hdigest : digest = .forBody body
    · simp [hdigest, casRow, SqlValue.blobLength]
    · have hne : ¬ (BodySha256.forBody body).text = digest.text := fun hsame => hdigest (BodySha256.ext hsame.symm)
      simp [hdigest, hne, casRow]

/-- The live body of a renumbered history is the newest one. -/
theorem verifyLiveBody_renumbered (key : AuditHmacKey) (generation : WorldGeneration)
    (h : EndsInBody world entries before last body) (base : Int) :
    verifyLiveBody (renumbered key world generation base entries) = .ok none := by
  have hlast : last.Valid world := h.valid last (by simp [h.split])
  obtain ⟨hdigest, hsize, hfits⟩ := hlast.body body h.content
  have hbearing : last.kind.bodyBearing = true := hlast.bearing.mpr (by rw [h.content]; rfl)
  have hafter : bodyAfter entries = body := by simp [bodyAfter, h.split, h.content]
  have hstores : (renumbered key world generation base entries).StoresChain _ :=
    storesChain_renumbered base entries
  obtain ⟨prev, hsplit, -⟩ := renderFrom_split key generation h base
  have hlatest : latestBodyEvent (renumbered key world generation base entries) =
      .ok (some (base + before.length, (BodySha256.forBody body).text, (body.length : Int))) := by
    have hhead : (renumbered key world generation base entries).bodyEventsDesc.head? =
        some (last.row key world generation (base + before.length) prev).record := by
      rw [Database.bodyEventsDesc, hstores.eventsDesc_eq, hstores.events, hsplit, List.map_append,
        List.reverse_append]
      simp [LogEntry.row, EventRow.record, hbearing]
    rw [latestBodyEvent, hhead]
    simp [LogEntry.row, EventRow.record, SqlValue.getString, SqlValue.getI64, hdigest, hsize, bind, Except.bind, pure,
      Except.pure]
  have hstage : (renumbered key world generation base entries).stageMetaRow =
      some ⟨1, .text generation.text, .blob body, .text "text/plain"⟩ := by
    simp [Database.stageMetaRow, renumbered, storedDatabase, hafter]
  have htable : ((renumbered key world generation base entries).schema.any
      fun e => e.kind = .table && e.name = "stage_meta") = true := rfl
  have hmin : min (body.length : Int) i64Max = body.length := by
    rw [min_eq_left]
    exact_mod_cast hfits
  rw [verifyLiveBody, htable, hstage, hlatest]
  simp [requireSome, SqlValue.getBytes, liveBodyHeadBreak, hmin, bind, Except.bind, pure, Except.pure]

/-- The verifier accepts a renumbered history. -/
theorem verifyWorldWithFileOp_renumbered (key : AuditHmacKey) (generation : WorldGeneration)
    (h : EndsInBody world entries before last body) {base : Int} (hbase : 0 < base) :
    verifyWorldWithFileOp key world (renumbered key world generation base entries) = .ok () := by
  have hstored := represents_stored key generation h.valid h.bounded h.split h.content "text/plain" []
  have hstores : (renumbered key world generation base entries).StoresChain _ :=
    storesChain_renumbered base entries
  have hgeneration : AuditeDB.generation (renumbered key world generation base entries) = .ok generation :=
    hstored.generation_eq
  have hfloor : 0 < base + (before.length : Int) := by omega
  obtain ⟨retention, hload, hseq, hlookup⟩ := load_renumbered key generation h hfloor
  have hlast : last.Valid world := h.valid last (by simp [h.split])
  obtain ⟨hdigest, hsize, hfits⟩ := hlast.body body h.content
  have hbearing : last.kind.bodyBearing = true := hlast.bearing.mpr (by rw [h.content]; rfl)
  have hshape : verifyOpenShape (renumbered key world generation base entries) = .ok () := by
    refine verifyOpenShape_created (.inr rfl) hgeneration ?_ rfl
    have hpositive : ¬ (base + ((entries.length - 1 : Nat) : Int) ≤ 0) := by
      rw [h.split, List.length_append, List.length_singleton, Nat.add_sub_cancel]
      omega
    simp [verifyCasStateRow, renumbered, verifyCasStateEntry, hpositive, requireSingleRow, rejectIf, bind,
      Except.bind, pure, Except.pure]
  obtain ⟨prev, hsplit, hbelow⟩ := renderFrom_split key generation h base
  have hsigned : ∀ event ∈ renderFrom key world generation base "" entries,
      ∃ kind timestamp, SignedEvent key world generation event kind timestamp := by
    intro event hevent
    obtain ⟨e, he, id, prev, rfl⟩ := mem_renderFrom hevent
    exact ⟨_, _, (h.valid e he).signed id prev⟩
  have hdigests : retention.bodies.lookup last.bodySha256 = some last.size := by
    rw [hlookup, if_pos hdigest, hsize]
  have hevents : ∀ event ∈ renderFrom key world generation base "" entries,
      event.1.id < base + before.length ∨
        event = (last.row key world generation (base + before.length) prev, last.headers) := by
    rw [hsplit]
    intro event hevent
    exact (List.mem_append.mp hevent).imp (hbelow event) List.mem_singleton.mp
  have hmem : (last.row key world generation (base + before.length) prev, last.headers) ∈
      renderFrom key world generation base "" entries := by
    rw [hsplit]
    exact List.mem_append_right _ (List.mem_singleton_self _)
  have hretained : ∀ event ∈ renderFrom key world generation base "" entries,
      RetainedEvent retention event.1 := by
    intro event hevent
    have hpositive := (ascendingIds_renderFrom base "" entries).1 event hevent
    rcases hevents event hevent with hlt | rfl
    · refine ⟨by omega, fun floor hfloor hid => ?_, fun floor hfloor hle => ?_⟩
      all_goals
        cases Option.some.inj (hseq.symm.trans hfloor)
      · exact absurd hid hlt.ne
      · exact absurd hle.1 (not_le.mpr hlt)
    · refine ⟨by omega, fun _ _ _ => by simpa [LogEntry.row] using hbearing, fun _ _ _ => ?_⟩
      exact ⟨last.bodySha256, rfl, hdigests⟩
  have hvalid : ∃ ok head read, verifyStatementCapture key retention world generation
      (renumbered key world generation base entries).auditSelect false none = .ok (.valid ok head read) := by
    refine verifyStatementCapture_ok hstores.uniqueIds hstores.decode (linked_renderFrom base "" entries)
      hsigned hretained ?_ ?_ ?_ (.inl (List.ne_nil_of_mem hmem)) none
    · intro floor hfloor
      cases Option.some.inj (hseq.symm.trans hfloor)
      exact ⟨_, hmem, rfl⟩
    · intro digest hdigest'
      obtain ⟨size, hsome⟩ := Option.isSome_iff_exists.mp (AList.lookup_isSome.mpr hdigest')
      rw [hlookup] at hsome
      split_ifs at hsome with hsame
      refine ⟨_, hseq, _, hmem, ⟨le_rfl, by simpa [LogEntry.row] using hbearing⟩, ?_⟩
      rw [hsame, ← hdigest]
      rfl
    · rw [length_renderFrom]
      exact h.bounded
  have hintact := requireWorldIntact_ok hgeneration hload hvalid (verifyLiveBody_renumbered key generation h base)
  rw [verifyWorldWithFileOp, hshape, hintact]
  rfl

/-- A renumbered history keeps the constraints of the created tables. -/
theorem conforms_renumbered (key : AuditHmacKey) (world : ValidatedWorldPath) (generation : WorldGeneration)
    (base : Int) (entries : List LogEntry) : (renumbered key world generation base entries).Conforms := by
  refine ⟨(storesChain_renumbered base entries).uniqueIds, fun h hh => ?_, List.nodup_singleton _⟩
  obtain ⟨event, -, hh⟩ := List.mem_flatMap.mp hh
  obtain ⟨header, -, rfl⟩ := List.mem_map.mp hh
  simp

/-- Ids below the first one of a renumbered history have no row. -/
theorem dereference_renumbered (key : AuditHmacKey) (generation : WorldGeneration)
    (h : EndsInBody world entries before last body) {base : Int} (hbase : 0 < base) {seq : TimelineSeq}
    (hseq : seq.get < base) (bodySha256 : BodySha256) :
    dereferenceTimelineCoordinate key ⟨world, generation, seq, bodySha256⟩
      (renumbered key world generation base entries) =
        .ok (.missingRow ⟨world, generation, seq, bodySha256⟩) := by
  have hstored := represents_stored key generation h.valid h.bounded h.split h.content "text/plain" []
  have hgeneration : AuditeDB.generation (renumbered key world generation base entries) = .ok generation :=
    hstored.generation_eq
  have hintact := requireChainIntact_of_accepted (verifyWorldWithFileOp_renumbered key generation h hbase)
  have hnone : (renumbered key world generation base entries).events.find? (·.id = seq.get) = none := by
    rw [List.find?_eq_none]
    intro row hrow
    obtain ⟨event, hevent, rfl⟩ := List.mem_map.mp hrow
    have hle := (ascendingIds_renderFrom base "" entries).1 event hevent
    rw [decide_eq_true_eq]
    exact (hseq.trans_le hle).ne'
  have hload : loadEventSnapshot (renumbered key world generation base entries) seq = .ok none := by
    rw [loadEventSnapshot, hnone]
    rfl
  simp only [dereferenceTimelineCoordinate, hgeneration, hintact, hload, liftSql, Except.mapError, ok_bind, ne_eq,
    not_true, if_false]
  rfl

end

/-- A coordinate resolves in the database that it comes from. -/
theorem dereference_resolves_replaced :
    letI := sha2Suite
    ∃ result, dereferenceTimelineCoordinate Sample.key
      ⟨Sample.world, Sample.generation, ⟨1, by decide⟩, (Sample.put []).bodySha256⟩ Sample.replaced = .ok result ∧
        result.resolves = true := by
  let _ := sha2Suite
  have hrep := Sample.represents_replaced
  have haccept := hrep.verifyWorldWithFileOp_eq (List.cons_ne_nil _ _)
  have hhash : NoCollisions Sample.key Sample.world
      ⟨Sample.generation, [Sample.put []], "text/plain", [], some 1⟩ Sample.replaced Sample.replaced := by
    refine ⟨fun generation hgeneration => ?_, ?_, ?_⟩
    · cases Except.ok.inj (hgeneration.symm.trans hrep.generation_eq)
      rw [Set.union_self]
      exact (Sample.hmacFed_replaced _).injOn _
    · rw [Set.union_self]
      exact Sample.sha256Fed_replaced.injOn _
    · rintro _ ⟨e₁, he₁, hbody₁⟩ _ ⟨e₂, he₂, hbody₂⟩ _
      rw [List.mem_singleton.mp he₁] at hbody₁
      rw [List.mem_singleton.mp he₂] at hbody₂
      exact Option.some.inj (hbody₁.symm.trans hbody₂)
  have hconforms : Sample.replaced.Conforms := ⟨hrep.chain.uniqueIds, fun _ h => (by cases h),
    List.nodup_singleton _⟩
  exact (dereference_resolves_iff hrep (show 0 < 1 by decide) hconforms haccept rfl hhash rfl).mpr
    ⟨Sample.replacedRow.record, List.mem_singleton_self _, rfl, rfl, rfl⟩

/-- A database that the engine wrote has an accepted forgery with the same newest HMAC in which the row of the
write is proved missing. -/
theorem renumbered_forges_missingRow :
    letI := sha2Suite
    ∃ result db db', writeWithAudit Sample.key Sample.world ⟨Sample.time.text, Sample.time.text⟩ false .created
        [104, 105] "text/plain" [] .default (createdDatabase Sample.generation) = .ok (result, db) ∧
      Database.Conforms db' ∧ CreatedSchema db'.schema ∧
      verifyWorldWithFileOp Sample.key Sample.world db' = .ok () ∧ latestHmac db' = latestHmac db ∧
      dereferenceTimelineCoordinate Sample.key ⟨Sample.world, result.bodyEvent.generation, result.bodyEvent.id,
          result.bodyEvent.bodySha256⟩ db' =
        .ok (.missingRow ⟨Sample.world, result.bodyEvent.generation, result.bodyEvent.id,
          result.bodyEvent.bodySha256⟩) := by
  let _ := sha2Suite
  have hcreated := represents_created Sample.key Sample.world Sample.generation
  have hcan : CanCommit (WorldLog.created Sample.generation).entries 2 [104, 105] .default :=
    ⟨by decide, by decide, fun _ h => (by cases h), by decide⟩
  obtain ⟨result, db, hwrite, -⟩ := writeWithAudit_ok hcreated (.inl rfl) hcan
    (show (([] : Headers).map Prod.fst).Nodup from .nil) false Sample.time Sample.time "text/plain"
  obtain ⟨log, hrep, hcommits, -⟩ := writeWithAudit_spec hcreated hwrite
  obtain ⟨opening, e, -, hentries, -, hcontent, hrecords⟩ := hcommits.entries
  have hends : EndsInBody Sample.world log.entries _ e [104, 105] :=
    ⟨hentries, hcontent, hrep.valid, hrep.chain.bounded⟩
  have hevent : result.bodyEvent.generation = log.generation := by
    rw [hrecords.fields, hcommits.generation]
  have hbase : 0 < (log.entries.length : Int) + 1 := by omega
  have hseq : result.bodyEvent.id.get < (log.entries.length : Int) + 1 := by
    have hlength := congrArg List.length hentries
    rw [List.length_append, List.length_singleton] at hlength
    rw [hrecords.seq]
    omega
  exact ⟨result, db, renumbered Sample.key Sample.world log.generation (log.entries.length + 1) log.entries, hwrite,
    conforms_renumbered _ _ _ _ _, .inr rfl, verifyWorldWithFileOp_renumbered _ _ hends hbase,
    latestHmac_renumbered _ hrep, by
      rw [hevent]
      exact dereference_renumbered _ _ hends hbase hseq _⟩

end AuditeDB
