import Mathlib
import AuditeDB.World.TimelineForgery

/-!
# Gates in front of reads and writes

The gates in front of reads and writes look at the newest event only, or load the retained bodies by their lengths.
They accept every table that the full verification accepts.
-/

namespace AuditeDB

open Utf8 Results HashChain

/-- Two lists related member by member end in related members. -/
theorem forall₂_concat {α β : Type*} {R : α → β → Prop} {l : List α} {init : List β} {last : β}
    (h : List.Forall₂ R l (init ++ [last])) : ∃ before a, l = before ++ [a] ∧ List.Forall₂ R before init ∧ R a last := by
  have hbefore := List.forall₂_take_append l init [last] h
  have hrest := List.forall₂_drop_append l init [last] h
  obtain ⟨a, rest, ha, hnil, hdrop⟩ := List.forall₂_cons_right_iff.mp hrest
  rw [List.forall₂_nil_right_iff.mp hnil] at hdrop
  exact ⟨l.take init.length, a, by rw [← hdrop, List.take_append_drop], hbefore, ha⟩

variable [HashSuite] {key : AuditHmacKey} {world : ValidatedWorldPath} {generation : WorldGeneration}
  {retention : CasRetentionState} {db : Database}

/-- The walk over a chain with a last event reaches it with the HMAC before it. -/
theorem foldlM_verifyEvent_last {init : List (EventRow × Headers)} {last : EventRow × Headers}
    {final : VerifyAccumulator}
    (h : (init ++ [last]).foldlM (verifyEvent key retention world generation) (.start retention none) =
      .ok final) :
    ∃ kind state state', (∀ idx, verifySignature key world generation last.1 last.2
        ((init.getLast?.map eventTag).getD "") idx = .ok kind) ∧
      AuditEventKind.fromStorage last.1.eventType = some kind ∧
      verifyRetainedBody last.1 kind state.events retention state = .ok state' := by
  rw [List.foldlM_append] at h
  obtain ⟨state, hinit, hlast⟩ := bind_eq_ok.mp h
  rw [List.foldlM_cons] at hlast
  obtain ⟨next, hnext, -⟩ := bind_eq_ok.mp hlast
  obtain ⟨-, -, hprev, -⟩ := foldlM_verifyEvent_signed hinit
  unfold verifyEvent at hnext
  simp only [bind_eq_ok, pure_eq_ok] at hnext
  obtain ⟨kind, hsignature, state', hretained, -⟩ := hnext
  obtain ⟨hlink, timestamp, hsigned⟩ := verifySignature_eq_ok.mp hsignature
  refine ⟨kind, state, state', fun idx => ?_, hsigned.known, hretained⟩
  exact verifySignature_eq_ok.mpr ⟨hlink.trans hprev, timestamp, hsigned⟩

/-- The tail check accepts an event that is signed after the HMAC before it. -/
theorem verifyTailEvent_of_signature {event : EventRow × Headers} {prev : String} {kind : AuditEventKind}
    (h : ∀ idx, verifySignature key world generation event.1 event.2 prev idx = .ok kind) (eventCount : Nat) :
    verifyTailEvent key world generation event prev eventCount = .ok () := by
  unfold verifyTailEvent verifyEvent
  simp only [VerifyAccumulator.tail, h, ok_bind]
  rfl

/-- The check of the newest body accepts an event whose body the walk has found. -/
theorem verifyTailBody_of_retained (hloaded : LoadedFrom retention db) {row : EventRow} {kind : AuditEventKind}
    (hkind : AuditEventKind.fromStorage row.eventType = some kind)
    (hstarted : kind.bodyBearing = true → db.bodyEvents ≠ []) {idx : Nat} {state state' : VerifyAccumulator}
    (h : verifyRetainedBody row kind idx retention state = .ok state') (idx' : Nat) :
    verifyTailBody db row idx' = .ok none := by
  unfold verifyTailBody
  simp only [hkind, hloaded.floor, ok_bind]
  unfold verifyRetainedBody at h
  cases hfloor : retention.firstRetainedSeq with
  | none =>
    have hbearing : kind.bodyBearing = false := by
      rw [← Bool.not_eq_true]
      intro hbearing
      have hsome := hloaded.started (hstarted hbearing)
      rw [hfloor] at hsome
      cases hsome
    simp [hbearing, pure, Except.pure]
  | some floor =>
    simp only [hfloor, bind_eq_ok, rejectIf_eq_ok] at h
    obtain ⟨noted, -, -, hatFloor, h⟩ := h
    simp only [hatFloor]
    split_ifs at h with hskip
    · simp [hskip, pure, Except.pure]
    · simp only [bind_eq_ok, mapError_eq_ok, requireSome_eq_ok, rejectIf_eq_ok, not_not] at h
      obtain ⟨digest, hdigest, len, hlen, -, hsize, -⟩ := h
      -- the loaded bodies are those of the table
      cases hrow : db.casBody digest.text with
      | none =>
        rw [hloaded.missing digest hrow] at hlen
        cases hlen
      | some stored =>
        obtain ⟨body, rfl, hbody, hlength, hlookup⟩ := hloaded.found digest stored hrow
        rw [hlookup, Option.some.injEq] at hlen
        have hrowSize : (body.length : Int) = row.size := hlen.trans hsize
        simp [hskip, hdigest, hrow, casRow, SqlValue.getBytes, hbody, not_lt.mpr hlength, hrowSize, pure,
          Except.pure]

omit [HashSuite] in
/-- With unique ids the rows before the newest one are those with smaller ids. -/
theorem Database.filter_lt_last (hunique : db.UniqueIds) {before : List EventRecord} {e : EventRecord}
    (hasc : db.eventsAsc = before ++ [e]) : db.eventsDesc.filter (·.id < e.id) = before.reverse := by
  have hsorted := Database.eventsAsc_pairwise hunique
  rw [hasc] at hsorted
  obtain ⟨-, -, hlt⟩ := List.pairwise_append.mp hsorted
  rw [Database.eventsDesc_reverse hunique, hasc, List.reverse_append, List.reverse_singleton, List.singleton_append,
    List.filter_cons, if_neg (by simp), List.filter_eq_self]
  exact fun row hrow => decide_eq_true (hlt row (List.mem_reverse.mp hrow) e (List.mem_singleton_self e))

omit [HashSuite] in
/-- The newest event of a decoded table is read with its headers. -/
theorem latestEventWithHeaders_of_decoded (hunique : db.UniqueIds) {before : List EventRecord} {e : EventRecord}
    (hasc : db.eventsAsc = before ++ [e]) {event : EventRow × Headers} (hdecode : db.decodeEvent e = .ok event) :
    latestEventWithHeaders db = .ok (some event) := by
  have hlast : db.eventsDesc.head? = some e := by
    rw [Database.eventsDesc_reverse hunique, hasc, List.head?_reverse, List.getLast?_append]
    rfl
  have hsorted := Database.eventsAsc_pairwise hunique
  rw [hasc] at hsorted
  obtain ⟨-, -, hlt⟩ := List.pairwise_append.mp hsorted
  have honly : db.events.filter (·.id = e.id) = [e] := by
    have hperm : (db.events.filter (·.id = e.id)).Perm (db.eventsAsc.filter (·.id = e.id)) :=
      (List.perm_insertionSort _ _).symm.filter _
    have hbefore : before.filter (·.id = e.id) = [] := by
      refine List.filter_eq_nil_iff.mpr fun row hrow => ?_
      simpa using (hlt row hrow e (List.mem_singleton_self e)).ne
    rw [hasc, List.filter_append, hbefore, List.nil_append, List.filter_singleton, decide_eq_true rfl] at hperm
    exact List.perm_singleton.mp hperm
  have hselect : db.auditTailSelect = db.sortedHeaders e := by
    rw [Database.auditTailSelect, hlast]
    simp only [honly, List.flatMap_cons, List.flatMap_nil, List.append_nil]
    rfl
  rw [latestEventWithHeaders, hselect, collectTail_event hdecode]

omit [HashSuite] in
/-- The HMAC before the newest event of a decoded table. -/
theorem previousHmac_of_decoded (hunique : db.UniqueIds) {before : List EventRecord} {e : EventRecord}
    (hasc : db.eventsAsc = before ++ [e]) {init : List (EventRow × Headers)}
    (hdecoded : List.Forall₂ (fun e d => db.decodeEvent e = .ok d) before init) :
    previousHmac db e.id = .ok ((init.getLast?.map eventTag).getD "") := by
  rw [previousHmac, Database.filter_lt_last hunique hasc, List.head?_reverse]
  rcases List.eq_nil_or_concat' init with rfl | ⟨earlier, event, rfl⟩
  · rw [List.forall₂_nil_right_iff.mp hdecoded]
    rfl
  · obtain ⟨rows, row, rfl, -, hdecode⟩ := forall₂_concat hdecoded
    have hread := EventRecord.read_eq_ok.mp (Database.decodeEvent_eq_ok.mp hdecode).1
    rw [List.getLast?_append, List.getLast?_append]
    simp [hread, EventRow.record, SqlValue.getString, eventTag]

/-- What the gates need of an accepted table: the newest event, its signature and its retained body. -/
theorem tail_of_accepted (hconforms : db.Conforms) (h : requireChainIntact key world db = .ok ()) :
    ∃ generation retention event prev kind, AuditeDB.generation db = .ok generation ∧
      CasRetentionState.load db = .ok retention ∧ latestEventWithHeaders db = .ok (some event) ∧
      previousHmac db event.1.id = .ok prev ∧
      (∀ idx, verifySignature key world generation event.1 event.2 prev idx = .ok kind) ∧
      ∀ idx, verifyTailBody db event.1 idx = .ok none := by
  obtain ⟨generation, retention, chain, final, hgeneration, hload, hdecoded, hfold, -, hsome⟩ :=
    requireChainIntact_walk hconforms.ids h
  rcases List.eq_nil_or_concat' chain with rfl | ⟨init, event, rfl⟩
  · cases hfold
    exact absurd rfl hsome
  · obtain ⟨before, e, hasc, hbefore, hdecode⟩ := forall₂_concat hdecoded
    obtain ⟨kind, state, state', hsignature, hkind, hretained⟩ := foldlM_verifyEvent_last hfold
    have hrecord := EventRecord.read_eq_ok.mp (Database.decodeEvent_eq_ok.mp hdecode).1
    have hid : e.id = event.1.id := by rw [hrecord]; rfl
    have hstarted : kind.bodyBearing = true → db.bodyEvents ≠ [] := by
      intro hbearing
      have hmem : e ∈ db.events :=
        (List.mem_insertionSort _).mp (hasc ▸ List.mem_append_right _ (List.mem_singleton_self e))
      refine List.ne_nil_of_mem (List.mem_filter.mpr ⟨hmem, ?_⟩)
      rw [hrecord, ← hbearing, ← AuditEventKind.isBodyType_asStr, ← AuditEventKind.asStr_of_fromStorage hkind]
      rfl
    refine ⟨generation, retention, event, _, kind, hgeneration, hload,
      latestEventWithHeaders_of_decoded hconforms.ids hasc hdecode,
      hid ▸ previousHmac_of_decoded hconforms.ids hasc hbefore, hsignature, fun idx => ?_⟩
    exact verifyTailBody_of_retained (CasRetentionState.loadedFrom hconforms.bodies hload) hkind hstarted hretained
      idx

/-- The bodies of a table that loads are what their digests say. -/
theorem CasRetentionState.stored_of_load (h : CasRetentionState.load db = .ok retention) :
    ∀ row ∈ db.casBodies, ∃ body, row = casRow body ∧ body.length ≤ i64Max := by
  unfold CasRetentionState.load loadRetention at h
  simp only [bind_eq_ok] at h
  obtain ⟨_, _, bodies, hbodies, -⟩ := h
  exact foldlM_loadHashedBody_inv hbodies

/-- A chain is intact when the walk over its rows ends and its result passes the last checks. -/
theorem requireStatementIntact_eq_ok {allowEmpty : Bool} :
    requireStatementIntact key world retention generation allowEmpty db = .ok () ↔
      ∃ final out, walkRows key retention world generation db.auditSelect none (.start retention none) = .ok final ∧
        finishWalk retention generation allowEmpty none final = .ok out := by
  unfold requireStatementIntact verifyStatementCapture
  constructor
  · intro h
    simp only [bind_eq_ok, liftSql_eq_ok] at h
    obtain ⟨report, hreport, hvalid⟩ := h
    split at hreport
    · next hwalked =>
      obtain ⟨final, hwalk, hfinish⟩ := bind_eq_ok.mp hwalked
      exact ⟨final, _, hwalk, hfinish⟩
    · cases hreport
      cases hvalid
    · cases hreport
  · rintro ⟨final, out, hwalk, hfinish⟩
    rw [hwalk, ok_bind, hfinish]
    rfl

/-- A chain that is intact stays so when an empty one is allowed. -/
theorem requireStatementIntact_allowEmpty (h : requireStatementIntact key world retention generation false db = .ok ())
    (allowEmpty : Bool) : requireStatementIntact key world retention generation allowEmpty db = .ok () := by
  obtain ⟨final, out, hwalk, hfinish⟩ := requireStatementIntact_eq_ok.mp h
  refine requireStatementIntact_eq_ok.mpr ⟨final, out, hwalk, ?_⟩
  unfold finishWalk at hfinish ⊢
  simp only [bind_eq_ok, rejectIf_eq_ok] at hfinish ⊢
  obtain ⟨_, hcompletion, _, hsome, hhead⟩ := hfinish
  refine ⟨_, hcompletion, ⟨⟩, ?_, hhead⟩
  simp only [Bool.not_false, Bool.and_true, decide_eq_true_eq] at hsome
  simp [hsome]

/-- The gates in front of reads and writes accept every table that the full verification accepts. -/
theorem gates_accept_verified (hconforms : db.Conforms) (h : verifyWorldWithFileOp key world db = .ok ()) :
    requireCurrentTailIntact key world db = .ok () ∧
      (∃ audit, verifyAppendableTailChecked key world db = .ok audit) ∧
      ∀ allowEmpty, ∃ audit, verifyAppendableFull key world allowEmpty db = .ok audit := by
  obtain ⟨generation, retention, event, prev, kind, hgeneration, hload, hlatest, hprev, hsignature, hbody⟩ :=
    tail_of_accepted hconforms (requireChainIntact_of_accepted h)
  unfold verifyWorldWithFileOp requireWorldIntact at h
  simp only [bind_eq_ok, liftSql_eq_ok, hgeneration, hload, Except.ok.injEq, exists_eq_left'] at h
  obtain ⟨_, _, _, hstatement, hlive⟩ := h
  have hloadForAppend : CasRetentionState.loadForAppend db = .ok retention :=
    (CasRetentionState.loadForAppend_of_stored (CasRetentionState.stored_of_load hload)).trans hload
  have htail : requireCurrentTailIntact key world db = .ok () := by
    simp only [requireCurrentTailIntact, hgeneration, hlatest, hprev, verifyTailEvent_of_signature hsignature, hbody,
      liftSql, liftBreak, Except.mapError, requireSome, ok_bind]
    exact hlive
  refine ⟨htail, ⟨⟨key, world, generation⟩, ?_⟩, fun allowEmpty => ⟨⟨key, world, generation⟩, ?_⟩⟩
  · simp only [verifyAppendableTailChecked, hgeneration, hloadForAppend, htail, liftSql, Except.mapError, ok_bind]
    rfl
  · have hcurrent : verifyCurrentTailBody db = .ok none := by
      rw [verifyCurrentTailBody, hlatest]
      exact hbody _
    simp only [verifyAppendableFull, hgeneration, hloadForAppend, hcurrent,
      requireStatementIntact_allowEmpty hstatement, hlive, liftSql, Except.mapError, ok_bind]
    rfl

omit [HashSuite] in
/-- The world with one replace passes every gate. -/
theorem gates_accept_replaced :
    letI := sha2Suite
    verifyWorldWithFileOp Sample.key Sample.world Sample.replaced = .ok () ∧
      requireCurrentTailIntact Sample.key Sample.world Sample.replaced = .ok () := by
  let _ := sha2Suite
  have hrep := Sample.represents_replaced
  have haccept := hrep.verifyWorldWithFileOp_eq (List.cons_ne_nil _ _)
  have hconforms : Sample.replaced.Conforms :=
    ⟨hrep.chain.uniqueIds, fun _ h => (by cases h), hrep.bodies.nodup⟩
  exact ⟨haccept, (gates_accept_verified hconforms haccept).1⟩

end AuditeDB
