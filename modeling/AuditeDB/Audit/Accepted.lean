import Mathlib
import AuditeDB.Audit.TamperEvidence
import AuditeDB.Audit.Accepts
import AuditeDB.Audit.Gate

/-!
# What an accepted table retains

The converse of acceptance: in an accepted table every body event from the floor on has its body among the
retained ones, with its size, and every retained body belongs to such an event.
-/

namespace AuditeDB

open Utf8 Results HashChain

variable {retention : CasRetentionState} {floor : TimelineSeq}

/-- A row whose body is listed among the retained ones with its size. -/
def EventRow.Listed (row : EventRow) (retention : CasRetentionState) (digest : BodySha256) : Prop :=
  digest.text = row.bodySha256 ∧ retention.bodies.lookup digest = some row.size

/-- The retention check passes over a row, or finds its body and notes it. -/
theorem verifyRetainedBody_inv (hfloor : retention.firstRetainedSeq = some floor) {row : EventRow}
    {kind : AuditEventKind} {idx : Nat} {state state' : VerifyAccumulator}
    (h : verifyRetainedBody row kind idx retention state = .ok state') :
    (¬ (floor.get ≤ row.id ∧ kind.bodyBearing = true) ∧
        state'.referencedRetainedBodies = state.referencedRetainedBodies) ∨
      (floor.get ≤ row.id ∧ kind.bodyBearing = true) ∧ ∃ digest, row.Listed retention digest ∧
        state'.referencedRetainedBodies = insert digest state.referencedRetainedBodies := by
  rw [verifyRetainedBody, hfloor] at h
  simp only at h
  obtain ⟨noted, hnoted, h⟩ := bind_eq_ok.mp h
  have hsame : noted.referencedRetainedBodies = state.referencedRetainedBodies := by
    unfold VerifyAccumulator.noteBodyEvent at hnoted
    split_ifs at hnoted
    · obtain ⟨seq, -, hnoted⟩ := bind_eq_ok.mp hnoted
      cases hnoted
      rfl
    · cases hnoted
      rfl
  obtain ⟨-, -, h⟩ := bind_eq_ok.mp h
  split_ifs at h with hskip
  · cases h
    refine .inl ⟨?_, hsame⟩
    rintro ⟨hle, hbearing⟩
    simp [hbearing, not_lt.mpr hle] at hskip
  · simp only [bind_eq_ok, pure_eq_ok, mapError_eq_ok, requireSome_eq_ok, rejectIf_eq_ok, not_not] at h
    obtain ⟨digest, hdigest, len, hlen, -, rfl, rfl⟩ := h
    refine .inr ⟨by simpa [not_lt] using hskip, digest, ⟨BodySha256.new_eq_ok hdigest, hlen⟩, ?_⟩
    rw [← hsame]
    rfl

section

variable [HashSuite] {key : AuditHmacKey} {world : ValidatedWorldPath} {generation : WorldGeneration}

/-- A walk finds the body of every retained row and notes no other bodies. -/
theorem foldlM_verifyEvent_retained (hfloor : retention.firstRetainedSeq = some floor)
    {events : List (EventRow × Headers)} {state final : VerifyAccumulator}
    (h : events.foldlM (verifyEvent key retention world generation) state = .ok final) :
    (∀ event ∈ events, event.1.Retained floor → ∃ digest, event.1.Listed retention digest) ∧
      ∀ digest ∈ final.referencedRetainedBodies, digest ∈ state.referencedRetainedBodies ∨
        ∃ event ∈ events, event.1.Retained floor ∧ event.1.Listed retention digest := by
  induction events generalizing state with
  | nil =>
    cases h
    exact ⟨fun _ h => (by cases h), fun _ h => .inl h⟩
  | cons event rest ih =>
    rw [List.foldlM_cons] at h
    obtain ⟨next, hnext, hrest⟩ := bind_eq_ok.mp h
    obtain ⟨hlisted, hnoted⟩ := ih hrest
    unfold verifyEvent at hnext
    simp only [bind_eq_ok, pure_eq_ok, verifySignature_eq_ok] at hnext
    obtain ⟨kind, ⟨-, timestamp, hsigned⟩, checked, hchecked, rfl⟩ := hnext
    have hkind : kind.bodyBearing = AuditEventKind.isBodyType (.text event.1.eventType) := by
      rw [AuditEventKind.asStr_of_fromStorage hsigned.known, AuditEventKind.isBodyType_asStr]
    have hstep := verifyRetainedBody_inv hfloor hchecked
    rw [hkind] at hstep
    rcases hstep with ⟨hskip, hsame⟩ | ⟨hretained, digest, hdigest, hsame⟩
    · refine ⟨List.forall_mem_cons.mpr ⟨fun h => absurd h hskip, hlisted⟩, fun digest hdigest => ?_⟩
      refine (hnoted digest hdigest).imp (fun h => hsame ▸ h) ?_
      exact fun ⟨event', hevent', h⟩ => ⟨event', List.mem_cons_of_mem _ hevent', h⟩
    · refine ⟨List.forall_mem_cons.mpr ⟨fun _ => ⟨digest, hdigest⟩, hlisted⟩, fun digest' hdigest' => ?_⟩
      rcases hnoted digest' hdigest' with hold | ⟨event', hevent', h⟩
      · rw [show (checked.advance generation event.1).referencedRetainedBodies =
          checked.referencedRetainedBodies from rfl, hsame, Finset.mem_insert] at hold
        rcases hold with rfl | hold
        · exact .inr ⟨event, List.mem_cons_self .., hretained, hdigest⟩
        · exact .inl hold
      · exact .inr ⟨event', List.mem_cons_of_mem _ hevent', h⟩

omit [HashSuite] in
/-- After an accepted completion every retained body was noted. -/
theorem verifyCompletion_inv {final : VerifyAccumulator} (h : verifyCompletion final retention = .ok ())
    (hlisted : ∀ digest ∈ final.referencedRetainedBodies, digest ∈ retention.bodies) :
    ∀ digest ∈ retention.bodies, digest ∈ final.referencedRetainedBodies := by
  unfold verifyCompletion at h
  simp only [bind_eq_ok, rejectIf_eq_ok, not_not] at h
  obtain ⟨-, -, hcard⟩ := h
  have hsubset : final.referencedRetainedBodies ⊆ retention.bodies.keys.toFinset := fun digest hdigest => by
    rw [List.mem_toFinset, ← AList.mem_keys]
    exact hlisted digest hdigest
  have hkeys : retention.bodies.keys.toFinset.card = retention.bodies.entries.length := by
    rw [List.toFinset_card_of_nodup retention.bodies.keys_nodup, AList.keys, List.keys, List.length_map]
  have heq := Finset.eq_of_subset_of_card_le hsubset (hkeys.trans hcard.symm).le
  intro digest hdigest
  rwa [heq, List.mem_toFinset, ← AList.mem_keys]

/-- What the verification of the chain says about a table with unique ids. -/
structure Database.Accepted (db : Database) (key : AuditHmacKey) (world : ValidatedWorldPath)
    (generation : WorldGeneration) (retention : CasRetentionState) (chain : List (EventRow × Headers)) :
    Prop where
  stored : AuditeDB.generation db = .ok generation
  load : CasRetentionState.load db = .ok retention
  decodes : db.DecodesTo key world generation chain
  retained : ∀ floor ∈ retention.firstRetainedSeq, ∀ event ∈ chain, event.1.Retained floor →
    ∃ digest, event.1.Listed retention digest
  referenced : ∀ floor ∈ retention.firstRetainedSeq, ∀ digest ∈ retention.bodies, ∃ event ∈ chain,
    event.1.Retained floor ∧ event.1.Listed retention digest

/-- The verification of a chain walks over its decoded events and completes after at least one. -/
theorem requireChainIntact_walk {db : Database} (hunique : db.UniqueIds)
    (h : requireChainIntact key world db = .ok ()) :
    ∃ generation retention chain final, AuditeDB.generation db = .ok generation ∧
      CasRetentionState.load db = .ok retention ∧
      List.Forall₂ (fun e d => db.decodeEvent e = .ok d) db.eventsAsc chain ∧
      chain.foldlM (verifyEvent key retention world generation) (.start retention none) = .ok final ∧
      verifyCompletion final retention = .ok () ∧ final.events ≠ 0 := by
  unfold requireChainIntact requireStatementIntact at h
  simp only [bind_eq_ok, liftSql_eq_ok] at h
  obtain ⟨generation, hgeneration, retention, hload, report, hreport, hvalid⟩ := h
  unfold verifyStatementCapture at hreport
  split at hreport
  case h_1 walked hwalked =>
    obtain ⟨final, hwalk, hfinish⟩ := bind_eq_ok.mp hwalked
    rw [Database.auditSelect_eq hunique,
      walkRows_flatMap (Database.eventsAsc_pairwise hunique) (fun _ h => (by cases h))] at hwalk
    obtain ⟨chain, hdecoded, hfold⟩ := hwalk
    unfold finishWalk liftBreak at hfinish
    simp only [bind_eq_ok, mapError_eq_ok, rejectIf_eq_ok] at hfinish
    obtain ⟨_, hcompletion, _, hsome, -⟩ := hfinish
    exact ⟨generation, retention, chain, final, hgeneration, hload, hdecoded, hfold, hcompletion,
      by simpa using hsome⟩
  · cases hreport
    exact absurd hvalid (by rintro ⟨⟩)
  · cases hreport

/-- A table with an intact chain decodes to it, and its retained bodies are those of the retained events. -/
theorem requireChainIntact_inv {db : Database} (hunique : db.UniqueIds)
    (h : requireChainIntact key world db = .ok ()) :
    ∃ generation retention chain, db.Accepted key world generation retention chain := by
  obtain ⟨generation, retention, chain, final, hgeneration, hload, hdecoded, hfold, hcompletion, -⟩ :=
    requireChainIntact_walk hunique h
  obtain ⟨hlinked, hsigned, -⟩ := foldlM_verifyEvent_signed hfold
  refine ⟨generation, retention, chain, hgeneration, hload, ⟨hdecoded, hlinked, hsigned⟩, ?_, ?_⟩
  · exact fun floor hfloor => (foldlM_verifyEvent_retained hfloor hfold).1
  · intro floor hfloor
    have hnoted := (foldlM_verifyEvent_retained hfloor hfold).2
    have hfrom : ∀ digest ∈ final.referencedRetainedBodies, ∃ event ∈ chain,
        event.1.Retained floor ∧ event.1.Listed retention digest :=
      fun digest hdigest => (hnoted digest hdigest).resolve_left (by simp [VerifyAccumulator.start])
    refine fun digest hdigest => hfrom digest (verifyCompletion_inv hcompletion ?_ digest hdigest)
    intro digest hdigest
    obtain ⟨event, -, -, -, hlookup⟩ := hfrom digest hdigest
    rw [← AList.lookup_isSome, hlookup]
    rfl

end

end AuditeDB
