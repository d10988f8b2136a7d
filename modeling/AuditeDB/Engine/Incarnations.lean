import Mathlib
import AuditeDB.Engine.Announcements

/-!
# The incarnations of a world

A world may be deleted and created again. Every creation starts an incarnation with a generation of its own, and the
rows of an incarnation are numbered from one on. The identities that were committed to a world are therefore those of
its incarnations one after the other.
-/

namespace AuditeDB

open Results Interleaving Traces

/-- The generation that an entry of the journal starts. -/
def JournalEntry.createdGeneration : JournalEntry → Option WorldGeneration
  | .created _ generation => some generation
  | .wrote _ _ _ _ _ _ | .stored _ _ _ | .logged _ _ | .removed _ _ => none

/-- Identities of one incarnation that are numbered from a count on. -/
def Numbered (generation : WorldGeneration) (count : Nat) (ids : List SubscriptionEventId) : Prop :=
  ∀ k (hk : k < ids.length), ids[k].generation = generation ∧ ids[k].seq.get = count + k + 1

section Numbered

variable {generation : WorldGeneration} {count : Nat} {ids more : List SubscriptionEventId}

/-- No identities. -/
theorem Numbered.nil : Numbered generation count [] := fun _ hk => absurd hk (Nat.not_lt_zero _)

/-- One identity. -/
theorem numbered_singleton {id : SubscriptionEventId} (hgeneration : id.generation = generation)
    (hseq : id.seq.get = count + 1) : Numbered generation count [id] := by
  intro k hk
  obtain rfl : k = 0 := by simpa using hk
  exact ⟨hgeneration, by simpa using hseq⟩

/-- The numbers go on. -/
theorem Numbered.append (h : Numbered generation count ids) (hmore : Numbered generation (count + ids.length) more) :
    Numbered generation count (ids ++ more) := by
  intro k hk
  rw [List.getElem_append]
  split
  · exact h k _
  · next hlater =>
    rw [List.length_append] at hk
    obtain ⟨hgeneration, hseq⟩ := hmore (k - ids.length) (by omega)
    refine ⟨hgeneration, ?_⟩
    rw [hseq]
    push_cast
    omega

/-- The generation and the bounds of numbered identities. -/
theorem Numbered.bounds (h : Numbered generation count ids) {id : SubscriptionEventId} (hid : id ∈ ids) :
    id.generation = generation ∧ count < id.seq.get ∧ id.seq.get ≤ count + ids.length := by
  obtain ⟨k, hk, rfl⟩ := List.mem_iff_getElem.mp hid
  obtain ⟨hgeneration, hseq⟩ := h k hk
  exact ⟨hgeneration, by omega, by omega⟩

/-- Numbered identities ascend. -/
theorem Numbered.ascending (h : Numbered generation count ids) :
    ids.Pairwise fun a b => a.seq.get < b.seq.get := by
  rw [List.pairwise_iff_getElem]
  intro i j hi hj hij
  rw [(h i hi).2, (h j hj).2]
  omega

end Numbered

section Moves

variable [HashSuite] {key : AuditHmacKey} {did : Nat → Operation → Prop} {world : ValidatedWorldPath}
  {log log' : WorldLog} {labels : List JournalEntry} {state state' : Option WorldLog}

/-- The identities of the row of a format event, if there is one, and of the row behind it. -/
theorem Opening.numbered {entries opening : List LogEntry} {generation : WorldGeneration}
    {formatEvent : Option AppendedAuditRow} (h : Opening key world generation entries formatEvent opening)
    {id : SubscriptionEventId} (hgeneration : id.generation = generation)
    (hseq : id.seq.get = (entries ++ opening).length + 1) :
    Numbered generation entries.length ((formatEvent.map AppendedAuditRow.eventId).toList ++ [id]) ∧
      ((formatEvent.map AppendedAuditRow.eventId).toList ++ [id]).length = opening.length + 1 := by
  cases h with
  | existing =>
    refine ⟨numbered_singleton hgeneration ?_, rfl⟩
    rwa [List.append_nil] at hseq
  | format _ _ hrecords =>
    refine ⟨.append (numbered_singleton ?_ hrecords.seq) (numbered_singleton hgeneration ?_), rfl⟩
    · rw [AppendedAuditRow.eventId, hrecords.fields]
    · rw [hseq]
      simp

/-- A write numbers its rows behind those of the history. -/
theorem Written.numbered {kind : AuditEventKind} {body : Bytes} {contentType : String} {headers : Headers}
    {result : WriteAuditResult} (h : Written key world kind body contentType headers result log log') (caller : Nat)
    (opened : OpenedWorldKind) (before after : Database) :
    let ids := JournalEntry.eventIds (.wrote caller world opened before result after)
    Numbered log.generation log.entries.length ids ∧ log'.entries.length = log.entries.length + ids.length := by
  obtain ⟨opening, timestamp, hopening, hentries, hrecords⟩ := h.entries
  have hgeneration : result.bodyEvent.timelineAddress.eventId.generation = log.generation := by
    rw [AppendedAuditRow.timelineAddress, hrecords.fields]
    rfl
  obtain ⟨hnumbered, hlength⟩ := hopening.numbered hgeneration hrecords.seq
  refine ⟨hnumbered, ?_⟩
  rw [JournalEntry.eventIds, hlength, hentries]
  simp

/-- A step of a world that exists before and after it numbers its rows behind those of the history. -/
theorem LogStep.numbered {entry : JournalEntry} (h : LogStep key did world (some log) entry (some log')) :
    log'.generation = log.generation ∧ Numbered log.generation log.entries.length entry.eventIds ∧
      log'.entries.length = log.entries.length + entry.eventIds.length ∧ entry.createdGeneration = none := by
  cases h with
  | @wrote _ operation _ _ _ _ _ _ _ _ _ _ _ _ hwrites =>
    cases operation with
    | replace =>
      obtain ⟨hnumbered, hlength⟩ := hwrites.1.numbered _ _ _ _
      exact ⟨hwrites.1.generation, hnumbered, hlength, rfl⟩
    | append =>
      obtain ⟨_, _, hwritten, -⟩ := hwrites
      obtain ⟨hnumbered, hlength⟩ := hwritten.numbered _ _ _ _
      exact ⟨hwritten.generation, hnumbered, hlength, rfl⟩
    | delete => exact hwrites.elim
  | @logged _ _ event _ _ _ _ hlogs =>
    obtain ⟨opening, timestamp, row, hopening, rfl, hevent, hrecords⟩ := hlogs.entries
    have hid : event.eventId = row.eventId := by rw [hevent]; rfl
    have hgeneration : event.eventId.generation = log.generation := by
      rw [hid, AppendedAuditRow.eventId, hrecords.fields]
    have hseq : event.eventId.seq.get = (log.entries ++ opening).length + 1 := by
      rw [hid]
      exact hrecords.seq
    obtain ⟨hnumbered, hlength⟩ := hopening.numbered hgeneration hseq
    refine ⟨rfl, hnumbered, ?_, rfl⟩
    rw [JournalEntry.eventIds, hlength]
    simp

/-- How a run of a world goes on from an incarnation: it is still there, with more rows, or it is over, and whatever
comes behind it belongs to generations that were created since. -/
inductive Continues (generation : WorldGeneration) (count : Nat) (labels : List JournalEntry) :
    List SubscriptionEventId → List SubscriptionEventId → Option WorldLog → Prop where
  | going {ids : List SubscriptionEventId} {log : WorldLog} (hgeneration : log.generation = generation)
      (hcount : log.entries.length = count + ids.length) : Continues generation count labels ids [] (some log)
  | ended {ids others : List SubscriptionEventId} {state : Option WorldLog}
      (hothers : ∀ id ∈ others, id.generation ∈ labels.filterMap JournalEntry.createdGeneration)
      (hstate : ∀ log ∈ state, log.generation ∈ labels.filterMap JournalEntry.createdGeneration) :
      Continues generation count labels ids others state

/-- One more step. -/
theorem Continues.step {generation : WorldGeneration} {count : Nat} {ids others : List SubscriptionEventId}
    {entry : JournalEntry} (h : Continues generation count labels ids others state)
    (hnumbered : Numbered generation count ids) (hstep : LogStep key did world state entry state') :
    ∃ ids' others', ids ++ others ++ entry.eventIds = ids' ++ others' ∧ Numbered generation count ids' ∧
      Continues generation count (labels ++ [entry]) ids' others' state' := by
  have hmono : ∀ {g}, g ∈ labels.filterMap JournalEntry.createdGeneration →
      g ∈ (labels ++ [entry]).filterMap JournalEntry.createdGeneration := by
    intro g hg
    rw [List.filterMap_append]
    exact List.mem_append_left _ hg
  cases hstate' : state' with
  | none =>
    -- only a removal leads to an absent world
    subst hstate'
    have hnil : entry.eventIds = [] := by
      cases hstep
      rfl
    refine ⟨ids, others, by rw [hnil, List.append_nil], hnumbered, .ended ?_ nofun⟩
    cases h with
    | going => nofun
    | ended hothers => exact fun id hid => hmono (hothers id hid)
  | some log' =>
    subst hstate'
    cases state with
    | none =>
      cases hstep
      refine ⟨ids, others, by rw [JournalEntry.eventIds, List.append_nil], hnumbered, .ended ?_ ?_⟩
      · cases h with
        | ended hothers => exact fun id hid => hmono (hothers id hid)
      · rintro _ ⟨⟩
        simp [JournalEntry.createdGeneration, WorldLog.created]
    | some log =>
      obtain ⟨hgeneration, hrows, hlength, -⟩ := hstep.numbered
      cases h with
      | going hsame hcount =>
        refine ⟨ids ++ entry.eventIds, [], by simp, hnumbered.append ?_, .going (hgeneration.trans hsame) ?_⟩
        · rwa [hsame, hcount] at hrows
        · rw [hlength, hcount, List.length_append, Nat.add_assoc]
      | ended hothers hstate =>
        refine ⟨ids, others ++ entry.eventIds, by rw [List.append_assoc], hnumbered, .ended ?_ ?_⟩
        · intro id hid
          rcases List.mem_append.mp hid with hid | hid
          · exact hmono (hothers id hid)
          · rw [(hrows.bounds hid).1]
            exact hmono (hstate log rfl)
        · rintro _ ⟨⟩
          rw [hgeneration]
          exact hmono (hstate log rfl)

end Moves

/-- The identities of a world at a moment and later, around the incarnation that is there at the moment: those of
earlier incarnations, those it has, those it still gets, and those of later incarnations. -/
structure AroundIncarnation (generation : WorldGeneration) (now later older current more others :
    List SubscriptionEventId) : Prop where
  now_eq : now = older ++ current
  later_eq : later = older ++ current ++ more ++ others
  numbered : Numbered generation 0 current
  goesOn : Numbered generation current.length more
  earlier : ∀ id ∈ older, id.generation ≠ generation
  behind : ∀ id ∈ others, id.generation ≠ generation

section Runs

variable [HashSuite] {n : Nat} {calls : Calls n} {pool later : Pool (Fin n) Core CallError Reply}
  {world : ValidatedWorldPath} {db : Database}

end Runs

end AuditeDB
