import Mathlib
import AuditeDB.Audit.Verifier
import AuditeDB.Library.Sorting

/-!
# Grouping the joined rows

When row ids are unique, the ordered join lists the rows of one event after the other. The walk over it is
then a fold of the event check over the decoded events.
-/

namespace AuditeDB

open Utf8 Sorting

/-- Row ids of `events` are unique, as the primary key of the table demands. -/
def Database.UniqueIds (db : Database) : Prop := (db.events.map EventRecord.id).Nodup

instance (db : Database) : Decidable db.UniqueIds := inferInstanceAs (Decidable (List.Nodup _))

/-- The joined rows of one event in order. -/
def Database.sortedHeaders (db : Database) (e : EventRecord) : List JoinedRow :=
  (db.joinHeaders e).insertionSort fun a b => a.headerKey ≤ b.headerKey

/-- The rows that the join makes of one event carry that event. -/
theorem Database.event_of_mem_joinHeaders {db : Database} {e : EventRecord} {row : JoinedRow}
    (h : row ∈ db.joinHeaders e) : row.event = e := by
  unfold Database.joinHeaders at h
  split at h
  · rw [List.mem_singleton.mp h]
  · obtain ⟨header, -, rfl⟩ := List.mem_map.mp h
    rfl

/-- The join keeps an event without headers. -/
theorem Database.joinHeaders_ne_nil (db : Database) (e : EventRecord) : db.joinHeaders e ≠ [] := by
  unfold Database.joinHeaders
  split
  · exact List.cons_ne_nil _ _
  · next h => simpa using h

/-- The events in order have ascending row ids. -/
theorem Database.eventsAsc_pairwise {db : Database} (hunique : db.UniqueIds) :
    db.eventsAsc.Pairwise fun a b => a.id < b.id := by
  have hle : db.eventsAsc.Pairwise fun a b => a.id ≤ b.id := by
    have htotal : Std.Total fun a b : EventRecord => a.id ≤ b.id := ⟨fun a b => le_total a.id b.id⟩
    have htrans : IsTrans EventRecord fun a b => a.id ≤ b.id := ⟨fun _ _ _ => le_trans⟩
    exact List.pairwise_insertionSort _ _
  have hnodup : (db.eventsAsc.map EventRecord.id).Nodup :=
    ((List.perm_insertionSort _ _).map EventRecord.id).nodup_iff.mpr hunique
  rw [List.Nodup, List.pairwise_map] at hnodup
  exact (hle.and hnodup).imp fun h => lt_of_le_of_ne h.1 h.2

/-- With unique ids the ordered join lists the events one after the other. -/
theorem Database.auditSelect_eq {db : Database} (hunique : db.UniqueIds) :
    db.auditSelect = db.eventsAsc.flatMap db.sortedHeaders := by
  have hasc := Database.eventsAsc_pairwise hunique
  unfold Database.auditSelect
  generalize db.eventsAsc = events at hasc
  induction events with
  | nil => rfl
  | cons e rest ih =>
    obtain ⟨hhead, htail⟩ := List.pairwise_cons.mp hasc
    rw [List.flatMap_cons, List.flatMap_cons, insertionSort_append, ih htail]
    · congr 1
      refine insertionSort_congr fun a ha b hb => ?_
      rw [event_of_mem_joinHeaders ha, event_of_mem_joinHeaders hb, Prod.Lex.toLex_le_toLex]
      simp
    · intro a ha b hb
      obtain ⟨e', he', hb⟩ := List.mem_flatMap.mp hb
      rw [event_of_mem_joinHeaders ha, event_of_mem_joinHeaders hb, Prod.Lex.toLex_le_toLex]
      exact .inl (hhead e' he')

/-- The rows of one event carry that event. -/
theorem Database.event_of_mem_sortedHeaders {db : Database} {e : EventRecord} {row : JoinedRow}
    (h : row ∈ db.sortedHeaders e) : row.event = e :=
  event_of_mem_joinHeaders ((List.mem_insertionSort _).mp h)

/-- Every event has at least one row. -/
theorem Database.sortedHeaders_ne_nil (db : Database) (e : EventRecord) : db.sortedHeaders e ≠ [] := by
  intro h
  have hlength := List.length_insertionSort (fun a b : JoinedRow => a.headerKey ≤ b.headerKey)
    (db.joinHeaders e)
  rw [show (db.joinHeaders e).insertionSort _ = [] from h] at hlength
  exact db.joinHeaders_ne_nil e (List.length_eq_zero_iff.mp hlength.symm)

/-- The headers that joined rows add to those collected before. -/
def decodeHeaders (headers : Headers) (rows : List JoinedRow) : SqlResult Headers :=
  rows.foldlM (fun headers row => do
    let name ← row.name.getOptionString
    let value ← row.value.getOptionString
    pure (pushHeader headers name value)) headers

/-- A decoded event: its columns and its headers with a name and a value. -/
def Database.decodeEvent (db : Database) (e : EventRecord) : SqlResult (EventRow × Headers) := do
  let row ← e.read
  let headers ← decodeHeaders [] (db.sortedHeaders e)
  pure (row, headers)

/-- Reading a row keeps its id. -/
theorem EventRecord.id_of_read {e : EventRecord} {row : EventRow} (h : e.read = .ok row) :
    row.id = e.id := by
  rw [EventRecord.read_eq_ok.mp h]
  rfl

/-- A decoded event is its read columns and its collected headers. -/
theorem Database.decodeEvent_eq_ok {db : Database} {e : EventRecord} {decoded : EventRow × Headers} :
    db.decodeEvent e = .ok decoded ↔
      e.read = .ok decoded.1 ∧ decodeHeaders [] (db.sortedHeaders e) = .ok decoded.2 := by
  unfold Database.decodeEvent
  rw [Results.bind_eq_ok]
  constructor
  · rintro ⟨row, hread, h⟩
    obtain ⟨headers, hheaders, h⟩ := Results.bind_eq_ok.mp h
    cases h
    exact ⟨hread, hheaders⟩
  · rintro ⟨hread, hheaders⟩
    exact ⟨_, hread, Results.bind_eq_ok.mpr ⟨_, hheaders, rfl⟩⟩

section

variable [HashSuite] {key : AuditHmacKey} {retention : CasRetentionState} {world : ValidatedWorldPath}
  {generation : WorldGeneration}

/-- Later rows of the event that is being collected only add headers. -/
theorem walkRows_same {e : EventRecord} {row : EventRow} (hread : e.read = .ok row)
    {group rest : List JoinedRow} (hgroup : ∀ r ∈ group, r.event = e) (headers : Headers)
    (state : VerifyAccumulator) :
    walkRows key retention world generation (group ++ rest) (some (row, headers)) state =
      liftSql (decodeHeaders headers group) >>= fun headers =>
        walkRows key retention world generation rest (some (row, headers)) state := by
  induction group generalizing headers with
  | nil => rfl
  | cons r group ih =>
    obtain ⟨hr, hgroup⟩ := List.forall_mem_cons.mp hgroup
    rw [List.cons_append, walkRows, hr, hread]
    simp only [liftSql, Except.mapError, Results.ok_bind, Option.filter, ne_eq, not_true, decide_false,
      decide_true, Bool.false_eq_true, if_false, if_true, Option.getD_some]
    rw [decodeHeaders, List.foldlM_cons]
    cases hname : r.name.getOptionString with
    | error error => rfl
    | ok name => cases hvalue : r.value.getOptionString with
      | error error => rfl
      | ok value => exact ih hgroup _

/-- The rows of a new event finish the previous one and collect the new one. -/
theorem walkRows_group {e : EventRecord} {row : EventRow} (hread : e.read = .ok row)
    {group rest : List JoinedRow} (hgroup : ∀ r ∈ group, r.event = e) (hne : group ≠ [])
    {current : Option (EventRow × Headers)} (hcurrent : ∀ event ∈ current, event.1.id ≠ e.id)
    (state : VerifyAccumulator) :
    walkRows key retention world generation (group ++ rest) current state =
      finishEvent key retention world generation current state >>= fun state =>
        liftSql (decodeHeaders [] group) >>= fun headers =>
          walkRows key retention world generation rest (some (row, headers)) state := by
  obtain ⟨r, group, rfl⟩ := List.exists_cons_of_ne_nil hne
  obtain ⟨hr, hgroup⟩ := List.forall_mem_cons.mp hgroup
  have hid := EventRecord.id_of_read hread
  have hfinished : (current.filter fun event => event.1.id ≠ row.id) = current := by
    cases current with
    | none => rfl
    | some event => simp [Option.filter, hid, hcurrent event rfl]
  have hkept : (current.filter fun event => event.1.id = row.id) = none := by
    cases current with
    | none => rfl
    | some event => simp [Option.filter, hid, hcurrent event rfl]
  rw [List.cons_append, walkRows, hr, hread]
  simp only [liftSql, Except.mapError, Results.ok_bind, hfinished, hkept, Option.getD_none]
  congr 1
  funext state
  rw [decodeHeaders, List.foldlM_cons]
  cases hname : r.name.getOptionString with
  | error error => rfl
  | ok name => cases hvalue : r.value.getOptionString with
    | error error => rfl
    | ok value => exact walkRows_same hread hgroup _ _

/-- A walk that succeeds has read every event. -/
theorem walkRows_read {e : EventRecord} {group rest : List JoinedRow} (hgroup : ∀ r ∈ group, r.event = e)
    (hne : group ≠ []) {current : Option (EventRow × Headers)} {state final : VerifyAccumulator}
    (h : walkRows key retention world generation (group ++ rest) current state = .ok final) :
    ∃ row, e.read = .ok row := by
  obtain ⟨r, group, rfl⟩ := List.exists_cons_of_ne_nil hne
  rw [List.cons_append, walkRows, (List.forall_mem_cons.mp hgroup).1] at h
  cases hread : e.read with
  | ok row => exact ⟨row, rfl⟩
  | error error => rw [hread] at h; cases h

/-- The end of the walk folds the event check over the event that was being collected. -/
theorem finishEvent_eq_ok {current : Option (EventRow × Headers)} {state final : VerifyAccumulator} :
    finishEvent key retention world generation current state = .ok final ↔
      current.toList.foldlM (verifyEvent key retention world generation) state = .ok final := by
  cases current with
  | none => simp [finishEvent, pure, Except.pure]
  | some event =>
    simp only [finishEvent, Option.toList_some, List.foldlM_cons, List.foldlM_nil]
    cases verifyEvent key retention world generation state event <;>
      simp [liftBreak, Except.mapError, bind, Except.bind, pure, Except.pure]

/-- A walk over the rows of ascending events succeeds exactly when the events decode and the fold of the
event check over them succeeds. -/
theorem walkRows_flatMap {db : Database} {events : List EventRecord}
    (hasc : events.Pairwise fun a b => a.id < b.id) {current : Option (EventRow × Headers)}
    (hcurrent : ∀ event ∈ current, ∀ e ∈ events, event.1.id < e.id) {state final : VerifyAccumulator} :
    walkRows key retention world generation (events.flatMap db.sortedHeaders) current state = .ok final ↔
      ∃ decoded, List.Forall₂ (fun e d => db.decodeEvent e = .ok d) events decoded ∧
        (current.toList ++ decoded).foldlM (verifyEvent key retention world generation) state =
          .ok final := by
  induction events generalizing current state with
  | nil => simp [walkRows, finishEvent_eq_ok]
  | cons e rest ih =>
    obtain ⟨hhead, htail⟩ := List.pairwise_cons.mp hasc
    have hgroup : ∀ r ∈ db.sortedHeaders e, r.event = e := fun r hr => Database.event_of_mem_sortedHeaders hr
    have hne := db.sortedHeaders_ne_nil e
    have hcur : ∀ event ∈ current, event.1.id ≠ e.id := fun event hevent =>
      ne_of_lt (hcurrent event hevent e (List.mem_cons_self ..))
    have hnext : ∀ row, e.read = .ok row → ∀ headers : Headers, ∀ event ∈ some (row, headers), ∀ e' ∈ rest,
        event.1.id < e'.id := by
      intro row hread headers event hevent e' he'
      cases hevent
      exact EventRecord.id_of_read hread ▸ hhead e' he'
    rw [List.flatMap_cons]
    constructor
    · intro h
      obtain ⟨row, hread⟩ := walkRows_read hgroup hne h
      rw [walkRows_group hread hgroup hne hcur] at h
      obtain ⟨middle, hfinish, h⟩ := Results.bind_eq_ok.mp h
      obtain ⟨headers, hheaders, h⟩ := Results.bind_eq_ok.mp h
      obtain ⟨decoded, hdecoded, hfold⟩ := (ih htail (hnext row hread headers)).mp h
      refine ⟨(row, headers) :: decoded, .cons ?_ hdecoded, ?_⟩
      · exact Database.decodeEvent_eq_ok.mpr ⟨hread, liftSql_eq_ok.mp hheaders⟩
      · rw [List.foldlM_append]
        exact Results.bind_eq_ok.mpr ⟨middle, finishEvent_eq_ok.mp hfinish, hfold⟩
    · rintro ⟨_, hdecoded, hfold⟩
      obtain ⟨first, decoded, hfirst, hrest, rfl⟩ := List.forall₂_cons_left_iff.mp hdecoded
      obtain ⟨hread, hheaders⟩ := Database.decodeEvent_eq_ok.mp hfirst
      rw [List.foldlM_append] at hfold
      obtain ⟨middle, hfinish, hfold⟩ := Results.bind_eq_ok.mp hfold
      rw [walkRows_group hread hgroup hne hcur]
      refine Results.bind_eq_ok.mpr ⟨middle, finishEvent_eq_ok.mpr hfinish, ?_⟩
      refine Results.bind_eq_ok.mpr ⟨first.2, liftSql_eq_ok.mpr hheaders, ?_⟩
      exact (ih htail (hnext first.1 hread first.2)).mpr ⟨decoded, hrest, hfold⟩

end

end AuditeDB
