import Mathlib
import AuditeDB.Audit.Gate
import AuditeDB.Audit.TamperEvidence

/-!
# Walks over tables with repeated ids

The shape check does not fix the definition of `events`, so row ids may repeat. The walk then collects all
joined rows of one id into one event and checks the columns of the first of them only.
-/

namespace AuditeDB

open Utf8 Results HashChain Sorting

/-- The events that the loop of `verify_statement_capture` collects and checks, in order. -/
def groupRows : List JoinedRow → Option (EventRow × Headers) → SqlResult (List (EventRow × Headers))
  | [], current => pure current.toList
  | joined :: rows, current => do
    let row ← joined.event.read
    let name ← joined.name.getOptionString
    let value ← joined.value.getOptionString
    let (event, headers) := (current.filter fun event => event.1.id = row.id).getD (row, [])
    let chain ← groupRows rows (some (event, pushHeader headers name value))
    pure ((current.filter fun event => event.1.id ≠ row.id).toList ++ chain)

/-- The headers that were collected for an id before the remaining rows. -/
def collected (current : Option (EventRow × Headers)) (id : Int) : Headers :=
  ((current.filter fun event => event.1.id = id).map Prod.snd).getD []

/-- The event that is being collected has its headers, and other ids have none. -/
@[simp] theorem collected_some (c : EventRow × Headers) (id : Int) :
    collected (some c) id = if c.1.id = id then c.2 else [] := by
  unfold collected Option.filter
  split_ifs <;> simp_all

/-- What the walk collects from rows in order: ascending ids, the columns of one row of each id, and the
headers of all of them. -/
structure Collects (rows : List JoinedRow) (current : Option (EventRow × Headers))
    (chain : List (EventRow × Headers)) : Prop where
  ascending : chain.Pairwise fun a b => a.1.id < b.1.id
  columns : ∀ event ∈ chain, (∃ c ∈ current, c.1 = event.1) ∨ ∃ r ∈ rows, r.event.read = .ok event.1
  headers : ∀ event ∈ chain,
    decodeHeaders (collected current event.1.id) (rows.filter (·.event.id = event.1.id)) = .ok event.2
  kept : ∀ c ∈ current, ∃ event ∈ chain, event.1 = c.1
  covers : ∀ r ∈ rows, ∃ event ∈ chain, event.1.id = r.event.id

/-- A header with a name and a value extends the collected headers. -/
theorem decodeHeaders_cons {headers decoded : Headers} {row : JoinedRow} {rows : List JoinedRow}
    {name value : Option String} (hname : row.name.getOptionString = .ok name)
    (hvalue : row.value.getOptionString = .ok value) :
    decodeHeaders headers (row :: rows) = .ok decoded ↔
      decodeHeaders (pushHeader headers name value) rows = .ok decoded := by
  rw [decodeHeaders, List.foldlM_cons, hname, hvalue]
  rfl

section

variable {joined : JoinedRow} {rows : List JoinedRow} {row : EventRow} {name value : Option String}
  {chain : List (EventRow × Headers)} (hname : joined.name.getOptionString = .ok name)
  (hvalue : joined.value.getOptionString = .ok value)

include hname hvalue

/-- Another row of the event that is being collected adds its header. -/
theorem Collects.same {c : EventRow × Headers} (hid : c.1.id = joined.event.id)
    (h : Collects rows (some (c.1, pushHeader c.2 name value)) chain) :
    Collects (joined :: rows) (some c) chain := by
  refine ⟨h.ascending, fun event hevent => ?_, fun event hevent => ?_, by simpa using h.kept, fun r hr => ?_⟩
  · exact (h.columns event hevent).imp (by simp) fun ⟨r, hr, hread⟩ => ⟨r, List.mem_cons_of_mem _ hr, hread⟩
  · have hheaders := h.headers event hevent
    by_cases hsame : joined.event.id = event.1.id
    · rw [List.filter_cons_of_pos (by simpa using hsame), decodeHeaders_cons hname hvalue]
      simpa [hid, hsame] using hheaders
    · rw [List.filter_cons_of_neg (by simpa using hsame)]
      simpa [hid, hsame] using hheaders
  · rcases List.mem_cons.mp hr with rfl | hr
    · obtain ⟨event, hevent, hrow⟩ := h.kept _ rfl
      exact ⟨event, hevent, by rw [hrow, hid]⟩
    · exact h.covers r hr

/-- A row of a new id finishes the event that was being collected. -/
theorem Collects.next {current : Option (EventRow × Headers)} (hread : joined.event.read = .ok row)
    (hlt : ∀ c ∈ current, c.1.id < joined.event.id) (hle : ∀ r ∈ rows, joined.event.id ≤ r.event.id)
    (h : Collects rows (some (row, pushHeader [] name value)) chain) :
    Collects (joined :: rows) current (current.toList ++ chain) := by
  have hid : row.id = joined.event.id := EventRecord.id_of_read hread
  have hfrom : ∀ event ∈ chain, joined.event.id ≤ event.1.id := by
    intro event hevent
    rcases h.columns event hevent with ⟨c, hc, hrow⟩ | ⟨r, hr, hrow⟩
    · cases hc
      rw [← hrow, hid]
    · rw [EventRecord.id_of_read hrow]
      exact hle r hr
  refine ⟨?_, fun event hevent => ?_, fun event hevent => ?_, fun c hc => ?_, fun r hr => ?_⟩
  · rw [List.pairwise_append]
    refine ⟨by cases current <;> simp, h.ascending, fun c hc event hevent => ?_⟩
    exact (hlt c (by simpa using hc)).trans_le (hfrom event hevent)
  · rcases List.mem_append.mp hevent with hevent | hevent
    · exact .inl ⟨event, by simpa using hevent, rfl⟩
    · rcases h.columns event hevent with ⟨c, hc, hrow⟩ | ⟨r, hr, hrow⟩
      · cases hc
        exact .inr ⟨joined, List.mem_cons_self .., hrow ▸ hread⟩
      · exact .inr ⟨r, List.mem_cons_of_mem _ hr, hrow⟩
  · rcases List.mem_append.mp hevent with hevent | hnew
    · -- no remaining row has the id of the finished event
      have hcurrent : current = some event := by simpa using hevent
      have hbelow := hlt event hcurrent
      have hnone : (joined :: rows).filter (·.event.id = event.1.id) = [] := by
        rw [List.filter_eq_nil_iff]
        intro r hr
        rcases List.mem_cons.mp hr with rfl | hr
        · simpa using hbelow.ne'
        · simpa using (hbelow.trans_le (hle r hr)).ne'
      rw [hnone, hcurrent]
      simp [decodeHeaders, pure, Except.pure]
    · have hfresh : collected current event.1.id = [] := by
        cases current with
        | none => rfl
        | some c => rw [collected_some, if_neg ((hlt c rfl).trans_le (hfrom event hnew)).ne]
      have hheaders := h.headers event hnew
      rw [hfresh]
      by_cases hsame : joined.event.id = event.1.id
      · rw [List.filter_cons_of_pos (by simpa using hsame), decodeHeaders_cons hname hvalue]
        simpa [hid, hsame] using hheaders
      · rw [List.filter_cons_of_neg (by simpa using hsame)]
        simpa [hid, hsame] using hheaders
  · exact ⟨c, by simp [Option.mem_def.mp hc], rfl⟩
  · rcases List.mem_cons.mp hr with rfl | hr
    · obtain ⟨event, hevent, hrow⟩ := h.kept _ rfl
      exact ⟨event, List.mem_append_right _ hevent, by rw [hrow, hid]⟩
    · obtain ⟨event, hevent, hsame⟩ := h.covers r hr
      exact ⟨event, List.mem_append_right _ hevent, hsame⟩

end

/-- The walk collects the events of ordered rows. -/
theorem groupRows_collects {rows : List JoinedRow} {current : Option (EventRow × Headers)}
    {chain : List (EventRow × Headers)} (h : groupRows rows current = .ok chain)
    (hsorted : rows.Pairwise fun a b => a.event.id ≤ b.event.id)
    (hcurrent : ∀ c ∈ current, ∀ r ∈ rows, c.1.id ≤ r.event.id) : Collects rows current chain := by
  induction rows generalizing current chain with
  | nil =>
    cases h
    cases current with
    | none => exact ⟨.nil, by simp, by simp, by simp, by simp⟩
    | some event =>
      refine ⟨List.pairwise_singleton _ _, by simp, ?_, by simp, by simp⟩
      simp [decodeHeaders, pure, Except.pure]
  | cons joined rows ih =>
    obtain ⟨hfirst, hsorted⟩ := List.pairwise_cons.mp hsorted
    rw [groupRows] at h
    simp only [bind_eq_ok, pure_eq_ok] at h
    obtain ⟨row, hrow, name, hname, value, hvalue, rest, hrest, rfl⟩ := h
    have hid : row.id = joined.event.id := EventRecord.id_of_read hrow
    by_cases hsame : ∃ c ∈ current, c.1.id = row.id
    · obtain ⟨c, rfl, hc⟩ := hsame
      simp only [Option.filter, hc, decide_true, if_true, Option.getD_some, ne_eq, not_true, decide_false,
        Bool.false_eq_true, if_false, Option.toList_none, List.nil_append] at hrest ⊢
      refine .same hname hvalue (hc.trans hid) (ih hrest hsorted ?_)
      rintro _ ⟨⟩ r hr
      exact (hc.trans hid).trans_le (hfirst r hr)
    · have hne : ∀ c ∈ current, c.1.id ≠ row.id := fun c hc heq => hsame ⟨c, hc, heq⟩
      have hfinished : current.filter (fun event => event.1.id ≠ row.id) = current := by
        cases current with
        | none => rfl
        | some c => simp [Option.filter, hne c rfl]
      have hnew : current.filter (fun event => event.1.id = row.id) = none := by
        cases current with
        | none => rfl
        | some c => simp [Option.filter, hne c rfl]
      simp only [hfinished, hnew, Option.getD_none] at hrest ⊢
      refine .next hname hvalue hrow (fun c hc => ?_) hfirst (ih hrest hsorted ?_)
      · exact lt_of_le_of_ne (hcurrent c hc joined (List.mem_cons_self ..)) (hid ▸ hne c hc)
      · rintro _ ⟨⟩ r hr
        exact hid.trans_le (hfirst r hr)

section

variable [HashSuite] {key : AuditHmacKey} {retention : CasRetentionState} {world : ValidatedWorldPath}
  {generation : WorldGeneration}

/-- The walk collects events and folds the event check over them. -/
theorem walkRows_eq_ok {rows : List JoinedRow} {current : Option (EventRow × Headers)}
    {state final : VerifyAccumulator} :
    walkRows key retention world generation rows current state = .ok final ↔
      ∃ chain, groupRows rows current = .ok chain ∧
        chain.foldlM (verifyEvent key retention world generation) state = .ok final := by
  induction rows generalizing current state with
  | nil => simp [walkRows, groupRows, finishEvent_eq_ok, pure_eq_ok]
  | cons joined rows ih =>
    rw [walkRows, groupRows]
    simp only [bind_eq_ok, liftSql_eq_ok, finishEvent_eq_ok, ih, pure_eq_ok]
    constructor
    · rintro ⟨row, hrow, middle, hmiddle, name, hname, value, hvalue, chain, hchain, hfold⟩
      refine ⟨_, ⟨row, hrow, name, hname, value, hvalue, chain, hchain, rfl⟩, ?_⟩
      rw [List.foldlM_append]
      exact bind_eq_ok.mpr ⟨middle, hmiddle, hfold⟩
    · rintro ⟨_, ⟨row, hrow, name, hname, value, hvalue, chain, hchain, rfl⟩, hfold⟩
      rw [List.foldlM_append] at hfold
      obtain ⟨middle, hmiddle, hfold⟩ := bind_eq_ok.mp hfold
      exact ⟨row, hrow, middle, hmiddle, name, hname, value, hvalue, chain, hchain, hfold⟩

end

end AuditeDB
