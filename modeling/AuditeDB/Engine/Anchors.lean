import Mathlib
import AuditeDB.Audit.Stamps
import AuditeDB.Engine.Versions

/-!
# Stamps as anchors

A stamp that was read from a world stays valid: as long as the world is not removed and created again, later writes
only extend its history, and the rows of a longer history start with those of a shorter one.
-/

namespace AuditeDB

open Utf8 Results Interleaving Traces

section

variable [HashSuite] {key : AuditHmacKey} {did : Nat → Operation → Prop} {world : ValidatedWorldPath}
  {generation : WorldGeneration} {log log' : WorldLog} {labels : List JournalEntry} {entry : JournalEntry}

/-- A longer history starts with the rows of a shorter one. -/
theorem render_mono {entries entries' : List LogEntry} (h : entries <+: entries') :
    render key world generation entries <+: render key world generation entries' := by
  obtain ⟨more, rfl⟩ := h
  induction more using List.reverseRecOn with
  | nil => rw [List.append_nil]
  | append_singleton more e ih =>
    rw [← List.append_assoc, render_append]
    exact ih.trans (List.prefix_append _ _)

/-- Within one generation every move extends the history. -/
theorem LogStep.extends (h : LogStep key did world (some log) entry (some log')) :
    log'.generation = log.generation ∧ log.entries <+: log'.entries := by
  have hwritten : ∀ {kind : AuditEventKind} {body : Bytes} {contentType : String} {headers : Headers}
      {result : WriteAuditResult}, Written key world kind body contentType headers result log log' →
      log'.generation = log.generation ∧ log.entries <+: log'.entries := by
    intro kind body contentType headers result hwritten
    obtain ⟨opening, timestamp, -, hentries, -⟩ := hwritten.entries
    rw [hentries, List.append_assoc]
    exact ⟨hwritten.generation, List.prefix_append _ _⟩
  cases h with
  | @wrote _ operation _ _ _ _ _ _ _ _ _ _ _ _ hwrites =>
    cases operation with
    | replace env request => exact hwritten hwrites.1
    | append env request =>
      obtain ⟨contentType, headers, hwrites, -⟩ := hwrites
      exact hwritten hwrites
    | delete env request => exact hwrites.elim
  | logged _ _ hlogs =>
    obtain ⟨opening, timestamp, row, -, rfl, -⟩ := hlogs.entries
    exact ⟨rfl, by simp only [List.append_assoc, List.prefix_append]⟩

/-- A run that mints no generation extends the history. -/
theorem extends_of_trace (h : Trace (LogStep key did world) (some log) labels (some log'))
    (hminted : labels.filterMap JournalEntry.minted = []) :
    log'.generation = log.generation ∧ log.entries <+: log'.entries := by
  generalize hstate : some log' = state at h
  induction h generalizing log' with
  | refl =>
    cases hstate
    exact ⟨rfl, List.prefix_rfl⟩
  | @snoc labels entry before _ htrace hstep ih =>
    subst hstate
    rw [List.filterMap_append, List.append_eq_nil_iff] at hminted
    cases before with
    | none =>
      cases hstep
      cases hminted.2
    | some before =>
      obtain ⟨hgeneration, hentries⟩ := ih hminted.1 rfl
      obtain ⟨hgeneration', hentries'⟩ := hstep.extends
      exact ⟨hgeneration'.trans hgeneration, hentries.trans hentries'⟩

/-- The stamps of a stored history are those of its rows. -/
theorem Represents.chainStampViaConn_eq {db : Database} (h : Represents key world log db) (seq : ChainSeq) :
    chainStampViaConn key world seq db =
      .ok (stampIn log.generation (render key world log.generation log.entries) seq) := by
  obtain ⟨retention, hload, hlists⟩ := h.load_eq
  obtain ⟨ok, head, read, hvalid⟩ := h.verifyStatementCapture_eq hlists (.inr rfl) none
  obtain ⟨decoded, hdecoded, -, -, hstamps⟩ := stamps_of_valid h.chain.uniqueIds h.generation_eq hload hvalid
  have hsame : decoded = render key world log.generation log.entries :=
    List.right_unique_forall₂' (fun e a b ha hb => Except.ok.inj (ha.symm.trans hb)) hdecoded h.chain.decode
  rw [hstamps, hsame]

/-- A table with a stamp has events. -/
theorem events_ne_nil_of_found {db : Database} {seq : ChainSeq} {stamp : ChainStamp}
    (h : chainStampViaConn key world seq db = .ok (.found stamp)) : db.events ≠ [] := by
  intro hnil
  have hunique : db.UniqueIds := by simp [Database.UniqueIds, hnil]
  obtain ⟨generation, -, h⟩ := bind_eq_ok.mp h
  obtain ⟨retention, -, h⟩ := bind_eq_ok.mp h
  obtain ⟨report, hreport, h⟩ := bind_eq_ok.mp h
  cases report with
  | broken report => cases h
  | valid ok head read =>
    cases read with
    | none => cases h
    | some read =>
      cases h
      obtain ⟨decoded, hdecoded, -, -, hreported⟩ := verifyStatementCapture_valid hunique (liftSql_eq_ok.mp hreport)
      obtain ⟨-, i, hi, -⟩ := hreported stamp (.inr rfl)
      have hempty : db.eventsAsc = [] := by
        rw [Database.eventsAsc, hnil]
        rfl
      rw [hempty] at hdecoded
      cases hdecoded
      cases hi

omit [HashSuite] in
/-- A shorter history answers an ordinal that it has as a longer one does. -/
theorem stampIn_mono {decoded decoded' : List (EventRow × Headers)} (h : decoded <+: decoded') {seq : ChainSeq}
    {stamp : ChainStamp} (hfound : stampIn generation decoded seq = .found stamp) :
    stampIn generation decoded' seq = .found stamp := by
  obtain ⟨more, rfl⟩ := h
  unfold stampIn at hfound ⊢
  cases hevent : decoded[seq.get.toNat - 1]? with
  | none => rw [hevent] at hfound; cases hfound
  | some event =>
    rw [hevent] at hfound
    rw [List.getElem?_append_left (List.getElem?_eq_some_iff.mp hevent).1, hevent]
    exact hfound

end

/-- Heads and stamps agree with the verification on every table, and a stamp of a world of a running engine stays the
same as long as no new generation of the world is created. -/
theorem stamps_agree_and_stay [HashSuite] :
    (∀ (key : AuditHmacKey) (world : ValidatedWorldPath) (db : Database) (ok : VerifyOk), db.UniqueIds →
      verifyChainViaConn key world db = .ok (.valid ok) → StampsAgree key world db ok) ∧
    ∀ {n : Nat} (calls : Calls n) (pool pool' : Pool (Fin n) Core CallError Reply) (world : ValidatedWorldPath)
      (db db' : Database) (seq : ChainSeq) (stamp : ChainStamp),
      calls.Reaches .fresh pool → pool.Reaches Environment pool' → isMemoryWorld world = false →
      pool.shared.data.lookup world = some (.database db) → pool'.shared.data.lookup world = some (.database db') →
      (journalOf world pool'.shared.journal).filterMap JournalEntry.minted =
        (journalOf world pool.shared.journal).filterMap JournalEntry.minted →
      chainStampViaConn calls.key world seq db = .ok (.found stamp) →
      chainStampViaConn calls.key world seq db' = .ok (.found stamp) := by
  refine ⟨fun key world db ok hunique hvalid => stampsAgree_of_valid hunique hvalid, ?_⟩
  intro n calls pool pool' world db db' seq stamp hreach hreach' hdurable hdir hdir' hminted hfound
  obtain ⟨now, hnow, -, hlogs, -⟩ := hreach.consistent.now
  obtain ⟨later, hlater, -, hlogs', -⟩ := (hnow.runs.reaches hreach').now
  obtain ⟨since, hsince, hmoves⟩ := hlogs' world hdurable
  have hnone : since.filterMap JournalEntry.minted = [] := by
    have hall : journalOf world pool'.shared.journal = journalOf world pool.shared.journal ++ since := by
      have hjournal := hsince
      rw [hlater.journal, hnow.journal] at hjournal
      exact hjournal
    rw [hall, List.filterMap_append] at hminted
    simpa using hminted
  have hshows := hnow.shows world hdurable
  have hshows' := hlater.shows world hdurable
  rw [show pool.shared.view.dir world = _ from hdir] at hshows
  rw [show pool'.shared.view.dir world = _ from hdir'] at hshows'
  have hevents := events_ne_nil_of_found hfound
  generalize hstate : now.log world = state at hshows hmoves
  generalize hstate' : later.log world = state' at hshows' hmoves
  cases hshows with
  | absent hdir => exact absurd rfl (hdir db)
  | creating generation hk => exact absurd (createdUpTo_events (by omega)) hevents
  | @live log _ hrep hlive =>
    rw [hrep.chainStampViaConn_eq] at hfound
    cases hshows' with
    | absent hdir => exact absurd rfl (hdir db')
    | creating generation hk =>
      -- A database in creation has no history, but the history has only grown.
      obtain ⟨-, hentries⟩ := extends_of_trace hmoves hnone
      have hempty := List.prefix_nil.mp hentries
      rw [hempty] at hfound
      cases hfound
    | @live log' _ hrep' hlive' =>
      obtain ⟨hgeneration, hentries⟩ := extends_of_trace hmoves hnone
      rw [hrep'.chainStampViaConn_eq, hgeneration]
      exact congrArg Except.ok (stampIn_mono (render_mono hentries) (Except.ok.inj hfound))

namespace Sample

/-- The label of the first event of the sample world. -/
def anchor : String := "hmac-6e4695bd3cecb3e54ab3491dbfaa87e0b9a97c798269ca7478fc339fbe7de0d5"

/-- The stamp of that event. -/
def anchorStamp : ChainStamp := ⟨generation, ⟨1, by decide⟩, anchor⟩

/-- The database of the sample world, if it was created once. -/
def stored (pool : Pool (Fin 1) Core CallError Reply) : Option Database :=
  match pool.shared.data.lookup world with
  | some (.database db) =>
    if (journalOf world pool.shared.journal).filterMap JournalEntry.minted = [generation] then some db else none
  | _ => none

theorem stored_eq_some {pool : Pool (Fin 1) Core CallError Reply} {db : Database} (h : stored pool = some db) :
    pool.shared.data.lookup world = some (.database db) ∧
      (journalOf world pool.shared.journal).filterMap JournalEntry.minted = [generation] := by
  unfold stored at h
  split at h
  · rename_i hlookup
    split at h
    · rename_i hminted
      cases h
      exact ⟨hlookup, hminted⟩
    · cases h
  · cases h

/-- The replace commits, the database verifies with two events and has a stamp for the first, and then the replace
returns. -/
def anchored : Bool :=
  letI := checksumSuite
  ((List.replicate 25 0).foldlM Pool.next (creating.pool .fresh)).any fun pool =>
    ((stored pool).any fun db => db.UniqueIds ∧ verifyChainViaConn key world db = .ok (.valid ⟨2, anchor, tag⟩) ∧
      chainStampViaConn key world anchorStamp.seq db = .ok (.found anchorStamp)) &&
    ((List.replicate 15 0).foldlM Pool.next pool).any fun pool => (stored pool).isSome

end Sample

/-- The stamp of a world that was just created is there when the write returns. -/
theorem stamps_agree_and_stay_created :
    letI := Sample.checksumSuite
    ∃ pool pool' db db', Sample.creating.Reaches .fresh pool ∧ pool.Reaches Environment pool' ∧
      Sample.stored pool = some db ∧ Sample.stored pool' = some db' ∧
      StampsAgree Sample.key Sample.world db ⟨2, Sample.anchor, Sample.tag⟩ ∧
      chainStampViaConn Sample.key Sample.world Sample.anchorStamp.seq db' = .ok (.found Sample.anchorStamp) := by
  let _ := Sample.checksumSuite
  obtain ⟨pool, hreach, hpool⟩ := Pool.reaches_of_schedule Environment _
    (show Sample.anchored = true by decide +kernel)
  obtain ⟨hfirst, hrest⟩ := Bool.and_eq_true_iff.mp hpool
  obtain ⟨db, hstored, hdb⟩ := (Option.any_eq_true _ _).mp hfirst
  obtain ⟨hunique, hvalid, hfound⟩ := of_decide_eq_true hdb
  obtain ⟨pool', hreach', hpool'⟩ := Pool.reaches_of_schedule Environment _ hrest
  obtain ⟨db', hstored'⟩ := Option.isSome_iff_exists.mp hpool'
  have hdurable : isMemoryWorld Sample.world = false := by decide +kernel
  obtain ⟨hlookup, hminted⟩ := Sample.stored_eq_some hstored
  obtain ⟨hlookup', hminted'⟩ := Sample.stored_eq_some hstored'
  obtain ⟨hagree, hstay⟩ := stamps_agree_and_stay
  exact ⟨pool, pool', db, db', hreach, hreach', hstored, hstored', hagree _ _ _ _ hunique hvalid,
    hstay Sample.creating pool pool' Sample.world db db' _ _ hreach hreach' hdurable hlookup hlookup'
      (hminted'.trans hminted.symm) hfound⟩

end AuditeDB
