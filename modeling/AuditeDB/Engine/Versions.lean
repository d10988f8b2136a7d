import Mathlib
import AuditeDB.World.TimelineForgery
import AuditeDB.Engine.Reading

/-!
# Versions of a world

The HMAC at the end of a history names one point of one history: as long as no generation repeats and no digest
collides, a world that shows the same HMAC again was not written in between. A tag of a world in memory only names a
body.
-/

namespace AuditeDB

open Utf8 Results Interleaving Traces

/-- The generation that an entry of the journal minted. -/
def JournalEntry.minted : JournalEntry → Option WorldGeneration
  | created _ generation => some generation
  | _ => none

/-- The byte strings that a walk over a table feeds to the HMAC, as a list. -/
def Database.hmacInputs (db : Database) (world : ValidatedWorldPath) (generation : WorldGeneration) : List Bytes :=
  db.eventsAsc.filterMap fun e =>
    match e.read with
    | .ok row =>
      match AuditTimestamp.fromStorage row.timestamp with
      | .ok timestamp => some (row.hmacInput world generation row.prevHmac timestamp).bytes
      | .error _ => none
    | .error _ => none

/-- The byte strings that a walk over a table feeds to the metadata digest, as a list. -/
def Database.metaInputs (db : Database) : List Bytes :=
  db.eventsAsc.filterMap fun e =>
    match db.decodeEvent e with
    | .ok event => some (metaBytes event.1.contentType event.2)
    | .error _ => none

/-- The list has all byte strings of the HMAC. -/
theorem Database.hmacFed_subset (db : Database) (world : ValidatedWorldPath) (generation : WorldGeneration) :
    db.hmacFed world generation ⊆ {bytes | bytes ∈ db.hmacInputs world generation} := by
  rintro _ ⟨e, he, row, timestamp, hread, htime, rfl⟩
  exact List.mem_filterMap.mpr ⟨e, he, by simp only [hread, htime]⟩

/-- The list has all byte strings of the metadata digest. -/
theorem Database.sha256Fed_subset (db : Database) : db.sha256Fed ⊆ {bytes | bytes ∈ db.metaInputs} := by
  rintro _ ⟨e, he, event, hdecode, rfl⟩
  exact List.mem_filterMap.mpr ⟨e, he, by simp only [hdecode]⟩

/-- The byte strings that the HMACs of a written database are taken of. -/
def JournalEntry.signedBytes : JournalEntry → List Bytes
  | wrote _ world _ _ _ db =>
    match generation db with
    | .ok generation => db.hmacInputs world generation
    | .error _ => []
  | _ => []

/-- The byte strings that the metadata digests of a written database, or the digest of a body in memory, are taken
of. -/
def JournalEntry.digestedBytes : JournalEntry → List Bytes
  | wrote _ _ _ _ _ db => db.metaInputs
  | stored _ _ entry => [entry.body]
  | _ => []

/-- No generation repeats and no two byte strings collide. -/
structure Collisionless [HashSuite] (key : AuditHmacKey) (journal : List JournalEntry) : Prop where
  generations : (journal.filterMap JournalEntry.minted).Nodup
  hmac : Set.InjOn (HashSuite.hmacSha256 key.bytes) {bytes | bytes ∈ journal.flatMap JournalEntry.signedBytes}
  sha256 : Set.InjOn HashSuite.sha256 {bytes | bytes ∈ journal.flatMap JournalEntry.digestedBytes}

/-- A function is injective on the members of a list when it takes no value twice. -/
theorem nodup_map_dedup {α β : Type*} [DecidableEq α] (f : α → β) (l : List α) :
    (l.dedup.map f).Nodup ↔ Set.InjOn f {a | a ∈ l} := by
  rw [List.nodup_map_iff_inj_on (List.nodup_dedup l)]
  simp only [List.mem_dedup]
  exact ⟨fun h a ha b hb => h a ha b hb, fun h a ha b hb => h ha hb⟩

instance [HashSuite] (key : AuditHmacKey) (journal : List JournalEntry) : Decidable (Collisionless key journal) :=
  decidable_of_iff ((journal.filterMap JournalEntry.minted).Nodup ∧
      ((journal.flatMap JournalEntry.signedBytes).dedup.map (HashSuite.hmacSha256 key.bytes)).Nodup ∧
      ((journal.flatMap JournalEntry.digestedBytes).dedup.map HashSuite.sha256).Nodup) <| by
    rw [nodup_map_dedup, nodup_map_dedup]
    exact ⟨fun ⟨hgenerations, hhmac, hsha⟩ => ⟨hgenerations, hhmac, hsha⟩,
      fun h => ⟨h.generations, h.hmac, h.sha256⟩⟩

section Durable

variable [HashSuite] {key : AuditHmacKey} {did : Nat → Operation → Prop} {world : ValidatedWorldPath}
  {log log' : WorldLog} {state start : Option WorldLog} {entry : JournalEntry} {labels since : List JournalEntry}

/-- A committed body event makes a history longer. -/
theorem Written.grows {kind : AuditEventKind} {body : Bytes} {contentType : String} {headers : Headers}
    {result : WriteAuditResult} (h : Written key world kind body contentType headers result log log') :
    log'.generation = log.generation ∧ log.entries.length < log'.entries.length := by
  obtain ⟨opening, timestamp, -, hentries, -⟩ := h.entries
  refine ⟨h.generation, ?_⟩
  rw [hentries, List.length_append, List.length_append, List.length_singleton]
  omega

/-- Within one generation every move makes the history longer. -/
theorem LogStep.grows (h : LogStep key did world (some log) entry (some log')) :
    log'.generation = log.generation ∧ log.entries.length < log'.entries.length := by
  cases h with
  | @wrote _ operation _ _ _ _ _ _ _ _ _ _ _ _ hwrites =>
    cases operation with
    | replace env request => exact hwrites.1.grows
    | append env request =>
      obtain ⟨contentType, headers, hwritten, -⟩ := hwrites
      exact hwritten.grows
    | delete env request => exact hwrites.elim
  | logged _ _ hlogs =>
    obtain ⟨opening, timestamp, row, -, rfl, -⟩ := hlogs.entries
    refine ⟨rfl, ?_⟩
    rw [List.length_append, List.length_append, List.length_singleton]
    omega

/-- A history was minted on the way, or it is the one at the start, longer by at least the moves since. -/
theorem origin (h : Trace (LogStep key did world) start labels (some log)) :
    log.generation ∈ labels.filterMap JournalEntry.minted ∨ ∃ first, start = some first ∧
      log.generation = first.generation ∧ first.entries.length + labels.length ≤ log.entries.length := by
  generalize hstate : some log = state at h
  induction h generalizing log with
  | refl => exact .inr ⟨log, hstate.symm, rfl, le_rfl⟩
  | @snoc labels entry before _ htrace hstep ih =>
    subst hstate
    rw [List.filterMap_append, List.mem_append]
    cases before with
    | none =>
      cases hstep
      exact .inl (.inr (List.mem_singleton.mpr rfl))
    | some before =>
      obtain ⟨hgeneration, hlength⟩ := hstep.grows
      rw [hgeneration]
      rcases ih rfl with hminted | ⟨first, rfl, hsame, hgrown⟩
      · exact .inl (.inl hminted)
      · refine .inr ⟨first, rfl, hsame, ?_⟩
        rw [List.length_append, List.length_singleton]
        omega

/-- The journal has the database of a history with events. -/
theorem stored_of_trace (h : Trace (LogStep key did world) none labels (some log)) (hworld : world ≠ deleteLedgerWorld)
    (hne : log.entries ≠ []) : ∃ caller opened before result db,
      .wrote caller world opened before result db ∈ labels ∧ Represents key world log db := by
  rcases List.eq_nil_or_concat' labels with rfl | ⟨before, last, rfl⟩
  · cases h.eq_of_nil
  · obtain ⟨state, -, hstep⟩ := h.last
    cases hstep with
    | created => exact absurd rfl hne
    | wrote _ _ _ _ _ _ _ hafter => exact ⟨_, _, _, _, _, List.mem_append_right _ (List.mem_singleton.mpr rfl), hafter⟩
    | logged hledger => exact absurd hledger hworld

/-- The newest HMAC of a history is the tag of its last row. -/
theorem chainHead_eq_tag {n : Nat} (hn : n + 1 = log.entries.length)
    (hlt : n < (render key world log.generation log.entries).length) :
    chainHead key world log.generation log.entries = eventTag (render key world log.generation log.entries)[n] := by
  have hlast : (render key world log.generation log.entries).getLast? =
      some (render key world log.generation log.entries)[n] := by
    rw [List.getLast?_eq_getElem?, List.getElem?_eq_some_iff]
    have hindex : (render key world log.generation log.entries).length - 1 = n := by
      rw [length_render]
      omega
    exact ⟨by omega, by simp only [hindex]⟩
  rw [chainHead, headFrom, hlast]
  rfl

/-- Without collisions a world that shows the same HMAC again has not moved. -/
theorem unmoved_of_chainHead (h : Trace (LogStep key did world) none labels (some log))
    (hsince : Trace (LogStep key did world) (some log) since (some log')) (hworld : world ≠ deleteLedgerWorld)
    (hfree : Collisionless key (labels ++ since)) (hne : log.entries ≠ []) (hne' : log'.entries ≠ [])
    (hhead : chainHead key world log.generation log.entries = chainHead key world log'.generation log'.entries) :
    since = [] := by
  obtain ⟨caller, opened, before, result, db, hwrote, hrep⟩ := stored_of_trace h hworld hne
  obtain ⟨caller', opened', before', result', db', hwrote', hrep'⟩ := stored_of_trace (h.append hsince) hworld hne'
  have hwrote := List.mem_append_left since hwrote
  have hhmac : db.hmacFed world log.generation ∪ db'.hmacFed world log'.generation ⊆
      {bytes | bytes ∈ (labels ++ since).flatMap JournalEntry.signedBytes} := by
    rintro bytes (hbytes | hbytes)
    · refine List.mem_flatMap.mpr ⟨_, hwrote, ?_⟩
      simp only [JournalEntry.signedBytes, hrep.generation_eq]
      exact db.hmacFed_subset _ _ hbytes
    · refine List.mem_flatMap.mpr ⟨_, hwrote', ?_⟩
      simp only [JournalEntry.signedBytes, hrep'.generation_eq]
      exact db'.hmacFed_subset _ _ hbytes
  have hsha : db.sha256Fed ∪ db'.sha256Fed ⊆
      {bytes | bytes ∈ (labels ++ since).flatMap JournalEntry.digestedBytes} := by
    rintro bytes (hbytes | hbytes)
    · exact List.mem_flatMap.mpr ⟨_, hwrote, db.sha256Fed_subset hbytes⟩
    · exact List.mem_flatMap.mpr ⟨_, hwrote', db'.sha256Fed_subset hbytes⟩
  have hpos := List.length_pos_iff.mpr hne
  have hpos' := List.length_pos_iff.mpr hne'
  -- the two chains end in the same row, so they have one generation and one length
  have hlt : log.entries.length - 1 < (render key world log.generation log.entries).length := by
    rw [length_render]
    omega
  have hlt' : log'.entries.length - 1 < (render key world log'.generation log'.entries).length := by
    rw [length_render]
    omega
  rw [chainHead_eq_tag (by omega) hlt, chainHead_eq_tag (by omega) hlt'] at hhead
  obtain ⟨hlength, -, hgeneration, -⟩ :=
    hrep.decodesTo.agree hrep'.decodesTo (hfree.hmac.mono hhmac) (hfree.sha256.mono hsha) hlt hlt' hhead
  rcases origin hsince with hminted | ⟨first, hfirst, -, hgrown⟩
  · -- the generation would have been minted a second time
    rcases origin h with hbefore | ⟨first, hfirst, -⟩
    · have hnodup := hfree.generations
      rw [List.filterMap_append] at hnodup
      exact absurd hminted (List.disjoint_of_nodup_append hnodup (hgeneration ▸ hbefore))
    · cases hfirst
  · cases hfirst
    exact List.length_eq_zero_iff.mp (by omega)

/-- A committed write returns the newest HMAC of the history it leaves. -/
theorem LogStep.head {caller : Nat} {path : ValidatedWorldPath} {opened : OpenedWorldKind} {before db : Database}
    {result : WriteAuditResult} (h : LogStep key did world start (.wrote caller path opened before result db) state) :
    ∃ log, state = some log ∧ log.entries ≠ [] ∧ result.hmac = chainHead key world log.generation log.entries := by
  have hwritten : ∀ {kind : AuditEventKind} {body : Bytes} {contentType : String} {headers : Headers}
      {log log' : WorldLog}, Written key world kind body contentType headers result log log' →
      log'.entries ≠ [] ∧ result.hmac = chainHead key world log'.generation log'.entries := by
    intro kind body contentType headers log log' h
    refine ⟨fun hnil => ?_, h.hmac⟩
    have hgrows := h.grows.2
    rw [hnil] at hgrows
    cases hgrows
  cases h with
  | @wrote _ operation _ _ _ _ _ log' _ _ _ _ _ _ hwrites =>
    cases operation with
    | replace env request => exact ⟨log', rfl, hwritten hwrites.1⟩
    | append env request =>
      obtain ⟨contentType, headers, happended, -⟩ := hwrites
      exact ⟨log', rfl, hwritten happended⟩
    | delete env request => exact hwrites.elim

section Unique

variable {caller caller' : Nat} {opened opened' : OpenedWorldKind} {before before' db db' : Database}
  {result result' : WriteAuditResult}

end Unique

/-- A history leaves the representation of a created world. -/
structure WorldLog.Default (log : WorldLog) : Prop where
  body : bodyAfter log.entries = []
  contentType : log.contentType = "application/octet-stream"
  headers : log.headers = []

/-- The ledger always has the default representation. -/
theorem stage_of_ledger (h : Trace (LogStep key did deleteLedgerWorld) none labels (some log)) :
    log.stage = ⟨[], "application/octet-stream", []⟩ := by
  have hdefault : ∀ log' ∈ some log, WorldLog.Default log' := by
    refine h.invariant (fun state => ∀ log' ∈ state, WorldLog.Default log') (by simp) ?_
    intro before label after hbefore hstep log' hlog'
    cases hlog'
    cases hstep with
    | created => exact ⟨rfl, rfl, rfl⟩
    | wrote hworld => exact absurd rfl hworld
    | logged _ hjob hlogs =>
      obtain ⟨opening, timestamp, row, hopening, rfl, -⟩ := hlogs.entries
      obtain ⟨hbody, hcontentType, hheaders⟩ := hbefore _ rfl
      refine ⟨?_, hcontentType, hheaders⟩
      rw [← hbody, ← hopening.bodyAfter_eq]
      simp [bodyAfter, ledgerEntry, newEntry]
  obtain ⟨hbody, hcontentType, hheaders⟩ := hdefault log rfl
  rw [WorldLog.stage, hbody, hcontentType, hheaders]
  rfl

end Durable

section Memory

variable [HashSuite] {did : Nat → Operation → Prop} {world : ValidatedWorldPath} {labels : List JournalEntry}
  {entry : MemEntry}

/-- An entry in memory has the content type and the headers of a replace, and it stands in the journal. -/
theorem stored_of_memTrace (h : Trace (MemStep did world) none labels (some entry)) :
    (∃ caller, .stored caller world entry ∈ labels) ∧ ∃ caller env request body,
      did caller (.replace env request) ∧ entry = .new body request.contentType request.headers := by
  generalize hstate : some entry = state at h
  induction h generalizing entry with
  | refl => cases hstate
  | @snoc labels label before _ htrace hstep ih =>
    subst hstate
    cases hstep with
    | @stored caller operation _ _ hdid hstores =>
      refine ⟨⟨caller, List.mem_append_right _ (List.mem_singleton.mpr rfl)⟩, ?_⟩
      cases operation with
      | replace env request => exact ⟨caller, env, request, request.body, hdid, hstores⟩
      | append env request =>
        obtain ⟨old, hold, rfl⟩ := hstores
        obtain ⟨-, caller, env, first, body, hreplace, rfl⟩ := ih hold.symm
        exact ⟨caller, env, first, _, hreplace, rfl⟩
      | delete env request => exact hstores.elim

end Memory

section Updates

variable [HashSuite] {n : Nat} {calls : Calls n} {pool : Pool (Fin n) Core CallError Reply}

end Updates

namespace Sample

/-- A replace of an absent durable world. -/
def creating : Calls 1 where
  key := key
  config _ := config
  call _ := ⟨world, .write, .replace quiet ⟨[97], "text/plain", [], ⟨[], []⟩⟩⟩
  hmacKey _ := rfl

/-- The tag that it returns. -/
def tag : String := "hmac-2413bcb28e5cac29b68305e7d7a2d8a3cfc5aac64e8b89faf7c2d8e2ab02a47e"

end Sample

section Reads

variable [HashSuite] {n : Nat} {calls : Calls n} {world : ValidatedWorldPath}

/-- All replaces of a world carry one content type and one header list. -/
def Calls.OneMetadata (calls : Calls n) (world : ValidatedWorldPath) : Prop :=
  ∀ i j env env' request request', (calls.call i).world = world → (calls.call j).world = world →
    (calls.call i).operation = .replace env request → (calls.call j).operation = .replace env' request' →
    request.contentType = request'.contentType ∧ request.headers = request'.headers

/-- Two reads of a world that return one tag return one representation, at any two moments of a run. For a world in
memory all replaces have to carry the same content type and headers, since its tag only covers the body. -/
theorem same_tag_same_representation {pool pool' : Pool (Fin n) Core CallError Reply} (hreach : calls.Reaches .fresh pool)
    (hreach' : pool.Reaches Environment pool')
    (hfree : Collisionless calls.key (journalOf world pool'.shared.journal))
    (hmetadata : isMemoryWorld world = true → calls.OneMetadata world)
    {config config' : Config} (hkey : config.hmacKey = calls.key) (hkey' : config'.hmacKey = calls.key)
    {tier tier' : Tier} {stage stage' : Stage} {tag : String}
    (hread : engineRead config pool.shared world tier = .ok (some (stage, tag)))
    (hread' : engineRead config' pool'.shared world tier' = .ok (some (stage', tag))) : stage = stage' := by
  obtain ⟨now, hnow, -, hlogs, hentries⟩ := hreach.consistent.now
  obtain ⟨later, hlater, -, hlogs', hentries'⟩ := (hnow.runs.reaches hreach').now
  cases hmemory : isMemoryWorld world with
  | false =>
    obtain ⟨labels, hlabels, htrace⟩ := hlogs world hmemory
    obtain ⟨since, hsince, hmoves⟩ := hlogs' world hmemory
    have hshows := hnow.shows world hmemory
    have hshows' := hlater.shows world hmemory
    rw [← hkey] at hshows
    rw [← hkey'] at hshows'
    obtain ⟨log, hlog, hne, rfl, rfl⟩ := hshows.engineRead hmemory hread
    obtain ⟨log', hlog', hne', rfl, htag⟩ := hshows'.engineRead hmemory hread'
    rw [hkey, hkey'] at htag
    rw [hlog] at htrace hmoves
    rw [hlog'] at hmoves
    by_cases hworld : world = deleteLedgerWorld
    · subst hworld
      rw [stage_of_ledger htrace, stage_of_ledger (htrace.append hmoves)]
    · have hjournal : journalOf world pool'.shared.journal = labels ++ since := by
        have hall : journalOf world later.journal = labels ++ since := by rw [hsince, hlabels]; rfl
        rw [← hall, hlater.journal]
        rfl
      rw [hjournal] at hfree
      obtain rfl := unmoved_of_chainHead htrace hmoves hworld hfree hne hne' (hmacEtag_injective htag)
      cases hmoves.eq_of_nil
      rfl
  | true =>
    obtain ⟨labels, hlabels, htrace⟩ := hentries world hmemory
    obtain ⟨since, hsince, hmoves⟩ := hentries' world hmemory
    have hfound := (engineRead_eq_ok.mp hread).2.2
    have hfound' := (engineRead_eq_ok.mp hread').2.2
    rw [Core.readWorldWithEtag_memory hmemory, ← hnow.entry, Except.ok.injEq, Option.map_eq_some_iff] at hfound
    rw [Core.readWorldWithEtag_memory hmemory, ← hlater.entry, Except.ok.injEq, Option.map_eq_some_iff] at hfound'
    obtain ⟨entry, hentry, hpair⟩ := hfound
    obtain ⟨entry', hentry', hpair'⟩ := hfound'
    have hmoved := htrace.append hmoves
    rw [hentry] at htrace
    rw [hentry'] at hmoved
    obtain ⟨⟨caller, hstored⟩, _, env, request, body, ⟨i, -, hworld, hi⟩, rfl⟩ := stored_of_memTrace htrace
    obtain ⟨⟨caller', hstored'⟩, _, env', request', body', ⟨j, -, hworld', hj⟩, rfl⟩ := stored_of_memTrace hmoved
    have hjournal : journalOf world pool'.shared.journal = labels ++ since := by
      have hall : journalOf world later.journal = labels ++ since := by rw [hsince, hlabels]; rfl
      rw [← hall, hlater.journal]
      rfl
    rw [hjournal] at hfree
    obtain ⟨rfl, rfl⟩ := Prod.mk.inj hpair
    obtain ⟨rfl, htag⟩ := Prod.mk.inj hpair'
    have hbody : body = body' := by
      refine hfree.sha256 (List.mem_flatMap.mpr ⟨_, List.mem_append_left _ hstored, List.mem_singleton.mpr rfl⟩)
        (List.mem_flatMap.mpr ⟨_, hstored', List.mem_singleton.mpr rfl⟩) ?_
      have hhex : sha256Hex body' = sha256Hex body := (String.append_right_inj _).mp htag
      exact Subtype.ext (hexEncode_injective hhex.symm)
    obtain ⟨hcontentType, hheaders⟩ :=
      hmetadata hmemory i j env env' request request' hworld hworld' hi hj
    simp only [MemEntry.stage, MemEntry.new, hbody, hcontentType, hheaders]

end Reads

namespace Sample

/-- Two replaces of a world in memory with one body. -/
def rewriting (contentType : String) : Calls 2 where
  key := key
  config _ := config
  call := ![⟨scratch, .write, .replace quiet ⟨[97], "text/plain", [], ⟨[], []⟩⟩⟩,
    ⟨scratch, .write, .replace quiet ⟨[97], contentType, [], ⟨[], []⟩⟩⟩]
  hmacKey _ := rfl

/-- Both replaces run one after the other, and each leaves its representation. -/
def rewritten (contentType : String) : Bool :=
  letI := sha2Suite
  ((List.replicate 8 0).foldlM Pool.next ((rewriting contentType).pool .fresh)).any fun pool =>
    (pool.shared.mem.readWithHash scratch = some (⟨[97], "text/plain", []⟩, sha256Hex [97]) ∧
      pool.shared.shuttingDown = false) &&
    ((List.replicate 8 1).foldlM Pool.next pool).any fun pool =>
      pool.shared.mem.readWithHash scratch = some (⟨[97], contentType, []⟩, sha256Hex [97]) ∧
        pool.shared.shuttingDown = false ∧ Collisionless key (journalOf scratch pool.shared.journal)

/-- Reads after the first and after the second replace return one tag. -/
theorem rewritten_reads {contentType : String} (h : rewritten contentType = true) :
    letI := sha2Suite
    ∃ pool pool', (rewriting contentType).Reaches .fresh pool ∧ pool.Reaches Environment pool' ∧
      Collisionless key (journalOf scratch pool'.shared.journal) ∧
      engineRead config pool.shared scratch .read = .ok (some (⟨[97], "text/plain", []⟩, bodyEtag [97])) ∧
      engineRead config pool'.shared scratch .read = .ok (some (⟨[97], contentType, []⟩, bodyEtag [97])) := by
  let _ := sha2Suite
  obtain ⟨pool, hreach, hpool⟩ := Pool.reaches_of_schedule Environment _ h
  obtain ⟨hfirst, hrest⟩ := Bool.and_eq_true_iff.mp hpool
  obtain ⟨hread, hopen⟩ := of_decide_eq_true hfirst
  obtain ⟨pool', hreach', hpool'⟩ := Pool.reaches_of_schedule Environment _ hrest
  obtain ⟨hread', hopen', hfree⟩ := of_decide_eq_true hpool'
  have hmemory : isMemoryWorld scratch = true := by decide +kernel
  exact ⟨pool, pool', hreach, hreach', hfree, engineRead_memory hmemory rfl hopen hread,
    engineRead_memory hmemory rfl hopen' hread'⟩

end Sample

/-- A second replace with the same metadata leaves the tag and the representation. -/
theorem same_tag_same_representation_rewritten :
    letI := sha2Suite
    ∃ pool pool' stage stage' tag, (Sample.rewriting "text/plain").Reaches .fresh pool ∧
      pool.Reaches Environment pool' ∧
      engineRead Sample.config pool.shared Sample.scratch .read = .ok (some (stage, tag)) ∧
      engineRead Sample.config pool'.shared Sample.scratch .read = .ok (some (stage', tag)) ∧ stage = stage' := by
  let _ := sha2Suite
  obtain ⟨pool, pool', hreach, hreach', hfree, hread, hread'⟩ :=
    Sample.rewritten_reads (show Sample.rewritten "text/plain" = true by decide +kernel)
  have hmetadata : (Sample.rewriting "text/plain").OneMetadata Sample.scratch := by
    intro i j env env' request request' _ _ hi hj
    fin_cases i <;> fin_cases j <;> cases hi <;> cases hj <;> exact ⟨rfl, rfl⟩
  exact ⟨pool, pool', _, _, _, hreach, hreach', hread, hread',
    same_tag_same_representation hreach hreach' hfree (fun _ => hmetadata) rfl rfl hread hread'⟩

/-- A replace that only changes the content type of a world in memory leaves its tag. -/
theorem memory_tag_ignores_contentType :
    letI := sha2Suite
    ∃ pool pool' stage stage' tag, (Sample.rewriting "text/html").Reaches .fresh pool ∧
      pool.Reaches Environment pool' ∧
      Collisionless Sample.key (journalOf Sample.scratch pool'.shared.journal) ∧
      engineRead Sample.config pool.shared Sample.scratch .read = .ok (some (stage, tag)) ∧
      engineRead Sample.config pool'.shared Sample.scratch .read = .ok (some (stage', tag)) ∧ stage ≠ stage' := by
  let _ := sha2Suite
  obtain ⟨pool, pool', hreach, hreach', hfree, hread, hread'⟩ :=
    Sample.rewritten_reads (show Sample.rewritten "text/html" = true by decide +kernel)
  exact ⟨pool, pool', _, _, _, hreach, hreach', hfree, hread, hread', by decide⟩

end AuditeDB
