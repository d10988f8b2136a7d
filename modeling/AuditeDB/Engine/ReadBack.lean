import Mathlib
import AuditeDB.Engine.Genesis

/-!
# Reading back what was written

A replace leaves its own representation and an append extends the body of the one it finds, on both backends. So a
read returns the newest replace with the bodies of the appends since, under the tag of the newest write. A durable
world keeps its headers in a table that is read by name, a world in memory keeps them as they were given.
-/

namespace AuditeDB

open Results Interleaving Traces

/-- The order in which a world returns its headers. -/
def readOrder (world : ValidatedWorldPath) (headers : Headers) : Headers :=
  if isMemoryWorld world then headers else headers.insertionSort byName

/-- The representation that an operation leaves in place of another. -/
def Operation.applied (world : ValidatedWorldPath) (stage : Stage) : Operation → Stage
  | .replace _ request => ⟨request.body, request.contentType, readOrder world request.headers⟩
  | .append _ request => { stage with body := stage.body ++ request.body }
  | .delete _ _ => stage

/-- The bytes that a write brings. -/
def Operation.body : Operation → Bytes
  | .replace _ request => request.body
  | .append _ request => request.body
  | .delete _ _ => []

/-- An append, in contrast to a replace and a delete. -/
def Operation.isAppend : Operation → Bool
  | .append _ _ => true
  | .replace _ _ | .delete _ _ => false

section Moves

variable [HashSuite] {key : AuditHmacKey} {did : Nat → Operation → Prop} {world : ValidatedWorldPath}

/-- A body event leaves its body. -/
theorem Written.bodyAfter_eq {kind : AuditEventKind} {body : Bytes} {contentType : String} {headers : Headers}
    {result : WriteAuditResult} {log log' : WorldLog}
    (h : Written key world kind body contentType headers result log log') : bodyAfter log'.entries = body := by
  obtain ⟨opening, timestamp, -, hentries, -⟩ := h.entries
  simp [hentries, bodyAfter, bodyEntry, newEntry]

/-- A write of a durable world leaves the representation of its operation. -/
theorem Operation.Writes.stage_eq {operation : Operation} {result : WriteAuditResult} {log log' : WorldLog}
    (h : operation.Writes key world result log log') (hdurable : isMemoryWorld world = false) :
    log'.stage = operation.applied world log.stage := by
  cases operation with
  | replace env request =>
    obtain ⟨hwritten, hcontentType, hheaders, -⟩ := h
    simp [WorldLog.stage, applied, readOrder, hdurable, hwritten.bodyAfter_eq, hcontentType, hheaders]
  | append env request =>
    obtain ⟨_, _, hwritten, hcontentType, hheaders⟩ := h
    simp [WorldLog.stage, applied, hwritten.bodyAfter_eq, hcontentType, hheaders]
  | delete env request => exact h.elim

/-- The history behind the row of an operation has the representation of the operation and the HMAC of the row. -/
theorem LogStep.applied {state state' : Option WorldLog} {caller : Nat} {path : ValidatedWorldPath}
    {opened : OpenedWorldKind} {before db : Database} {result : WriteAuditResult} {operation : Operation}
    (h : LogStep key did world state (.wrote caller path opened before result db) state')
    (hdurable : isMemoryWorld world = false) (hdid : ∀ other, did caller other → other = operation) :
    ∃ log log', state = some log ∧ state' = some log' ∧ log'.entries ≠ [] ∧
      log'.stage = operation.applied world log.stage ∧
      result.hmac = chainHead key world log'.generation log'.entries := by
  have hhead := h.head
  cases h with
  | @wrote _ other _ _ _ _ log log' _ hcalled _ _ _ _ hwrites _ =>
    obtain rfl := hdid _ hcalled
    obtain ⟨_, hlog, hne, hhmac⟩ := hhead
    cases hlog
    exact ⟨log, log', rfl, rfl, hne, hwrites.stage_eq hdurable, hhmac⟩

/-- The entry behind a store of an operation is the one that the operation leaves. -/
theorem MemStep.stores {state state' : Option MemEntry} {caller : Nat} {path : ValidatedWorldPath} {entry : MemEntry}
    {operation : Operation} (h : MemStep did world state (.stored caller path entry) state')
    (hdid : ∀ other, did caller other → other = operation) :
    state' = some entry ∧ operation.Stores state entry := by
  cases h with
  | stored hcalled hstores =>
    obtain rfl := hdid _ hcalled
    exact ⟨rfl, hstores⟩

/-- A replace of a world in memory leaves its own representation. -/
theorem Operation.Stores.stage_replace {env : WriteEnv} {request : ReplaceRequest} {state : Option MemEntry}
    {entry : MemEntry} (h : Operation.Stores state entry (.replace env request))
    (hmemory : isMemoryWorld world = true) :
    entry.stage = ⟨request.body, request.contentType, readOrder world request.headers⟩ := by
  obtain rfl := h
  simp [MemEntry.stage, MemEntry.new, readOrder, hmemory]

/-- An append to a world in memory extends the body of the entry that it finds. -/
theorem Operation.Stores.stage_append {env : WriteEnv} {request : AppendRequest} {old entry : MemEntry}
    (h : Operation.Stores (some old) entry (.append env request)) :
    entry.stage = { old.stage with body := old.stage.body ++ request.body } := by
  obtain ⟨_, hold, rfl⟩ := h
  cases hold
  rfl

end Moves

section Runs

variable [HashSuite] {n : Nat} {calls : Calls n} {pool : Pool (Fin n) Core CallError Reply} {start : Point}
  {world : ValidatedWorldPath} {i : Fin n} {entry : JournalEntry} {outcome : WriteOutcome}

/-- The one effect of a write of a durable world that returned, with the tag that it returned. -/
theorem Calls.Runs.wrote_of_caller (h : calls.Runs (calls.Consistent start) pool)
    (hdurable : isMemoryWorld (calls.call i).world = false) (hdone : pool.threads i = .done (.written outcome))
    (hentry : entry ∈ pool.shared.journal) (hcaller : entry.caller = some (i : Nat)) :
    ∃ opened before result db, entry = .wrote i (calls.call i).world opened before result db ∧
      outcome.etag = hmacEtag result.hmac := by
  obtain ⟨opened, before, result, db, hown, rfl⟩ := h.wrote hdurable hdone
  have hmem : entry ∈ pool.shared.journal.filter fun entry => entry.caller = some (i : Nat) :=
    List.mem_filter.mpr ⟨hentry, decide_eq_true hcaller⟩
  rw [hown] at hmem
  exact ⟨_, before, result, db, List.mem_singleton.mp hmem, rfl⟩

/-- The one effect of a write of a world in memory that returned, with the tag that it returned. -/
theorem Calls.Runs.stored_of_caller (h : calls.Runs (calls.Consistent start) pool)
    (hmemory : isMemoryWorld (calls.call i).world = true) (hdone : pool.threads i = .done (.written outcome))
    (hentry : entry ∈ pool.shared.journal) (hcaller : entry.caller = some (i : Nat)) :
    ∃ stored, entry = .stored i (calls.call i).world stored ∧ outcome.etag = "sha256-" ++ stored.bodyHash := by
  obtain ⟨l, hpost, hown⟩ := h.returned hdone
  cases hpost with
  | written _ hreturned =>
    cases hreturned with
    | durable _ _ _ _ hdurable =>
      rw [hmemory] at hdurable
      cases hdurable
    | memory stored _ hended houtcome =>
      have hmem : entry ∈ pool.shared.journal.filter fun entry => entry.caller = some (i : Nat) :=
        List.mem_filter.mpr ⟨hentry, decide_eq_true hcaller⟩
      rw [hown.trans hended.2.2] at hmem
      exact ⟨stored, List.mem_singleton.mp hmem, houtcome⟩

omit [HashSuite] in
/-- A caller runs one operation. -/
theorem Calls.did_unique {other : Operation} (hdid : calls.Did world i other) : other = (calls.call i).operation := by
  obtain ⟨j, hj, -, rfl⟩ := hdid
  rw [Fin.ext hj]

end Runs

/-- What a read returns: a representation and its tag. -/
structure Shown where
  stage : Stage
  tag : String

section Newest

variable [HashSuite] {n : Nat} (calls : Calls n) (pool : Pool (Fin n) Core CallError Reply)
  (world : ValidatedWorldPath) (outcome : Fin n → WriteOutcome)

/-- What a read returns after one more append. -/
def Calls.extend (shown : Shown) (caller : Nat) : Shown :=
  if h : caller < n then
    ⟨{ shown.stage with body := shown.stage.body ++ (calls.call ⟨caller, h⟩).operation.body },
      (outcome ⟨caller, h⟩).etag⟩
  else shown

/-- A replace and the appends behind it, in this order. They have returned, and nothing else has happened to their
world since the replace. -/
structure Calls.Newest (i : Fin n) (request : ReplaceRequest) (js : List (Fin n)) : Prop where
  world_eq : ∀ j ∈ i :: js, (calls.call j).world = world
  replaces : ∃ env, (calls.call i).operation = .replace env request
  appends : ∀ j ∈ js, (calls.call j).operation.isAppend = true
  returned : ∀ j ∈ i :: js, pool.threads j = .done (.written (outcome j))
  newest : (i :: js).map Fin.val <:+ (journalOf world pool.shared.journal).filterMap JournalEntry.caller

variable {calls pool world outcome} {i : Fin n} {request : ReplaceRequest} {js : List (Fin n)}

omit [HashSuite] in
/-- The bodies of all appends stand behind the first one, and the tag is that of the last. -/
theorem Calls.foldl_extend (shown : Shown) (htag : shown.tag = (outcome i).etag) :
    (js.map Fin.val).foldl (calls.extend outcome) shown =
      ⟨{ shown.stage with body := shown.stage.body ++ js.flatMap fun j => (calls.call j).operation.body },
        (outcome ((i :: js).getLast (List.cons_ne_nil i js))).etag⟩ := by
  induction js generalizing i shown with
  | nil => simp [← htag]
  | cons j js ih =>
    have hstep : calls.extend outcome shown j =
        ⟨{ shown.stage with body := shown.stage.body ++ (calls.call j).operation.body }, (outcome j).etag⟩ := by
      simp [extend]
    rw [List.map_cons, List.foldl_cons, hstep, ih _ (by rfl), List.getLast_cons_cons]
    simp

omit [HashSuite] in
/-- An append extends the body. -/
theorem Calls.extend_append (world : ValidatedWorldPath) (shown : Shown) {j : Fin n}
    (happend : (calls.call j).operation.isAppend = true) :
    calls.extend outcome shown j = ⟨(calls.call j).operation.applied world shown.stage, (outcome j).etag⟩ := by
  unfold extend
  cases hoperation : (calls.call j).operation with
  | append env request => simp [hoperation, Operation.applied, Operation.body]
  | replace env request =>
    rw [hoperation] at happend
    cases happend
  | delete env request =>
    rw [hoperation] at happend
    cases happend

omit [HashSuite] in
/-- The journal of the world splits at the replace. -/
theorem Calls.Newest.split (h : calls.Newest pool world outcome i request js) :
    ∃ first entry rest, journalOf world pool.shared.journal = first ++ entry :: rest ∧ entry.caller = some (i : Nat) ∧
      rest.filterMap JournalEntry.caller = js.map Fin.val := by
  obtain ⟨earlier, hearlier⟩ := h.newest
  obtain ⟨before, since, hjournal, -, hsince⟩ := List.filterMap_eq_append_iff.mp hearlier.symm
  obtain ⟨silent, entry, rest, rfl, -, hentry, hrest⟩ := List.filterMap_eq_cons_iff.mp hsince
  exact ⟨before ++ silent, entry, rest, by rw [hjournal, List.append_assoc], hentry, hrest⟩

/-- A read of a durable world in some state returns this. -/
def LogReads (key : AuditHmacKey) (world : ValidatedWorldPath) (state : Option WorldLog) (shown : Shown) : Prop :=
  ∃ log, state = some log ∧ log.entries ≠ [] ∧ log.stage = shown.stage ∧
    hmacEtag (chainHead key world log.generation log.entries) = shown.tag

omit [HashSuite] in
/-- A read of a world in memory in some state returns this. -/
def EntryReads (state : Option MemEntry) (shown : Shown) : Prop :=
  ∃ entry, state = some entry ∧ entry.stage = shown.stage ∧ "sha256-" ++ entry.bodyHash = shown.tag

variable (world request i js outcome) in
/-- What a read returns after the replace and the appends. -/
def Calls.shown (calls : Calls n) : Shown :=
  (js.map Fin.val).foldl (calls.extend outcome)
    ⟨⟨request.body, request.contentType, readOrder world request.headers⟩, (outcome i).etag⟩

/-- The state of a durable world after a replace and appends. -/
theorem Calls.Newest.logReads (h : calls.Newest pool world outcome i request js) (hreach : calls.Reaches .fresh pool)
    (hdurable : isMemoryWorld world = false) : ∃ state, Shows calls.key world state (pool.shared.view.dir world) ∧
      LogReads calls.key world state (calls.shown world outcome i request js) := by
  obtain ⟨state, htrace, hshows⟩ := hreach.history hdurable
  obtain ⟨first, entry, rest, hjournal, hcaller, hrest⟩ := h.split
  obtain ⟨env, hreplace⟩ := h.replaces
  -- an entry that one of these calls made is the row of its operation
  have hrow : ∀ j ∈ i :: js, ∀ label ∈ entry :: rest, label.caller = some (j : Nat) →
      ∀ before after, LogStep calls.key (calls.Did world) world before label after → ∃ log, before = some log ∧
        LogReads calls.key world after ⟨(calls.call j).operation.applied world log.stage, (outcome j).etag⟩ := by
    intro j hj label hlabel hlabelled before after hstep
    have hmem := (mem_journalOf.mp (hjournal ▸ List.mem_append_right first hlabel)).1
    obtain ⟨_, _, result, _, rfl, htag⟩ :=
      hreach.consistent.wrote_of_caller (h.world_eq j hj ▸ hdurable) (h.returned j hj) hmem hlabelled
    obtain ⟨log, log', rfl, rfl, hne, hstage, hhmac⟩ := hstep.applied hdurable fun _ => Calls.did_unique
    exact ⟨log, rfl, log', rfl, hne, hstage, by rw [← hhmac, htag]⟩
  rw [hjournal] at htrace
  obtain ⟨before, after, -, hstep, hmore⟩ := htrace.split_cons
  obtain ⟨_, -, hstart⟩ := hrow i (List.mem_cons_self ..) entry (List.mem_cons_self ..) hcaller before after hstep
  rw [hreplace] at hstart
  refine ⟨state, hshows, ?_⟩
  rw [Calls.shown, ← hrest]
  refine hmore.foldl_filterMap hstart ?_ ?_
  · rintro _ label after _ hlabel hsilent ⟨log, rfl, -⟩ hstep
    cases hstep <;> cases hsilent
  · rintro _ label after shown caller hlabel hlabelled ⟨log, rfl, -, hstage, -⟩ hstep
    have hcalled : caller ∈ js.map Fin.val := hrest ▸ List.mem_filterMap.mpr ⟨label, hlabel, hlabelled⟩
    obtain ⟨j, hj, rfl⟩ := List.mem_map.mp hcalled
    obtain ⟨_, hlog, hreads⟩ := hrow j (List.mem_cons_of_mem _ hj) label (List.mem_cons_of_mem _ hlabel) hlabelled
      _ after hstep
    cases hlog
    rwa [Calls.extend_append world shown (h.appends j hj), ← hstage]

/-- The entry of a world in memory after a replace and appends. -/
theorem Calls.Newest.entryReads (h : calls.Newest pool world outcome i request js) (hreach : calls.Reaches .fresh pool)
    (hmemory : isMemoryWorld world = true) :
    EntryReads (pool.shared.view.entry world) (calls.shown world outcome i request js) := by
  obtain ⟨now, hnow, -, -, hentries⟩ := hreach.consistent.now
  obtain ⟨labels, hlabels, htrace⟩ := hentries world hmemory
  obtain ⟨first, entry, rest, hjournal, hcaller, hrest⟩ := h.split
  obtain ⟨env, hreplace⟩ := h.replaces
  have hall : labels = first ++ entry :: rest := by
    have hsame : journalOf world now.journal = labels := hlabels
    rw [← hsame, hnow.journal]
    exact hjournal
  -- an entry that one of these calls made is the one that its operation leaves
  have hstored : ∀ j ∈ i :: js, ∀ label ∈ entry :: rest, label.caller = some (j : Nat) →
      ∀ before after, MemStep (calls.Did world) world before label after → ∃ stored, after = some stored ∧
        (calls.call j).operation.Stores before stored ∧ "sha256-" ++ stored.bodyHash = (outcome j).etag := by
    intro j hj label hlabel hlabelled before after hstep
    have hmem := (mem_journalOf.mp (hjournal ▸ List.mem_append_right first hlabel)).1
    obtain ⟨stored, rfl, htag⟩ :=
      hreach.consistent.stored_of_caller (h.world_eq j hj ▸ hmemory) (h.returned j hj) hmem hlabelled
    obtain ⟨hafter, hstores⟩ := hstep.stores fun _ => Calls.did_unique
    exact ⟨stored, hafter, hstores, htag.symm⟩
  rw [hall] at htrace
  obtain ⟨before, after, -, hstep, hmore⟩ := htrace.split_cons
  obtain ⟨stored, rfl, hstores, htag⟩ :=
    hstored i (List.mem_cons_self ..) entry (List.mem_cons_self ..) hcaller before after hstep
  rw [hreplace] at hstores
  rw [← hnow.entry, Calls.shown, ← hrest]
  refine hmore.foldl_filterMap ⟨stored, rfl, hstores.stage_replace hmemory, htag⟩ ?_ ?_
  · rintro _ label after _ hlabel hsilent ⟨old, rfl, -⟩ hstep
    cases hstep <;> cases hsilent
  · rintro _ label after shown caller hlabel hlabelled ⟨old, rfl, hstage, -⟩ hstep
    have hcalled : caller ∈ js.map Fin.val := hrest ▸ List.mem_filterMap.mpr ⟨label, hlabel, hlabelled⟩
    obtain ⟨j, hj, rfl⟩ := List.mem_map.mp hcalled
    obtain ⟨stored, rfl, hstores, htag⟩ := hstored j (List.mem_cons_of_mem _ hj) label
      (List.mem_cons_of_mem _ hlabel) hlabelled _ after hstep
    have happend := h.appends j hj
    rw [Calls.extend_append world shown happend]
    refine ⟨stored, rfl, ?_, htag⟩
    cases hoperation : (calls.call j).operation with
    | append env request =>
      rw [hoperation] at hstores
      rw [hstores.stage_append, hstage]
      rfl
    | replace env request =>
      rw [hoperation] at happend
      cases happend
    | delete env request =>
      rw [hoperation] at happend
      cases happend

variable {config : Config} {tier : Tier}

/-- A read of a durable world returns what its history leaves. -/
theorem LogReads.engineRead_eq {core : Core} {state : Option WorldLog} {shown : Shown}
    (h : LogReads config.hmacKey world state shown) (hdurable : isMemoryWorld world = false)
    (hshows : Shows config.hmacKey world state (core.view.dir world)) (hallowed : canRead config tier = true)
    (hopen : core.shuttingDown = false) :
    engineRead config core world tier = .ok (some (shown.stage, shown.tag)) := by
  obtain ⟨log, rfl, hne, hstage, htag⟩ := h
  obtain ⟨db, hdir, hrep⟩ := hshows.database_of_entries hne
  refine engineRead_eq_ok.mpr ⟨hallowed, hopen, ?_⟩
  have hdb : core.database world = some db := (core.database_eq_some world).mpr hdir
  simp only [Core.readWorldWithEtag, hdurable, Bool.false_eq_true, if_false, Core.openExisting, hdb,
    hrep.verifyOpenShape_eq, ok_bind, pure, Except.pure, liftSql, Except.mapError, hrep.readWithHmac_stage hne,
    Option.map_some, Option.getD_some, hstage, htag]

/-- A read of a world in memory returns its entry. -/
theorem EntryReads.engineRead_eq {core : Core} {shown : Shown} (h : EntryReads (core.view.entry world) shown)
    (hmemory : isMemoryWorld world = true) (hallowed : canRead config tier = true)
    (hopen : core.shuttingDown = false) :
    engineRead config core world tier = .ok (some (shown.stage, shown.tag)) := by
  obtain ⟨entry, hentry, hstage, htag⟩ := h
  refine engineRead_eq_ok.mpr ⟨hallowed, hopen, ?_⟩
  rw [Core.readWorldWithEtag_memory hmemory, hentry, Option.map_some, hstage, htag]

/-- A read after a replace and appends, on either backend. -/
theorem Calls.Newest.engineRead_eq (h : calls.Newest pool world outcome i request js)
    (hreach : calls.Reaches .fresh pool) (hkey : config.hmacKey = calls.key) (hallowed : canRead config tier = true)
    (hopen : pool.shared.shuttingDown = false) :
    engineRead config pool.shared world tier = .ok (some
      (⟨request.body ++ js.flatMap fun j => (calls.call j).operation.body, request.contentType,
        readOrder world request.headers⟩, (outcome ((i :: js).getLast (List.cons_ne_nil i js))).etag)) := by
  have hread : engineRead config pool.shared world tier = .ok (some ((calls.shown world outcome i request js).stage,
      (calls.shown world outcome i request js).tag)) := by
    cases hmemory : isMemoryWorld world with
    | false =>
      obtain ⟨state, hshows, hreads⟩ := h.logReads hreach hmemory
      rw [← hkey] at hshows hreads
      exact hreads.engineRead_eq hmemory hshows hallowed hopen
    | true => exact (h.entryReads hreach hmemory).engineRead_eq hmemory hallowed hopen
  rw [hread, Calls.shown, Calls.foldl_extend _ (by rfl)]

/-- A read that follows a successful replace and any number of successful appends returns the body of the replace with
the bodies of the appends behind it, the content type of the replace, and the tag of the newest write, on a durable
world and on one in memory, whatever happened before the replace. -/
theorem read_after_write (hreach : calls.Reaches .fresh pool) (h : calls.Newest pool world outcome i request js)
    (hkey : config.hmacKey = calls.key) (hallowed : canRead config tier = true)
    (hopen : pool.shared.shuttingDown = false) : ∃ headers, engineRead config pool.shared world tier = .ok (some
      (⟨request.body ++ js.flatMap fun j => (calls.call j).operation.body, request.contentType, headers⟩,
        (outcome ((i :: js).getLast (List.cons_ne_nil i js))).etag)) :=
  ⟨_, h.engineRead_eq hreach hkey hallowed hopen⟩

end Newest

namespace Sample

/-- Both calls have the same key. -/
theorem config_hmacKey : ∀ _ : Fin 2, config.hmacKey = key := fun _ => rfl

/-- A replace of a world in memory and an append. -/
def extending : Calls 2 where
  key := key
  config _ := config
  call := ![⟨scratch, .write, .replace quiet ⟨[97], "text/plain", [("x-b", "1"), ("x-a", "2")], ⟨[], []⟩⟩⟩,
    ⟨scratch, .write, .append quiet ⟨[98], ⟨[], []⟩⟩⟩]
  hmacKey := config_hmacKey

/-- The replace runs first. -/
def oneByOne : List (Fin 2) := (List.finRange 2).flatMap fun i => List.replicate (8 + i.val) i

/-- The tags that they return. -/
def extended [HashSuite] : Fin 2 → WriteOutcome := ![⟨.created, bodyEtag [97]⟩, ⟨.updated, bodyEtag [97, 98]⟩]

end Sample

/-- A read behind a replace and an append returns both bodies under the tag of the append. -/
theorem read_after_write_extended :
    letI := Sample.checksumSuite
    ∃ pool headers, Sample.extending.Reaches .fresh pool ∧
      Sample.extending.Newest pool Sample.scratch Sample.extended 0
        ⟨[97], "text/plain", [("x-b", "1"), ("x-a", "2")], ⟨[], []⟩⟩ [1] ∧
      engineRead Sample.config pool.shared Sample.scratch .read =
        .ok (some (⟨[97, 98], "text/plain", headers⟩, bodyEtag [97, 98])) := by
  let _ := Sample.checksumSuite
  obtain ⟨pool, hreach, hpool⟩ := Pool.reaches_of_schedule Environment Sample.oneByOne
    (show (Sample.oneByOne.foldlM Pool.next (Sample.extending.pool .fresh)).any
      (fun pool => (pool.threads 0).returned = some (.written (Sample.extended 0)) ∧
        (pool.threads 1).returned = some (.written (Sample.extended 1)) ∧
        (journalOf Sample.scratch pool.shared.journal).filterMap JournalEntry.caller = [0, 1] ∧
        pool.shared.shuttingDown = false) = true by decide +kernel)
  obtain ⟨hfirst, hsecond, hjournal, hopen⟩ := of_decide_eq_true hpool
  rw [Prog.returned_eq_some] at hfirst hsecond
  have hnewest : Sample.extending.Newest pool Sample.scratch Sample.extended 0
      ⟨[97], "text/plain", [("x-b", "1"), ("x-a", "2")], ⟨[], []⟩⟩ [1] := by
    refine ⟨?_, ⟨_, rfl⟩, ?_, ?_, ?_⟩
    · intro j _
      fin_cases j <;> rfl
    · intro j hj
      rw [List.mem_singleton.mp hj]
      rfl
    · intro j _
      fin_cases j
      · exact hfirst
      · exact hsecond
    · rw [hjournal]
      exact List.suffix_rfl
  have hallowed : canRead Sample.config .read = true := rfl
  obtain ⟨headers, hread⟩ := read_after_write hreach hnewest rfl hallowed hopen
  exact ⟨pool, headers, hreach, hnewest, hread⟩

end AuditeDB
