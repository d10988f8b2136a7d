import Mathlib
import AuditeDB.Engine.Histories

/-!
# The histories of the worlds in every run

Every step of a call acts on a world that the call holds, and holders exclude each other. So in every run the
directory of a durable world shows the state that its journal leads to.
-/

namespace AuditeDB

open Results Interleaving Traces

section Effect

variable [HashSuite] (key : AuditHmacKey) (call : Call) (caller : Nat) (connected : Bool) (checked : Option String)

/-- What a step of a call does to a durable world that the call holds: to its directory, to what the call knows about
it, and to its journal. -/
inductive Effect (path : ValidatedWorldPath) :
    Option WorldDir → Status → List JournalEntry → Option WorldDir → Status → Prop where
  | quiet {dir : Option WorldDir} {status : Status} : Effect path dir status [] dir status
  | missing {dir : Option WorldDir} {status : Status} (hdir : ∀ db, dir ≠ some (.database db)) :
      Effect path dir status [] dir .missing
  | look {db : Database} {status : Status} {opened : OpenedWorldKind} (hshape : verifyOpenShape db = .ok ()) :
      Effect path (some (.database db)) status [] (some (.database db)) (.ready opened)
  | cache {dir : Option WorldDir} {opened opened' : OpenedWorldKind} :
      Effect path dir (.ready opened) [] dir (.ready opened')
  | reuseLedger {dir : Option WorldDir} {status : Status} (hpath : path = deleteLedgerWorld)
      (hconn : connected = true) : Effect path dir status [] dir (.ready .existing)
  | makeDir {dir : Option WorldDir} : Effect path dir .missing [] (some .empty) .missing
  | create {dir : Option WorldDir} (generation : WorldGeneration) :
      Effect path dir .missing [.created path generation] (some (.database .empty)) (.after generation 0)
  | statement {generation : WorldGeneration} {k : Nat} {statement : Database → SqlResult Database} {db db' : Database}
      (hstatement : (createStatements generation)[k]? = some statement) (hrun : statement db = .ok db') :
      Effect path (some (.database db)) (.creating generation k) [] (some (.database db'))
        (.after generation (k + 1))
  | indexes {opened : OpenedWorldKind} {db db' : Database} (hrun : ensureWriteIndexes db = .ok db') :
      Effect path (some (.database db)) (.ready opened) [] (some (.database db')) (.ready opened)
  | write {opened : OpenedWorldKind} {result : WriteAuditResult} {db db' : Database} (hpath : path = call.world)
      (hmay : ∀ tag, call.operation.preconditions.requiredTag = some tag → checked = some tag)
      (hrun : call.operation.Transaction key path opened db result db') :
      Effect path (some (.database db)) (.ready opened)
        [.wrote caller path (call.operation.treats opened) db result db'] (some (.database db')) (.ready opened)
  | log {config : Config} {clock : TxClock} {job : AuditAppendJob} {isEmpty : Bool} {opened : OpenedWorldKind}
      {db db' : Database} {event : AppendedLedgerEvent} (hpath : path = deleteLedgerWorld)
      (hkey : config.hmacKey = key) (hjob : DeleteJob job.target job)
      (hrun : ledgerTransaction config clock job isEmpty db = .ok (event, db')) :
      Effect path (some (.database db)) (.ready opened) [.logged caller event] (some (.database db')) (.ready opened)
  | remove {dir : Option WorldDir} {opened : OpenedWorldKind} (hpath : path = call.world)
      (hmay : ∀ tag, call.operation.preconditions.requiredTag = some tag → checked = some tag)
      (hdelete : call.operation.isWrite = false) :
      Effect path dir (.ready opened) [.removed caller path] none .unknown

end Effect

section Slots

variable {world : ValidatedWorldPath}

/-- The two worlds of a call differ. -/
theorem Slot.path_ne (hworld : world ≠ deleteLedgerWorld) {slot other : Slot} (hne : slot ≠ other) :
    slot.path world ≠ other.path world := by
  cases slot <;> cases other
  · exact absurd rfl hne
  · exact hworld
  · exact hworld.symm
  · exact absurd rfl hne

end Slots

variable [HashSuite] {key : AuditHmacKey} {call : Call} {caller : Nat} {v v' : View} {l l' : Local}

/-- A step leaves a world alone: its directory and its journal are as they were. -/
def Untouched (path : ValidatedWorldPath) (v v' : View) : Prop :=
  v'.dir path = v.dir path ∧ journalOf path v'.journal = journalOf path v.journal

omit [HashSuite] in
/-- A change of one directory leaves the others alone. -/
theorem untouched_setDir {path other : ValidatedWorldPath} (hne : path ≠ other) (dir : Option WorldDir) :
    Untouched path v (v.setDir other dir) :=
  ⟨Function.update_of_ne hne _ _, rfl⟩

omit [HashSuite] in
/-- A change of one directory with its entry in the journal leaves the others alone. -/
theorem untouched_record {path other : ValidatedWorldPath} (hne : path ≠ other) (dir : Option WorldDir)
    {entry : JournalEntry} (hentry : entry.path = other) : Untouched path v ((v.setDir other dir).record entry) := by
  refine ⟨Function.update_of_ne hne _ _, ?_⟩
  have hother : entry.path ≠ path := hentry ▸ hne.symm
  simp [View.record, View.setDir, journalOf, hother]

/-- A world that a call does not hold is untouched by its steps. -/
theorem Protocol.untouched (hstep : Protocol key call caller v l v' l') {path : ValidatedWorldPath}
    (hfree : ∀ slot, (l.held slot).isSome = true → path ≠ slot.path call.world) : Untouched path v v' := by
  have hfree : ∀ slot holding, l.held slot = some holding → path ≠ slot.path call.world := fun slot holding hheld =>
    hfree slot (by rw [hheld]; rfl)
  cases hstep with
  | makeDir slot hheld => exact untouched_setDir (hfree slot _ hheld) _
  | create slot generation hheld => exact untouched_record (hfree slot _ hheld) _ rfl
  | statement slot hheld => exact untouched_setDir (hfree slot _ hheld) _
  | indexes slot hheld => exact untouched_setDir (hfree slot _ hheld) _
  | write hheld _ _ _ _ hentry => exact untouched_record (hfree .world _ hheld) _ (by rw [hentry]; rfl)
  | log hheld => exact untouched_record (hfree .ledger _ hheld) _ rfl
  | remove hheld => exact untouched_record (hfree .world _ hheld) _ rfl
  | store hheld =>
    have hne : call.world ≠ path := (hfree .world _ hheld).symm
    exact ⟨rfl, by simp [View.record, View.setEntry, journalOf, JournalEntry.path, hne]⟩
  | removeMemory hheld =>
    have hne : call.world ≠ path := (hfree .world _ hheld).symm
    exact ⟨rfl, by simp [View.record, View.setEntry, journalOf, JournalEntry.path, hne]⟩
  | _ => exact ⟨rfl, rfl⟩

omit [HashSuite] in
/-- A change of what a call knows about one world does not change the other. -/
theorem Local.held_of_hold {slot other : Slot} {holding holding' : Holding} (hne : slot ≠ other)
    (h : (l.hold other holding').held slot = some holding) : l.held slot = some holding := by
  rwa [Local.hold_held_of_ne _ _ _ hne] at h

variable (key call caller) in
/-- A step acts on a world that the call holds, with what the call knows before and after it. -/
def Acts (checked : Option String) (path : ValidatedWorldPath) (v v' : View) (status status' : Status) : Prop :=
  ∃ entries, journalOf path v'.journal = journalOf path v.journal ++ entries ∧
    Effect key call caller v.ledgerConn checked path (v.dir path) status entries (v'.dir path) status'

/-- An untouched world that the call goes on holding. -/
theorem Untouched.acts {checked : Option String} {path : ValidatedWorldPath} (h : Untouched path v v') (status : Status) :
    Acts key call caller checked path v v' status status := by
  refine ⟨[], by rw [h.2, List.append_nil], ?_⟩
  rw [h.1]
  exact .quiet

/-- A new directory without an entry in the journal. -/
theorem acts_setDir {checked : Option String} {path : ValidatedWorldPath} {dir : Option WorldDir} {status status' : Status}
    (h : Effect key call caller v.ledgerConn checked path (v.dir path) status [] dir status') :
    Acts key call caller checked path v (v.setDir path dir) status status' := by
  have hdir : (v.setDir path dir).dir path = dir := Function.update_self ..
  exact ⟨[], by rw [List.append_nil]; rfl, by rwa [hdir]⟩

/-- A new directory with its entry in the journal. -/
theorem acts_record {checked : Option String} {path : ValidatedWorldPath} {dir : Option WorldDir} {entry : JournalEntry}
    (hentry : entry.path = path) {status status' : Status}
    (h : Effect key call caller v.ledgerConn checked path (v.dir path) status [entry] dir status') :
    Acts key call caller checked path v ((v.setDir path dir).record entry) status status' := by
  have hdir : ((v.setDir path dir).record entry).dir path = dir := Function.update_self ..
  refine ⟨[entry], ?_, by rwa [hdir]⟩
  simp [View.record, View.setDir, journalOf, hentry]

/-- A step acts on a world that the call holds before and after it. -/
theorem Protocol.acts (hstep : Protocol key call caller v l v' l') (hworld : call.world ≠ deleteLedgerWorld)
    {slot : Slot} (hdurable : isMemoryWorld (slot.path call.world) = false) {holding holding' : Holding}
    (hheld : l.held slot = some holding) (hheld' : l'.held slot = some holding') :
    Acts key call caller l.checked (slot.path call.world) v v' holding.status holding'.status := by
  -- a step on the other world of the call leaves this one alone
  have hother : ∀ {acted : Slot} {after : Holding}, slot ≠ acted → Untouched (slot.path call.world) v v' →
      (l.hold acted after).held slot = some holding' →
      Acts key call caller l.checked (slot.path call.world) v v' holding.status holding'.status := by
    intro acted after hne huntouched hafter
    obtain rfl : holding = holding' := Option.some.inj (hheld.symm.trans (Local.held_of_hold hne hafter))
    exact huntouched.acts _
  have hquiet : l'.held slot = l.held slot → Untouched (slot.path call.world) v v' →
      Acts key call caller l.checked (slot.path call.world) v v' holding.status holding'.status := by
    intro hsame huntouched
    obtain rfl : holding = holding' := Option.some.inj (hheld.symm.trans (hsame.symm.trans hheld'))
    exact huntouched.acts _
  have hnow : ∀ {acted : Slot} {before after : Holding}, slot = acted → l.held acted = some before →
      (l.hold acted after).held slot = some holding' → holding = before ∧ holding' = after := by
    rintro _ before after rfl hbefore hafter
    rw [Local.hold_held] at hafter
    exact ⟨Option.some.inj (hheld.symm.trans hbefore), (Option.some.inj hafter).symm⟩
  cases hstep with
  | lock acted _ _ hnone =>
    by_cases hslot : slot = acted
    · rw [← hslot, hheld] at hnone
      cases hnone
    · exact hother hslot ⟨rfl, rfl⟩ hheld'
  | unlock acted =>
    by_cases hslot : slot = acted
    · subst hslot
      simp [Local.release] at hheld'
    · refine hquiet ?_ ⟨rfl, rfl⟩
      simp [Local.release, Function.update_of_ne hslot]
  | missing acted hacted hdir =>
    by_cases hslot : slot = acted
    · obtain ⟨rfl, rfl⟩ := hnow hslot hacted hheld'
      subst hslot
      exact ⟨[], by simp, .missing hdir⟩
    · exact hother hslot ⟨rfl, rfl⟩ hheld'
  | look acted hacted hdir hshape =>
    by_cases hslot : slot = acted
    · obtain ⟨rfl, rfl⟩ := hnow hslot hacted hheld'
      subst hslot
      exact ⟨[], by simp, by rw [hdir]; exact .look hshape⟩
    · exact hother hslot ⟨rfl, rfl⟩ hheld'
  | reuse hacted _ hdir hshape =>
    by_cases hslot : slot = .world
    · obtain ⟨rfl, rfl⟩ := hnow hslot hacted hheld'
      subst hslot
      have hdir : v.dir (Slot.path call.world .world) = _ := hdir
      exact ⟨[], by simp, by rw [hdir]; exact .look hshape⟩
    · exact hother hslot ⟨rfl, rfl⟩ hheld'
  | cache hacted =>
    by_cases hslot : slot = .world
    · obtain ⟨rfl, rfl⟩ := hnow hslot hacted hheld'
      exact ⟨[], by rw [List.append_nil]; rfl, .cache⟩
    · exact hother hslot ⟨rfl, rfl⟩ hheld'
  | reuseLedger hacted hconn =>
    by_cases hslot : slot = .ledger
    · obtain ⟨rfl, rfl⟩ := hnow hslot hacted hheld'
      subst hslot
      exact ⟨[], by simp, .reuseLedger rfl hconn⟩
    · exact hother hslot ⟨rfl, rfl⟩ hheld'
  | makeDir acted hacted =>
    by_cases hslot : slot = acted
    · subst hslot
      obtain rfl := Option.some.inj (hheld.symm.trans hacted)
      obtain rfl := Option.some.inj (hheld.symm.trans hheld')
      exact acts_setDir .makeDir
    · exact hquiet rfl (untouched_setDir (Slot.path_ne hworld hslot) _)
  | create acted generation hacted =>
    by_cases hslot : slot = acted
    · obtain ⟨rfl, rfl⟩ := hnow hslot hacted hheld'
      subst hslot
      refine acts_record (by rfl) ?_
      exact .create generation
    · exact hother hslot (untouched_record (Slot.path_ne hworld hslot) _ rfl) hheld'
  | statement acted hacted hdir hstatement hrun =>
    by_cases hslot : slot = acted
    · obtain ⟨rfl, rfl⟩ := hnow hslot hacted hheld'
      subst hslot
      exact acts_setDir (by rw [hdir]; exact .statement hstatement hrun)
    · exact hother hslot (untouched_setDir (Slot.path_ne hworld hslot) _) hheld'
  | indexes acted hacted hdir hrun =>
    by_cases hslot : slot = acted
    · subst hslot
      obtain rfl := Option.some.inj (hheld.symm.trans hacted)
      obtain rfl := Option.some.inj (hheld.symm.trans hheld')
      exact acts_setDir (by rw [hdir]; exact .indexes hrun)
    · exact hquiet rfl (untouched_setDir (Slot.path_ne hworld hslot) _)
  | write hacted _ hdir hcheck hrun hentry =>
    by_cases hslot : slot = .world
    · obtain ⟨rfl, rfl⟩ := hnow hslot hacted hheld'
      subst hslot hentry
      have hdir : v.dir (Slot.path call.world .world) = _ := hdir
      refine acts_record (by rfl) ?_
      rw [hdir]
      exact .write rfl hcheck hrun
    · exact hother hslot (untouched_record (Slot.path_ne hworld hslot) _ (by rw [hentry]; rfl)) hheld'
  | log hacted _ hkey hdir hjob _ _ hrun =>
    by_cases hslot : slot = .ledger
    · obtain ⟨rfl, rfl⟩ := hnow hslot hacted hheld'
      subst hslot
      have hdir : v.dir (Slot.path call.world .ledger) = _ := hdir
      have hjob := hjob
      rw [← hjob.target] at hjob
      refine acts_record (by rfl) ?_
      rw [hdir]
      exact .log rfl hkey hjob hrun
    · exact hother hslot (untouched_record (Slot.path_ne hworld hslot) _ rfl) hheld'
  | remove hacted _ hcheck _ hdelete =>
    by_cases hslot : slot = .world
    · obtain ⟨rfl, rfl⟩ := hnow hslot hacted hheld'
      subst hslot
      refine acts_record (by rfl) ?_
      exact .remove rfl hcheck hdelete
    · exact hother hslot (untouched_record (Slot.path_ne hworld hslot) _ rfl) hheld'
  | store hacted hmemory =>
    have hne : call.world ≠ slot.path call.world := fun hsame => by
      rw [← hsame, hmemory] at hdurable
      cases hdurable
    exact hquiet rfl ⟨rfl, by simp [View.record, View.setEntry, journalOf, JournalEntry.path, hne]⟩
  | removeMemory hacted hmemory =>
    have hne : call.world ≠ slot.path call.world := fun hsame => by
      rw [← hsame, hmemory] at hdurable
      cases hdurable
    exact hquiet rfl ⟨rfl, by simp [View.record, View.setEntry, journalOf, JournalEntry.path, hne]⟩
  | send acted hacted =>
    by_cases hslot : slot = acted
    · obtain ⟨rfl, rfl⟩ := hnow hslot hacted hheld'
      exact Untouched.acts ⟨rfl, rfl⟩ _
    · exact hother hslot ⟨rfl, rfl⟩ hheld'
  | _ => exact hquiet rfl ⟨rfl, rfl⟩

section Knows

variable {did : Nat → Operation → Prop} {path : ValidatedWorldPath} {connected : Bool} {checked : Option String}
  {state : Option WorldLog} {dir dir' : Option WorldDir} {status status' : Status} {entries : List JournalEntry}

/-- A database in creation is known by the number of its statements. -/
theorem knows_after (generation : WorldGeneration) {k : Nat} (hk : k ≤ 11) :
    Knows key path (.after generation k) (some (.created generation)) (some (.database (createdUpTo generation k))) := by
  have hlength : (createStatements generation).length = 11 := rfl
  rw [Status.after, hlength]
  split
  · exact ⟨rfl, rfl, by omega⟩
  · obtain rfl : k = 11 := by omega
    exact ⟨_, _, rfl, rfl, represents_createdUpTo key path (.inr rfl), WorldLog.live_created generation path⟩

/-- An effect moves the state of its world, and the call knows the new state. Only a delete of the world itself takes
its database away. -/
theorem Effect.knows (heffect : Effect key call caller connected checked path dir status entries dir' status')
    (hworld : call.world ≠ deleteLedgerWorld) (hdid : path = call.world → did caller call.operation)
    (hchecked : path = call.world → ∀ tag, checked = some tag → ∃ log, state = some log ∧ log.Tagged key path tag)
    (hknows : Knows key path status state dir)
    (hledger : path = deleteLedgerWorld → connected = true → IsLive key path state dir) :
    ∃ state', Trace (LogStep key did path) state entries state' ∧ Knows key path status' state' dir' ∧
      (path ≠ call.world → IsLive key path state dir → IsLive key path state' dir') := by
  cases heffect with
  | quiet => exact ⟨state, .refl, hknows, fun _ hlive => hlive⟩
  | missing hdir => exact ⟨state, .refl, ⟨hknows.shows.eq_none hdir, hdir⟩, fun _ hlive => hlive⟩
  | look hshape => exact ⟨state, .refl, hknows.shows.live_of_shape hshape, fun _ hlive => hlive⟩
  | cache => exact ⟨state, .refl, hknows, fun _ hlive => hlive⟩
  | reuseLedger hpath hconn => exact ⟨state, .refl, hledger hpath hconn, fun _ hlive => hlive⟩
  | makeDir =>
    obtain ⟨rfl, hdir⟩ := hknows
    exact ⟨none, .refl, ⟨rfl, nofun⟩, fun _ ⟨_, _, hnone, _⟩ => by cases hnone⟩
  | create generation =>
    obtain ⟨rfl, hdir⟩ := hknows
    exact ⟨_, .single (.created generation), knows_after generation (Nat.zero_le _),
      fun _ ⟨_, _, hnone, _⟩ => by cases hnone⟩
  | @statement generation k _ db _ hstatement hrun =>
    obtain ⟨rfl, hdir, hk⟩ := hknows
    cases hdir
    obtain rfl := createdUpTo_succ hstatement hrun
    refine ⟨_, .refl, knows_after generation (by omega), fun _ hlive => ?_⟩
    -- a database without all its tables is not live
    have hten : ¬ k < 10 := fun hlt => by
      obtain ⟨log, _, -, hdb, hrep, -⟩ := hlive
      cases hdb
      exact verifyOpenShape_createdUpTo hlt hrep.verifyOpenShape_eq
    exact ⟨_, _, rfl, rfl, represents_createdUpTo key path (by omega), WorldLog.live_created generation path⟩
  | indexes hrun =>
    exact ⟨state, .refl, IsLive.ensureWriteIndexes hknows hrun, fun _ hlive => hlive.ensureWriteIndexes hrun⟩
  | write hpath hmay hrun =>
    obtain ⟨log, _, rfl, hdir, hrep, hlive⟩ := hknows
    cases hdir
    have hmatched : call.operation.Matched key path log := by
      intro tag htag
      obtain ⟨_, hlog, htagged⟩ := hchecked hpath tag (hmay tag htag)
      cases hlog
      exact htagged
    obtain ⟨log', hrep', hwrites, hlive'⟩ := hrun.writes hrep hlive
    have hafter : IsLive key path (some log') (some (.database _)) := ⟨log', _, rfl, rfl, hrep', hlive'⟩
    exact ⟨some log', .single (.wrote (hpath ▸ hworld) (hdid hpath) hmatched hrep hlive hrun hwrites hrep'), hafter, fun _ _ => hafter⟩
  | log hpath hkey hjob hrun =>
    subst hpath hkey
    obtain ⟨log, _, rfl, hdir, hrep, hlive⟩ := hknows
    cases hdir
    obtain ⟨log', hrep', hlogs⟩ := ledgerTransaction_logs hrep hjob hrun
    have hafter : IsLive _ deleteLedgerWorld (some log') (some (.database _)) :=
      ⟨log', _, rfl, rfl, hrep', hlogs.live hjob hlive⟩
    exact ⟨some log', .single (.logged rfl hjob hlogs), hafter, fun _ _ => hafter⟩
  | remove hpath hmay hdelete =>
    obtain ⟨log, _, rfl, -, -, -⟩ := hknows
    have hmatched : call.operation.Matched key path log := by
      intro tag htag
      obtain ⟨_, hlog, htagged⟩ := hchecked hpath tag (hmay tag htag)
      cases hlog
      exact htagged
    exact ⟨none, .single (.removed (hpath ▸ hworld) (hdid hpath) hmatched hdelete), .absent nofun,
      fun hne => absurd hpath hne⟩

end Knows

section Locks

/-- The locks before and after a step. -/
inductive LockStep (world : ValidatedWorldPath) (v v' : View) (l l' : Local) : Prop where
  | same (hlocked : v'.locked = v.locked) (hheld : ∀ slot, (l'.held slot).isSome = (l.held slot).isSome)
  | lock (slot : Slot) (hworld : world ≠ deleteLedgerWorld) (hfree : v.locked (slot.path world) = false)
      (hview : v' = v.setLock (slot.path world) true)
      (hheld : l'.held = Function.update l.held slot (some ⟨.unknown, []⟩)) (hchecked : l'.checked = none)
  | unlock (slot : Slot) (hbefore : (l.held slot).isSome = true)
      (hview : v' = v.setLock (slot.path world) false) (hheld : l'.held = Function.update l.held slot none)

omit [HashSuite] in
/-- Holding a world that is held already takes no lock. -/
theorem lockStep_hold {slot : Slot} {before after : Holding} (hbefore : l.held slot = some before)
    (hlocked : v'.locked = v.locked) (hheld : l'.held = (l.hold slot after).held) :
    LockStep call.world v v' l l' := by
  refine .same hlocked fun other => ?_
  rw [hheld]
  by_cases hother : other = slot
  · rw [hother, Local.hold_held, hbefore]
    rfl
  · rw [Local.hold_held_of_ne _ _ _ hother]

/-- Only locking and unlocking change the locks. -/
theorem Protocol.lockStep (hstep : Protocol key call caller v l v' l') : LockStep call.world v v' l l' := by
  cases hstep with
  | lock slot hworld hfree _ hchecked => exact .lock slot hworld hfree rfl rfl hchecked
  | unlock slot hheld => exact .unlock slot (by rw [hheld]; rfl) rfl rfl
  | missing slot hheld => exact lockStep_hold hheld rfl rfl
  | look slot hheld => exact lockStep_hold hheld rfl rfl
  | reuse hheld => exact lockStep_hold hheld rfl rfl
  | cache hheld => exact lockStep_hold hheld rfl rfl
  | reuseLedger hheld => exact lockStep_hold hheld rfl rfl
  | create slot generation hheld => exact lockStep_hold hheld rfl rfl
  | statement slot hheld => exact lockStep_hold hheld rfl rfl
  | write hheld => exact lockStep_hold hheld rfl rfl
  | log hheld => exact lockStep_hold hheld rfl rfl
  | remove hheld => exact lockStep_hold hheld rfl rfl
  | send slot hheld => exact lockStep_hold hheld rfl rfl
  | _ => exact .same rfl fun _ => rfl

omit [HashSuite] in
/-- A world that a call gives back is as the call left it. -/
theorem LockStep.released {world : ValidatedWorldPath} {slot : Slot} {holding : Holding}
    (hstep : LockStep world v v' l l') (hbefore : l.held slot = some holding) (hafter : l'.held slot = none) :
    v' = v.setLock (slot.path world) false := by
  cases hstep with
  | same _ hheld =>
    have hslot := hheld slot
    rw [hbefore, hafter] at hslot
    cases hslot
  | lock taken _ _ _ hheld _ =>
    rw [hheld] at hafter
    by_cases hslot : slot = taken
    · rw [hslot, Function.update_self] at hafter
      cases hafter
    · rw [Function.update_of_ne hslot, hbefore] at hafter
      cases hafter
  | unlock given _ hview hheld =>
    rw [hheld] at hafter
    by_cases hslot : slot = given
    · rw [hslot, hview]
    · rw [Function.update_of_ne hslot, hbefore] at hafter
      cases hafter

omit [HashSuite] in
/-- Nothing is known about a world that was just locked. -/
theorem LockStep.taken {world : ValidatedWorldPath} {slot : Slot} {holding : Holding}
    (hstep : LockStep world v v' l l') (hbefore : l.held slot = none) (hafter : l'.held slot = some holding) :
    holding = ⟨.unknown, []⟩ ∧ l'.checked = none := by
  cases hstep with
  | same _ hheld =>
    have hslot := hheld slot
    rw [hbefore, hafter] at hslot
    cases hslot
  | lock taken _ _ _ hheld hchecked =>
    rw [hheld] at hafter
    by_cases hslot : slot = taken
    · rw [hslot, Function.update_self] at hafter
      exact ⟨(Option.some.inj hafter).symm, hchecked⟩
    · rw [Function.update_of_ne hslot, hbefore] at hafter
      cases hafter
  | unlock given _ _ hheld =>
    rw [hheld] at hafter
    by_cases hslot : slot = given
    · rw [hslot, Function.update_self] at hafter
      cases hafter
    · rw [Function.update_of_ne hslot, hbefore] at hafter
      cases hafter

variable {n : Nat} (calls : Calls n)

/-- The holders of the worlds: a held world is locked, no two calls hold one world, and no call on the ledger itself
holds anything. -/
structure Exclusive (v : View) (locals : Fin n → Local) : Prop where
  locked : ∀ i slot, ((locals i).held slot).isSome = true → v.locked (slot.path (calls.call i).world) = true
  alone : ∀ i j slot slot', ((locals i).held slot).isSome = true → ((locals j).held slot').isSome = true →
    slot.path (calls.call i).world = slot'.path (calls.call j).world → i = j ∧ slot = slot'
  world : ∀ i slot, ((locals i).held slot).isSome = true → (calls.call i).world ≠ deleteLedgerWorld

variable {calls}

omit [HashSuite] in
/-- Every step keeps the holders exclusive. -/
theorem Exclusive.step {locals : Fin n → Local} {i : Fin n} (h : Exclusive calls v locals)
    (hstep : LockStep (calls.call i).world v v' (locals i) l') : Exclusive calls v' (Function.update locals i l') := by
  cases hstep with
  | same hlocked hheld =>
    have hsame : ∀ j slot, ((Function.update locals i l' j).held slot).isSome = ((locals j).held slot).isSome := by
      intro j slot
      by_cases hj : j = i
      · rw [hj, Function.update_self, hheld]
      · rw [Function.update_of_ne hj]
    refine ⟨fun j slot hj => ?_, fun j k slot slot' hj hk => ?_, fun j slot hj => ?_⟩
    · rw [hlocked]
      exact h.locked j slot (hsame j slot ▸ hj)
    · exact h.alone j k slot slot' (hsame j slot ▸ hj) (hsame k slot' ▸ hk)
    · exact h.world j slot (hsame j slot ▸ hj)
  | lock taken hworld hfree hview hheld _ =>
    have hlocked : v'.locked = Function.update v.locked (taken.path (calls.call i).world) true := by rw [hview]; rfl
    -- whoever holds a world afterwards held it before, or took it now
    have hcases : ∀ j slot, ((Function.update locals i l' j).held slot).isSome = true →
        (j = i ∧ slot = taken) ∨ ((locals j).held slot).isSome = true := by
      intro j slot hj
      by_cases hji : j = i
      · subst hji
        rw [Function.update_self, hheld] at hj
        by_cases hslot : slot = taken
        · exact .inl ⟨rfl, hslot⟩
        · rw [Function.update_of_ne hslot] at hj
          exact .inr hj
      · rw [Function.update_of_ne hji] at hj
        exact .inr hj
    have hnew : ∀ j slot, ((locals j).held slot).isSome = true →
        slot.path (calls.call j).world ≠ taken.path (calls.call i).world := by
      intro j slot hj hsame
      have hlock := h.locked j slot hj
      rw [hsame, hfree] at hlock
      cases hlock
    refine ⟨fun j slot hj => ?_, fun j k slot slot' hj hk hpath => ?_, fun j slot hj => ?_⟩
    · rw [hlocked]
      rcases hcases j slot hj with ⟨rfl, rfl⟩ | hj
      · rw [Function.update_self]
      · rw [Function.update_of_ne (hnew j slot hj)]
        exact h.locked j slot hj
    · rcases hcases j slot hj with ⟨rfl, rfl⟩ | holdj <;> rcases hcases k slot' hk with ⟨rfl, rfl⟩ | holdk
      · exact ⟨rfl, rfl⟩
      · exact absurd hpath.symm (hnew k slot' holdk)
      · exact absurd hpath (hnew j slot holdj)
      · exact h.alone j k slot slot' holdj holdk hpath
    · rcases hcases j slot hj with ⟨rfl, rfl⟩ | hj
      · exact hworld
      · exact h.world j slot hj
  | unlock given hbefore hview hheld =>
    have hlocked : v'.locked = Function.update v.locked (given.path (calls.call i).world) false := by rw [hview]; rfl
    have hcases : ∀ j slot, ((Function.update locals i l' j).held slot).isSome = true →
        ((locals j).held slot).isSome = true ∧ ¬ (j = i ∧ slot = given) := by
      intro j slot hj
      by_cases hji : j = i
      · subst hji
        rw [Function.update_self, hheld] at hj
        by_cases hslot : slot = given
        · rw [hslot, Function.update_self] at hj
          cases hj
        · rw [Function.update_of_ne hslot] at hj
          exact ⟨hj, fun hboth => hslot hboth.2⟩
      · rw [Function.update_of_ne hji] at hj
        exact ⟨hj, fun hboth => hji hboth.1⟩
    refine ⟨fun j slot hj => ?_, fun j k slot slot' hj hk => ?_, fun j slot hj => ?_⟩
    · obtain ⟨hj, hne⟩ := hcases j slot hj
      rw [hlocked, Function.update_of_ne fun hpath => hne (h.alone j i slot given hj hbefore hpath)]
      exact h.locked j slot hj
    · exact h.alone j k slot slot' (hcases j slot hj).1 (hcases k slot' hk).1
    · exact h.world j slot (hcases j slot hj).1

end Locks

section Histories

variable {n : Nat} (calls : Calls n)

/-- A caller runs an operation on a world. -/
def Calls.Did (path : ValidatedWorldPath) (caller : Nat) (operation : Operation) : Prop :=
  ∃ i : Fin n, (i : Nat) = caller ∧ (calls.call i).world = path ∧ (calls.call i).operation = operation

/-- The history of a durable world since some point: the journal since then leads from the state at that point to the
present one, which the directory shows and the holder knows. -/
structure HasState (path : ValidatedWorldPath) (v : View) (locals : Fin n → Local) (state : Option WorldLog) :
    Prop where
  shows : Shows calls.key path state (v.dir path)
  ledger : path = deleteLedgerWorld → v.ledgerConn = true → IsLive calls.key path state (v.dir path)
  knows : ∀ i slot holding, (locals i).held slot = some holding → slot.path (calls.call i).world = path →
    Knows calls.key path holding.status state (v.dir path)
  checked : ∀ i holding tag, (locals i).held .world = some holding → (calls.call i).world = path →
    (locals i).checked = some tag → ∃ log, state = some log ∧ log.Tagged calls.key path tag

/-- The state of a durable world, and how the journal since some point led to it. -/
def HasHistory (path : ValidatedWorldPath) (start : Option WorldLog) (base : List JournalEntry) (v : View)
    (locals : Fin n → Local) : Prop :=
  ∃ since state, journalOf path v.journal = base ++ since ∧
    Trace (LogStep calls.key (calls.Did path) path) start since state ∧ HasState calls path v locals state

variable {calls} {path : ValidatedWorldPath} {locals : Fin n → Local}

/-- The ledger connection is opened by the holder of the ledger. -/
theorem Protocol.ledgerConn (hstep : Protocol key call caller v l v' l') (hconn : v'.ledgerConn = true) :
    v.ledgerConn = true ∨ ∃ opened pending, l.held .ledger = some ⟨.ready opened, pending⟩ ∧
      l'.held .ledger = some ⟨.ready opened, pending⟩ := by
  cases hstep with
  | cacheLedger hheld => exact .inr ⟨_, _, hheld, hheld⟩
  | _ => exact .inl hconn

/-- A tag that was matched stays the one of the world until the call takes effect. -/
theorem Protocol.checked (hstep : Protocol key call caller v l v' l') (hworld : call.world ≠ deleteLedgerWorld)
    (hdurable : isMemoryWorld call.world = false) {holding : Holding} {tag : String}
    (hheld : l.held .world = some holding) (hchecked : l'.checked = some tag) :
    (v' = v ∧ v.HasTag key call.world tag) ∨ (l.checked = some tag ∧
      (journalOf call.world v'.journal = journalOf call.world v.journal ∨ holding.status = .missing)) := by
  cases hstep with
  | check _ htag =>
    cases hchecked
    exact .inl ⟨rfl, htag⟩
  | write => cases hchecked
  | remove => cases hchecked
  | removeMemory => cases hchecked
  | store _ hmemory =>
    rw [hmemory] at hdurable
    cases hdurable
  | create slot generation hacted =>
    refine .inr ⟨hchecked, ?_⟩
    cases slot with
    | world =>
      rw [hheld] at hacted
      cases hacted
      exact .inr rfl
    | ledger =>
      have hne : Slot.path call.world .ledger ≠ call.world := hworld.symm
      exact .inl (by simp [View.record, View.setDir, journalOf, JournalEntry.path, hne])
  | log =>
    exact .inr ⟨hchecked, .inl (by simp [View.record, View.setDir, journalOf, JournalEntry.path, hworld.symm])⟩
  | _ => exact .inr ⟨hchecked, .inl rfl⟩

/-- A step of a call that holds a durable world moves its state by the entries it adds to the journal. -/
theorem HasState.step_held {state : Option WorldLog} {i : Fin n} {slot : Slot} {holding : Holding}
    (h : HasState calls (slot.path (calls.call i).world) v locals state)
    (hdurable : isMemoryWorld (slot.path (calls.call i).world) = false) (hexclusive : Exclusive calls v locals)
    (hheld : (locals i).held slot = some holding)
    (hstep : Protocol calls.key (calls.call i) i v (locals i) v' l') :
    ∃ entries state', journalOf (slot.path (calls.call i).world) v'.journal =
        journalOf (slot.path (calls.call i).world) v.journal ++ entries ∧
      Trace (LogStep calls.key (calls.Did (slot.path (calls.call i).world)) (slot.path (calls.call i).world)) state
        entries state' ∧
      HasState calls (slot.path (calls.call i).world) v' (Function.update locals i l') state' := by
  have hsome : ((locals i).held slot).isSome = true := by rw [hheld]; rfl
  have hworld := hexclusive.world i slot hsome
  -- nobody else holds the world, before or after the step
  have hholder : ∀ j other after, (Function.update locals i l' j).held other = some after →
      other.path (calls.call j).world = slot.path (calls.call i).world → j = i ∧ other = slot := by
    intro j other after hafter hpath
    by_cases hj : j = i
    · subst hj
      by_contra hne
      exact Slot.path_ne hworld (fun hsame => hne ⟨rfl, hsame⟩) hpath
    · rw [Function.update_of_ne hj] at hafter
      exact hexclusive.alone j i other slot (by rw [hafter]; rfl) hsome hpath
  cases hafter : l'.held slot with
  | none =>
    obtain rfl := hstep.lockStep.released hheld hafter
    refine ⟨[], state, by rw [List.append_nil]; rfl, .refl, h.shows, h.ledger, fun j other after hother hpath => ?_,
      fun j after tag hother hpath => ?_⟩
    · obtain ⟨rfl, rfl⟩ := hholder j other after hother hpath
      rw [Function.update_self, hafter] at hother
      cases hother
    · obtain ⟨rfl, rfl⟩ := hholder j .world after hother hpath
      rw [Function.update_self, hafter] at hother
      cases hother
  | some holding' =>
    obtain ⟨entries, hjournal, heffect⟩ := hstep.acts hworld hdurable hheld hafter
    have hdid : slot.path (calls.call i).world = (calls.call i).world →
        calls.Did (slot.path (calls.call i).world) i (calls.call i).operation :=
      fun hpath => ⟨i, rfl, hpath.symm, rfl⟩
    have hmatched : slot.path (calls.call i).world = (calls.call i).world → ∀ tag, (locals i).checked = some tag →
        ∃ log, state = some log ∧ log.Tagged calls.key (slot.path (calls.call i).world) tag := by
      intro hpath tag
      cases slot with
      | world => exact h.checked i holding tag hheld rfl
      | ledger => exact absurd hpath.symm hworld
    obtain ⟨state', hsteps, hknows, hlive⟩ :=
      heffect.knows hworld hdid hmatched (h.knows i slot holding hheld rfl) h.ledger
    refine ⟨entries, state', hjournal, hsteps, hknows.shows, fun hledger hconn => ?_, fun j other after hother hpath => ?_,
      fun j after tag hother hpath hchecked => ?_⟩
    · rcases hstep.ledgerConn hconn with hconn | ⟨opened, pending, -, hready⟩
      · exact hlive (hledger ▸ hworld.symm) (h.ledger hledger hconn)
      · obtain rfl : slot = .ledger := by
          cases slot with
          | world => exact absurd hledger hworld
          | ledger => rfl
        rw [hafter] at hready
        cases hready
        exact hknows
    · obtain ⟨rfl, rfl⟩ := hholder j other after hother hpath
      rw [Function.update_self, hafter] at hother
      cases hother
      exact hknows
    · obtain ⟨rfl, rfl⟩ := hholder j .world after hother hpath
      rw [Function.update_self] at hchecked
      -- without an entry in the journal the state is the one that was matched
      have hstay : journalOf (calls.call j).world v'.journal = journalOf (calls.call j).world v.journal →
          state' = state := by
        intro hsame
        have hentries : journalOf (calls.call j).world v'.journal =
            journalOf (calls.call j).world v.journal ++ entries := hjournal
        obtain rfl : entries = [] := by simpa [hsame] using hentries
        exact hsteps.eq_of_nil
      rcases hstep.checked hworld hdurable hheld hchecked with ⟨rfl, htag⟩ | ⟨hbefore, hsame | hmissing⟩
      · rw [hstay rfl]
        exact h.shows.tagged htag
      · rw [hstay hsame]
        exact h.checked j holding tag hheld rfl hbefore
      · obtain ⟨log, hlog, -⟩ := h.checked j holding tag hheld rfl hbefore
        have hnone := h.knows j .world holding hheld rfl
        rw [hmissing] at hnone
        rw [hlog] at hnone
        cases hnone.1

/-- A step of a call that does not hold a durable world leaves its state alone. -/
theorem HasState.step_free {state : Option WorldLog} {i : Fin n} (h : HasState calls path v locals state)
    (hfree : ∀ slot, ((locals i).held slot).isSome = true → path ≠ slot.path (calls.call i).world)
    (hstep : Protocol calls.key (calls.call i) i v (locals i) v' l') :
    journalOf path v'.journal = journalOf path v.journal ∧
      HasState calls path v' (Function.update locals i l') state := by
  obtain ⟨hdir, hjournal⟩ := hstep.untouched hfree
  refine ⟨hjournal, by rw [hdir]; exact h.shows, fun hledger hconn => ?_, fun j slot holding hheld hpath => ?_,
    fun j holding tag hheld hpath hchecked => ?_⟩
  · rw [hdir]
    rcases hstep.ledgerConn hconn with hconn | ⟨opened, pending, hready, -⟩
    · exact h.ledger hledger hconn
    · exact absurd hledger (hfree .ledger (by rw [hready]; rfl))
  · rw [hdir]
    by_cases hj : j = i
    · subst hj
      rw [Function.update_self] at hheld
      cases hbefore : (locals j).held slot with
      | none =>
        obtain ⟨rfl, -⟩ := hstep.lockStep.taken hbefore hheld
        exact h.shows
      | some before => exact absurd hpath.symm (hfree slot (by rw [hbefore]; rfl))
    · rw [Function.update_of_ne hj] at hheld
      exact h.knows j slot holding hheld hpath
  · by_cases hj : j = i
    · subst hj
      rw [Function.update_self] at hheld hchecked
      cases hbefore : (locals j).held .world with
      | none =>
        rw [(hstep.lockStep.taken hbefore hheld).2] at hchecked
        cases hchecked
      | some before => exact absurd hpath.symm (hfree .world (by rw [hbefore]; rfl))
    · rw [Function.update_of_ne hj] at hheld hchecked
      exact h.checked j holding tag hheld hpath hchecked

/-- Every step moves the state of a durable world by the entries it adds to the journal. -/
theorem HasState.step {state : Option WorldLog} {i : Fin n} (h : HasState calls path v locals state)
    (hdurable : isMemoryWorld path = false) (hexclusive : Exclusive calls v locals)
    (hstep : Protocol calls.key (calls.call i) i v (locals i) v' l') :
    ∃ entries state', journalOf path v'.journal = journalOf path v.journal ++ entries ∧
      Trace (LogStep calls.key (calls.Did path) path) state entries state' ∧
      HasState calls path v' (Function.update locals i l') state' := by
  by_cases hholds : ∃ slot, ((locals i).held slot).isSome = true ∧ slot.path (calls.call i).world = path
  · obtain ⟨slot, hsome, rfl⟩ := hholds
    obtain ⟨holding, hheld⟩ := Option.isSome_iff_exists.mp hsome
    exact h.step_held hdurable hexclusive hheld hstep
  · have hfree : ∀ slot, ((locals i).held slot).isSome = true → path ≠ slot.path (calls.call i).world :=
      fun slot hsome hpath => hholds ⟨slot, hsome, hpath.symm⟩
    obtain ⟨hjournal, hstate⟩ := h.step_free hfree hstep
    exact ⟨[], state, by rw [hjournal, List.append_nil], .refl, hstate⟩

/-- What a step adds to the journal: nothing, the creation of a database, or an entry of its own. -/
inductive JournalStep (caller : Nat) (v v' : View) (l l' : Local) : Prop where
  | silent (hjournal : v'.journal = v.journal) (hown : l'.own = l.own)
  | created (path : ValidatedWorldPath) (generation : WorldGeneration)
      (hjournal : v'.journal = v.journal ++ [.created path generation]) (hown : l'.own = l.own)
  | own {entry : JournalEntry} (hcaller : entry.caller = some caller) (hjournal : v'.journal = v.journal ++ [entry])
      (hown : l'.own = l.own ++ [entry])

/-- A call records its effects in the journal as it takes them. -/
theorem Protocol.journalStep (hstep : Protocol key call caller v l v' l') : JournalStep caller v v' l l' := by
  cases hstep with
  | create slot generation => exact .created _ generation rfl rfl
  | write _ _ _ _ _ hentry => exact .own (by rw [hentry]; rfl) rfl rfl
  | store => exact .own (by rfl) rfl rfl
  | log => exact .own (by rfl) rfl rfl
  | remove => exact .own (by rfl) rfl rfl
  | removeMemory => exact .own (by rfl) rfl rfl
  | _ => exact .silent rfl rfl

/-- The journal since some point, and the entries of every call in the whole of it. -/
structure Journaled (base : List JournalEntry) (v : View) (locals : Fin n → Local) : Prop where
  since : base <+: v.journal
  own : ∀ i : Fin n, v.journal.filter (fun entry => entry.caller = some (i : Nat)) = (locals i).own

omit [HashSuite] in
/-- Every step records what it does. -/
theorem Journaled.step {base : List JournalEntry} {i : Fin n} (h : Journaled base v locals)
    (hstep : JournalStep i v v' (locals i) l') : Journaled base v' (Function.update locals i l') := by
  have hsame : ∀ {entries : List JournalEntry}, v'.journal = v.journal ++ entries →
      l'.own = (locals i).own ++ entries.filter (fun entry => entry.caller = some (i : Nat)) →
      (∀ entry ∈ entries, ∀ caller, entry.caller = some caller → caller = i) →
      Journaled base v' (Function.update locals i l') := by
    intro entries hjournal hown hcallers
    refine ⟨by rw [hjournal]; exact h.since.trans (List.prefix_append _ _), fun j => ?_⟩
    rw [hjournal, List.filter_append, h.own j]
    by_cases hj : j = i
    · rw [hj, Function.update_self, hown]
    · rw [Function.update_of_ne hj, List.filter_eq_nil_iff.mpr, List.append_nil]
      intro entry hentry hcaller
      exact hj (Fin.ext (hcallers entry hentry j (of_decide_eq_true hcaller)))
  cases hstep with
  | silent hjournal hown =>
    exact hsame (by rw [hjournal, List.append_nil]) (by rw [hown]; simp) (by simp)
  | created path generation hjournal hown =>
    refine hsame hjournal (by rw [hown]; simp [JournalEntry.caller]) ?_
    simp [JournalEntry.caller]
  | @own entry hcaller hjournal hown =>
    refine hsame hjournal (by rw [hown]; simp [hcaller]) fun other hother caller hcaller' => ?_
    rw [List.mem_singleton.mp hother, hcaller] at hcaller'
    exact (Option.some.inj hcaller').symm

/-- What a step does to a world in memory. -/
theorem Protocol.memStep (hstep : Protocol key call caller v l v' l') (hmemory : isMemoryWorld path = true) :
    (v'.entry path = v.entry path ∧ journalOf path v'.journal = journalOf path v.journal) ∨
      ∃ entry, path = call.world ∧ journalOf path v'.journal = journalOf path v.journal ++ [entry] ∧
        ∀ did : Nat → Operation → Prop, did caller call.operation →
          MemStep did path (v.entry path) entry (v'.entry path) := by
  have hledger : deleteLedgerWorld ≠ path := by
    rintro rfl
    rw [isMemoryWorld_deleteLedgerWorld] at hmemory
    cases hmemory
  have hdurable : ∀ {other : ValidatedWorldPath}, isMemoryWorld other = false → other ≠ path := by
    rintro other hother rfl
    rw [hmemory] at hother
    cases hother
  cases hstep with
  | create slot generation _ hslot =>
    exact .inl ⟨rfl, by simp [View.record, View.setDir, journalOf, JournalEntry.path, hdurable hslot]⟩
  | write _ hworld _ _ _ hentry =>
    exact .inl ⟨rfl, by simp [hentry, View.record, View.setDir, journalOf, JournalEntry.path, hdurable hworld]⟩
  | log => exact .inl ⟨rfl, by simp [View.record, View.setDir, journalOf, JournalEntry.path, hledger]⟩
  | remove _ hworld =>
    exact .inl ⟨rfl, by simp [View.record, View.setDir, journalOf, JournalEntry.path, hdurable hworld]⟩
  | @store _ entry _ _ hstores =>
    by_cases hpath : call.world = path
    · subst hpath
      refine .inr ⟨.stored caller call.world entry, rfl, ?_, fun did hdid => ?_⟩
      · simp [View.record, View.setEntry, journalOf, JournalEntry.path]
      · simp only [View.record, View.setEntry, Function.update_self]
        exact .stored hdid hstores
    · refine .inl ⟨Function.update_of_ne (Ne.symm hpath) _ _, ?_⟩
      simp [View.record, View.setEntry, journalOf, JournalEntry.path, hpath]
  | removeMemory =>
    by_cases hpath : call.world = path
    · subst hpath
      refine .inr ⟨.removed caller call.world, rfl, ?_, fun did _ => ?_⟩
      · simp [View.record, View.setEntry, journalOf, JournalEntry.path]
      · simp only [View.record, View.setEntry, Function.update_self]
        exact .removed caller _
    · refine .inl ⟨Function.update_of_ne (Ne.symm hpath) _ _, ?_⟩
      simp [View.record, View.setEntry, journalOf, JournalEntry.path, hpath]
  | _ => exact .inl ⟨rfl, rfl⟩

variable (calls) in
/-- The moves of a world in memory since some point lead to its present entry. -/
def HasEntries (path : ValidatedWorldPath) (start : Option MemEntry) (base : List JournalEntry) (v : View) : Prop :=
  ∃ since, journalOf path v.journal = base ++ since ∧ Trace (MemStep (calls.Did path) path) start since (v.entry path)

/-- Every step moves the entry of a world in memory by the entries it adds to the journal. -/
theorem HasEntries.step {start : Option MemEntry} {base : List JournalEntry} {i : Fin n}
    (h : HasEntries calls path start base v) (hmemory : isMemoryWorld path = true)
    (hstep : Protocol calls.key (calls.call i) i v l v' l') : HasEntries calls path start base v' := by
  obtain ⟨since, hjournal, htrace⟩ := h
  rcases hstep.memStep hmemory with ⟨hentry, hsame⟩ | ⟨entry, hpath, hmore, hmove⟩
  · exact ⟨since, hsame.trans hjournal, by rwa [hentry]⟩
  · exact ⟨since ++ [entry], by rw [hmore, hjournal, List.append_assoc],
      htrace.snoc (hmove _ ⟨i, rfl, hpath.symm, rfl⟩)⟩

/-- The row ids of a world that shows its state are unique and fit the type of SQLite. -/
theorem Shows.keyed {state : Option WorldLog} {db : Database} (h : Shows key path state (some (.database db))) :
    db.UniqueIds ∧ ∀ e ∈ db.events, e.id ≤ i64Max := by
  cases h with
  | absent hdir => exact absurd rfl (hdir db)
  | @creating generation k hk =>
    have hevents : (createdUpTo generation k).events = [] := createdUpTo_events hk.le
    rw [Database.UniqueIds, hevents]
    exact ⟨List.nodup_nil, fun e he => absurd he List.not_mem_nil⟩
  | live hrep =>
    refine ⟨hrep.chain.uniqueIds, ?_⟩
    intro e he
    obtain ⟨j, hj, prev, rfl⟩ := hrep.mem_events he
    have hbounded := hrep.chain.bounded
    simp only [LogEntry.row, EventRow.record]
    omega

variable (calls)

/-- A point of a run: the states of its worlds, with the journal up to it. -/
structure Point where
  log : ValidatedWorldPath → Option WorldLog
  entry : ValidatedWorldPath → Option MemEntry
  journal : List JournalEntry

/-- The start of an engine on an empty data root. -/
def Point.fresh : Point := ⟨fun _ => none, fun _ => none, []⟩

/-- What holds at any time in a run since some point: the holders are exclusive, every world has moved from its state
at that point to its present one as the journal says, and every call has its entries in the journal. -/
structure Calls.Consistent (start : Point) (v : View) (locals : Fin n → Local) : Prop where
  exclusive : Exclusive calls v locals
  history : ∀ path, isMemoryWorld path = false →
    HasHistory calls path (start.log path) (journalOf path start.journal) v locals
  memory : ∀ path, isMemoryWorld path = true →
    HasEntries calls path (start.entry path) (journalOf path start.journal) v
  journal : Journaled start.journal v locals

variable {calls} {start : Point}

/-- Every step keeps a run consistent. -/
theorem Calls.Consistent.step {i : Fin n} (h : calls.Consistent start v locals)
    (hstep : Protocol calls.key (calls.call i) i v (locals i) v' l') :
    calls.Consistent start v' (Function.update locals i l') := by
  refine ⟨h.exclusive.step hstep.lockStep, fun path hdurable => ?_, fun path hmemory => ?_,
    h.journal.step hstep.journalStep⟩
  · obtain ⟨since, state, hjournal, hsteps, hstate⟩ := h.history path hdurable
    obtain ⟨entries, state', hjournal', hsteps', hstate'⟩ := hstate.step hdurable h.exclusive hstep
    exact ⟨since ++ entries, state', by rw [hjournal', hjournal, List.append_assoc], hsteps.append hsteps', hstate'⟩
  · exact (h.memory path hmemory).step hmemory hstep

/-- In a consistent run all row ids are unique. -/
theorem Calls.Consistent.keyed (h : calls.Consistent start v locals) : v.Keyed := by
  intro path db hdurable hdir
  obtain ⟨since, state, -, -, hstate⟩ := h.history path hdurable
  have hshows := hstate.shows
  rw [hdir] at hshows
  exact hshows.keyed

variable (calls) in
/-- The protocol of a call among the others. -/
abbrev Calls.protocol (i : Fin n) (core : Core) (l : Local) (core' : Core) (l' : Local) : Prop :=
  Protocol calls.key (calls.call i) i core.view l core'.view l'

variable (calls start) in
/-- Consistency is an invariant of the protocol. -/
theorem Calls.consistent_invariant : ProtocolInvariant (fun _ core _ => core.view.Keyed) calls.protocol
    (fun core locals => calls.Consistent start core.view locals) where
  agrees _ _ h _ := h.keyed
  step _ _ _ _ _ h hstep := h.step hstep

omit [HashSuite] in
/-- What happens outside the calls changes no directory, no entry in memory, no lock, no journal and no sent
notification, and only closes connections. -/
theorem Environment.view {core core' : Core} (h : Environment core core') :
    ∃ conn ledgerConn, core'.view = { core.view with conn := conn, ledgerConn := ledgerConn } ∧
      (∀ path, conn path = core.view.conn path ∨ conn path = none) ∧
      (ledgerConn = true → core.view.ledgerConn = true) := by
  cases h with
  | evict world =>
    refine ⟨Function.update core.view.conn world none, core.view.ledgerConn, ?_, fun path => ?_, id⟩
    · exact core.view_writeConns world (lookup_erase_eq_update _ _)
    · by_cases hpath : path = world
      · rw [hpath, Function.update_self]
        exact .inr rfl
      · rw [Function.update_of_ne hpath]
        exact .inl rfl
  | verified worlds => exact ⟨_, _, rfl, fun _ => .inl rfl, id⟩
  | closeLedger => exact ⟨core.view.conn, false, rfl, fun _ => .inl rfl, nofun⟩
  | shuttingDown fileOps sent => exact ⟨_, _, rfl, fun _ => .inl rfl, id⟩

/-- What happens outside the calls keeps a run consistent. -/
theorem Calls.Consistent.environment {core core' : Core} (h : calls.Consistent start core.view locals)
    (henvironment : Environment core core') : calls.Consistent start core'.view locals := by
  obtain ⟨conn, ledgerConn, hview, -, hledger⟩ := henvironment.view
  rw [hview]
  refine ⟨⟨h.exclusive.locked, h.exclusive.alone, h.exclusive.world⟩, fun path hdurable => ?_, h.memory,
    ⟨h.journal.since, h.journal.own⟩⟩
  obtain ⟨since, state, hjournal, hsteps, hstate⟩ := h.history path hdurable
  exact ⟨since, state, hjournal, hsteps, hstate.shows, fun hpath hconn => hstate.ledger hpath (hledger hconn),
    hstate.knows, hstate.checked⟩

variable (calls) in
/-- The pool of a consistent run: every thread follows the protocol of its call. -/
def Calls.Runs (inv : View → (Fin n → Local) → Prop) (pool : Pool (Fin n) Core CallError Reply) : Prop :=
  pool.Invariant (fun _ core _ => core.view.Keyed) calls.protocol (fun core locals => inv core.view locals)
    fun i => CallPost (calls.call i) i

/-- The calls follow the protocol from the start. -/
theorem Calls.runs_pool {inv : View → (Fin n → Local) → Prop} {core : Core}
    (hinv : inv core.view fun _ => .idle) : calls.Runs inv (calls.pool core) :=
  ⟨fun _ => .idle, hinv, fun i => (calls.call i).program_follows (calls.hmacKey i)⟩

/-- An engine starts without histories. -/
theorem Calls.consistent_fresh : calls.Consistent .fresh Core.fresh.view fun _ => .idle := by
  refine ⟨⟨fun i slot h => (by cases h), fun i j slot slot' h => (by cases h), fun i slot h => (by cases h)⟩,
    fun path _ => ⟨[], none, rfl, .refl, .absent ?_, nofun, fun i slot holding h => (by cases h),
      fun i holding tag h => (by cases h)⟩,
    fun path _ => ⟨[], rfl, .refl⟩, List.nil_prefix, fun i => rfl⟩
  have hdir : Core.fresh.view.dir path = none := rfl
  rw [hdir]
  nofun

/-- A run goes on consistently. -/
theorem Calls.Runs.reaches {pool pool' : Pool (Fin n) Core CallError Reply}
    (h : calls.Runs (calls.Consistent start) pool) (hreach : pool.Reaches Environment pool') :
    calls.Runs (calls.Consistent start) pool' :=
  Pool.Invariant.reaches (calls.consistent_invariant _) (fun _ _ _ h => h.environment) h hreach

/-- Every state that calls reach is consistent. -/
theorem Calls.Reaches.consistent {pool : Pool (Fin n) Core CallError Reply} (hreach : calls.Reaches .fresh pool) :
    calls.Runs (calls.Consistent .fresh) pool :=
  (Calls.runs_pool Calls.consistent_fresh).reaches hreach

/-- What every step of a consistent run keeps holds in every state that calls reach. -/
theorem Calls.Reaches.invariant {pool : Pool (Fin n) Core CallError Reply} {extra : View → (Fin n → Local) → Prop}
    (hreach : calls.Reaches .fresh pool) (hfresh : extra Core.fresh.view fun _ => .idle)
    (hstep : ∀ v locals i v' l', calls.Consistent .fresh v locals → extra v locals →
      Protocol calls.key (calls.call i) i v (locals i) v' l' → extra v' (Function.update locals i l'))
    (henvironment : ∀ core core' locals, Environment core core' → extra core.view locals → extra core'.view locals) :
    calls.Runs (fun v locals => calls.Consistent .fresh v locals ∧ extra v locals) pool := by
  have hstart : calls.Runs (fun v locals => calls.Consistent .fresh v locals ∧ extra v locals) (calls.pool .fresh) :=
    Calls.runs_pool ⟨Calls.consistent_fresh, hfresh⟩
  refine Pool.Invariant.reaches ((calls.consistent_invariant .fresh).and ?_) ?_ hstart hreach
  · exact fun core locals i core' l' hconsistent hextra hprotocol =>
      hstep core.view locals i core'.view l' hconsistent hextra hprotocol
  · exact fun core core' locals h houtside => ⟨h.1.environment houtside, henvironment core core' locals houtside h.2⟩

/-- A property of a durable world that every step of a call that holds the world keeps. -/
def KeptByEffects (calls : Calls n) (path : ValidatedWorldPath) (P : Option WorldDir → List JournalEntry → Prop) :
    Prop :=
  ∀ (i : Fin n) (connected : Bool) (checked : Option String) (state : Option WorldLog) (dir : Option WorldDir)
    (status : Status) (entries : List JournalEntry) (dir' : Option WorldDir) (status' : Status)
    (journal : List JournalEntry),
    Effect calls.key (calls.call i) i connected checked path dir status entries dir' status' →
      Knows calls.key path status state dir → P dir journal → P dir' (journal ++ entries)

/-- What the effects on a durable world keep holds after every step. -/
theorem KeptByEffects.step {P : Option WorldDir → List JournalEntry → Prop} {i : Fin n}
    (h : KeptByEffects calls path P) (hdurable : isMemoryWorld path = false)
    (hconsistent : calls.Consistent start v locals) (hP : P (v.dir path) (journalOf path v.journal))
    (hstep : Protocol calls.key (calls.call i) i v (locals i) v' l') : P (v'.dir path) (journalOf path v'.journal) := by
  by_cases hholds : ∃ slot, ((locals i).held slot).isSome = true ∧ slot.path (calls.call i).world = path
  · obtain ⟨slot, hsome, rfl⟩ := hholds
    obtain ⟨holding, hheld⟩ := Option.isSome_iff_exists.mp hsome
    cases hafter : l'.held slot with
    | none =>
      obtain rfl := hstep.lockStep.released hheld hafter
      exact hP
    | some holding' =>
      obtain ⟨entries, hjournal, heffect⟩ :=
        hstep.acts (hconsistent.exclusive.world i slot hsome) hdurable hheld hafter
      obtain ⟨-, state, -, -, hstate⟩ := hconsistent.history _ hdurable
      rw [hjournal]
      exact h i _ _ state _ _ _ _ _ _ heffect (hstate.knows i slot holding hheld rfl) hP
  · have hfree : ∀ slot, ((locals i).held slot).isSome = true → path ≠ slot.path (calls.call i).world :=
      fun slot hsome hpath => hholds ⟨slot, hsome, hpath.symm⟩
    obtain ⟨hdir, hjournal⟩ := hstep.untouched hfree
    rwa [hdir, hjournal]

/-- What the effects on a durable world keep holds in every state that calls reach. -/
theorem Calls.Reaches.kept {pool : Pool (Fin n) Core CallError Reply} {P : Option WorldDir → List JournalEntry → Prop}
    (hreach : calls.Reaches .fresh pool) (hdurable : isMemoryWorld path = false) (hP : KeptByEffects calls path P)
    (hfresh : P none []) : P (pool.shared.view.dir path) (journalOf path pool.shared.journal) := by
  have hruns : calls.Runs (fun v locals => calls.Consistent .fresh v locals ∧ P (v.dir path) (journalOf path v.journal))
      pool := by
    refine hreach.invariant hfresh ?_ ?_
    · exact fun v locals i v' l' hconsistent hextra hstep => hP.step hdurable hconsistent hextra hstep
    · intro core core' locals houtside hextra
      obtain ⟨conn, ledgerConn, hview, -⟩ := houtside.view
      rwa [hview]
  obtain ⟨locals, ⟨-, hheld⟩, -⟩ := hruns
  exact hheld

/-- A call that returned has its effects in the journal. -/
theorem Calls.Runs.returned {pool : Pool (Fin n) Core CallError Reply} {i : Fin n} {reply : Reply}
    (h : calls.Runs (calls.Consistent start) pool) (hdone : pool.threads i = .done reply) :
    ∃ l, CallPost (calls.call i) i (.ok reply) l ∧
      pool.shared.journal.filter (fun entry => entry.caller = some (i : Nat)) = l.own := by
  obtain ⟨locals, hconsistent, hfollows⟩ := h
  have hended := hfollows i
  rw [hdone] at hended
  exact ⟨locals i, hended, hconsistent.journal.own i⟩

/-- A write of a durable world that returned has one row in the journal. -/
theorem Calls.Runs.wrote {pool : Pool (Fin n) Core CallError Reply} {i : Fin n} {outcome : WriteOutcome}
    (h : calls.Runs (calls.Consistent start) pool) (hdurable : isMemoryWorld (calls.call i).world = false)
    (hdone : pool.threads i = .done (.written outcome)) :
    ∃ opened db result db', pool.shared.journal.filter (fun entry => entry.caller = some (i : Nat)) =
        [.wrote i (calls.call i).world ((calls.call i).operation.treats opened) db result db'] ∧
      outcome = ⟨if (calls.call i).operation.treats opened = .existing then .updated else .created,
        hmacEtag result.hmac⟩ := by
  obtain ⟨l, hpost, hown⟩ := h.returned hdone
  cases hpost with
  | written _ hreturned =>
    cases hreturned with
    | durable opened db result db' _ hended houtcome => exact ⟨opened, db, result, db', hown.trans hended.2.2, houtcome⟩
    | memory _ hmemory =>
      rw [hdurable] at hmemory
      cases hmemory

/-- A delete that returned has its intent, the removal and the commit in the journal. -/
theorem Calls.Runs.deleted {pool : Pool (Fin n) Core CallError Reply} {i : Fin n}
    (h : calls.Runs (calls.Consistent start) pool) (hdone : pool.threads i = .done .deleted) :
    DeleteOwn (calls.call i).world i (.ok ())
      (pool.shared.journal.filter fun entry => entry.caller = some (i : Nat)) := by
  obtain ⟨l, hpost, hown⟩ := h.returned hdone
  cases hpost with
  | deleted _ hended hdelete =>
    rw [hown, hended.2.2]
    exact hdelete

/-- A point of a run, at which its worlds are in the states that the journal led to, and from which the run may be
followed further. -/
structure Calls.At (calls : Calls n) (now : Point) (pool : Pool (Fin n) Core CallError Reply) : Prop where
  runs : calls.Runs (calls.Consistent now) pool
  journal : now.journal = pool.shared.view.journal
  entry : ∀ path, now.entry path = pool.shared.view.entry path
  shows : ∀ path, isMemoryWorld path = false → Shows calls.key path (now.log path) (pool.shared.view.dir path)

/-- The present of a run as a point. -/
theorem Calls.Runs.now {pool : Pool (Fin n) Core CallError Reply} (h : calls.Runs (calls.Consistent start) pool) :
    ∃ now, calls.At now pool ∧ start.journal <+: now.journal ∧
      (∀ path, isMemoryWorld path = false → ∃ since, journalOf path now.journal = journalOf path start.journal ++ since ∧
        Trace (LogStep calls.key (calls.Did path) path) (start.log path) since (now.log path)) ∧
      ∀ path, isMemoryWorld path = true → ∃ since, journalOf path now.journal = journalOf path start.journal ++ since ∧
        Trace (MemStep (calls.Did path) path) (start.entry path) since (now.entry path) := by
  obtain ⟨locals, hconsistent, hfollows⟩ := h
  choose since log hjournal htrace hstate using hconsistent.history
  refine ⟨⟨fun path => if hdurable : isMemoryWorld path = false then log path hdurable else none,
    pool.shared.view.entry, pool.shared.view.journal⟩, ⟨⟨locals, ⟨hconsistent.exclusive, ?_, ?_, ?_⟩, hfollows⟩, rfl,
    fun _ => rfl, ?_⟩, hconsistent.journal.since, ?_, ?_⟩
  · intro path hdurable
    simp only [dif_pos hdurable]
    exact ⟨[], _, (List.append_nil _).symm, .refl, hstate path hdurable⟩
  · exact fun path _ => ⟨[], (List.append_nil _).symm, .refl⟩
  · exact ⟨List.prefix_rfl, hconsistent.journal.own⟩
  · intro path hdurable
    simp only [dif_pos hdurable]
    exact (hstate path hdurable).shows
  · intro path hdurable
    simp only [dif_pos hdurable]
    exact ⟨since path hdurable, hjournal path hdurable, htrace path hdurable⟩
  · exact fun path hmemory => hconsistent.memory path hmemory

/-- The journal of a durable world led to the state that its directory shows. -/
theorem Calls.Reaches.history {pool : Pool (Fin n) Core CallError Reply} {world : ValidatedWorldPath}
    (hreach : calls.Reaches .fresh pool) (hdurable : isMemoryWorld world = false) :
    ∃ state, Trace (LogStep calls.key (calls.Did world) world) none (journalOf world pool.shared.journal) state ∧
      Shows calls.key world state (pool.shared.view.dir world) := by
  obtain ⟨now, hnow, -, hlogs, -⟩ := hreach.consistent.now
  obtain ⟨labels, hlabels, htrace⟩ := hlogs world hdurable
  have hjournal : journalOf world pool.shared.journal = labels := by
    have hall : journalOf world now.journal = labels := hlabels
    rw [← hall, hnow.journal]
    rfl
  rw [hjournal]
  exact ⟨now.log world, htrace, hnow.shows world hdurable⟩

end Histories

end AuditeDB
