import Mathlib
import AuditeDB.Engine.AccountCalls
import AuditeDB.Engine.Runs

/-!
# The balance of the storage counters

An engine is ready when its counters are what the databases on disk take. However calls interleave from there, the
counters cover the databases and stay within the quota. No call puts the database of a world in memory on disk.
-/

namespace AuditeDB

open Results Interleaving Bookkeeping Totals

instance : Fintype Slot := ⟨{.world, .ledger}, fun slot => by cases slot <;> simp⟩

/-- What all databases below the data root take. -/
def Core.stored (core : Core) (g : Gauge) : Nat :=
  (core.data.entries.map fun entry => (WorldDir.charge entry.2).get g).sum

/-- What all databases take is the total of what they cost. -/
theorem Core.tallies_stored (core : Core) (g : Gauge) :
    Tallies (core.stored g) fun path => (chargeOf (core.data.lookup path)).get g := by
  have htotal := tallies_lookup core.data fun dir => dir.charge.get g
  have hcosts : (fun path => (chargeOf (core.data.lookup path)).get g) =
      fun path => ((core.data.lookup path).map fun dir => dir.charge.get g).getD 0 := by
    funext path
    unfold chargeOf
    cases core.data.lookup path with
    | none => cases g <;> rfl
    | some dir => rfl
  rw [hcosts]
  exact htotal

/-- The body bytes are those of the live and of the retained bodies. -/
theorem Core.stored_body (core : Core) : core.stored .body = core.stored .current + core.stored .retained := by
  have hparts := (core.tallies_stored .current).add (core.tallies_stored .retained)
  refine (core.tallies_stored .body).unique ?_
  convert hparts using 2 with path
  exact chargeOf_body _

/-- The parts of the body bytes cost at most the body bytes. -/
theorem storageRules_cost_le (quota : Nat) (dir : Option WorldDir) (g : Gauge) (hcovered : ¬ (storageRules quota).covered g) :
    (storageRules quota).cost dir g ≤ (storageRules quota).cost dir .body := by
  have hbody := chargeOf_body dir
  show (chargeOf dir).get g ≤ (chargeOf dir).body
  match g with
  | .body => exact absurd (.inl rfl) hcovered
  | .events => exact absurd (.inr rfl) hcovered
  | .current => exact hbody ▸ Nat.le_add_right _ _
  | .retained => exact hbody ▸ Nat.le_add_left _ _

/-- No world in memory has a database. -/
def View.OnlyDurable (v : View) : Prop :=
  ∀ path, isMemoryWorld path = true → ∀ db, v.dir path ≠ some (.database db)

section

variable [HashSuite] {n : Nat}

omit [HashSuite] in
/-- A directory without a database is put in place, or a database of a durable world. -/
theorem View.OnlyDurable.setDir {v : View} (h : v.OnlyDurable) (path : ValidatedWorldPath) {dir : Option WorldDir}
    (hdir : isMemoryWorld path = true → ∀ db, dir ≠ some (.database db)) : (v.setDir path dir).OnlyDurable := by
  intro other hmemory db
  show Function.update v.dir path dir other ≠ _
  by_cases hother : other = path
  · rw [hother, Function.update_self]
    exact hdir (hother ▸ hmemory) db
  · rw [Function.update_of_ne hother]
    exact h other hmemory db

/-- Every step of a call puts only databases of durable worlds on disk. -/
theorem Protocol.onlyDurable {key : AuditHmacKey} {call : Call} {caller : Nat} {v v' : View} {l l' : Local}
    (hstep : Protocol key call caller v l v' l') (h : v.OnlyDurable) : v'.OnlyDurable := by
  -- A step on a database finds it in the directory of its world.
  have hfound : ∀ {path db} dir, v.dir path = some (.database db) → (v.setDir path dir).OnlyDurable :=
    fun {path db} dir hdir => h.setDir path fun hmemory => absurd hdir (h path hmemory db)
  have hnew : ∀ {path} dir, isMemoryWorld path = false → (v.setDir path dir).OnlyDurable :=
    fun {path} dir hdurable => h.setDir path fun hmemory => by rw [hdurable] at hmemory; cases hmemory
  cases hstep with
  | makeDir slot => exact h.setDir _ nofun
  | create slot generation hheld hdurable => exact hnew _ hdurable
  | statement slot hheld hdir => exact hfound _ hdir
  | indexes slot hheld hdir => exact hfound _ hdir
  | write hheld hdurable => exact hnew _ hdurable
  | log hheld hworld hkey hdir => exact hfound _ hdir
  | remove hheld hdurable => exact hnew _ hdurable
  | _ => exact h

/-- An engine before its first call, with the counters of the databases on disk. -/
structure Core.Ready (key : AuditHmacKey) (quota : Nat) (core : Core) : Prop where
  sound : core.Sound key
  durable : core.view.OnlyDurable
  ledger : core.ledgerConn = false
  journal : core.journal = []
  exact : ∀ g, core.books.gauge g = core.stored g
  quota : core.stored .body ≤ quota
  events : core.stored .events ≤ usizeMax

variable {key : AuditHmacKey} {quota : Nat} {core : Core}

/-- An engine on an empty data root is ready. -/
theorem Core.fresh_ready : Core.fresh.Ready key quota where
  sound path _ := ⟨none, .absent fun db => by rw [show Core.fresh.data.lookup path = none from rfl]; nofun⟩
  durable path _ db := by
    rw [show Core.fresh.view.dir path = none from rfl]
    nofun
  ledger := rfl
  journal := rfl
  exact g := by cases g <;> rfl
  quota := Nat.zero_le _
  events := Nat.zero_le _

variable (calls : Calls n)

/-- The worlds of an engine that is ready have histories. -/
theorem Core.Ready.consistent (h : core.Ready calls.key quota) :
    ∃ start, calls.Consistent start core.view fun _ => .idle := by
  have hsound := h.sound
  choose log hlog using hsound
  refine ⟨⟨fun path => if hdurable : isMemoryWorld path = false then log path hdurable else none, core.view.entry,
    core.journal⟩, ⟨nofun, nofun, nofun⟩, ?_, ?_, List.prefix_rfl, ?_⟩
  · intro path hdurable
    simp only [dif_pos hdurable]
    refine ⟨[], _, (List.append_nil _).symm, .refl, hlog path hdurable, ?_, nofun, nofun⟩
    intro _ hconn
    rw [show core.view.ledgerConn = false from h.ledger] at hconn
    cases hconn
  · exact fun path _ => ⟨[], (List.append_nil _).symm, .refl⟩
  · intro i
    show core.journal.filter _ = []
    rw [h.journal]
    rfl

/-- The locals of the calls: what they know about histories, and what they know about charges. -/
structure Calls.Balanced (start : Point) (quota : Nat) (room : Prop) (core : Core) (locals : Fin n → Local × Account) :
    Prop where
  consistent : calls.Consistent start core.view fun i => (locals i).1
  durable : core.view.OnlyDurable
  balanced : Bookkeeping.Balanced (storageRules quota) (fun i => Slot.path (calls.call i).world) room core.books
    fun i => (locals i).2

/-- The room that the counters need that are noted after a commit. -/
def Calls.Room (_ : Calls n) (quota : Nat) : Prop := (4 * n + 1) * quota ≤ usizeMax

variable {calls} {start : Point}

/-- The books of calls are balanced in every state. -/
theorem Calls.balanced_invariant :
    ProtocolInvariant
      (fun i core both => core.view.Keyed ∧ Account.Agrees calls.key (calls.call i).world core both.2)
      (fun i core both core' both' => calls.protocol i core both.1 core' both'.1 ∧
        Booking (storageRules quota) (Slot.path (calls.call i).world) core.books both.2 core'.books both'.2)
      (calls.Balanced start quota (calls.Room quota)) where
  agrees core locals h i := by
    obtain ⟨hconsistent, -, hbalanced⟩ := h
    refine ⟨hconsistent.keyed, ⟨fun path hdurable => ?_, fun slot entry hheld => ?_, fun slot entry hheld => ?_⟩⟩
    · obtain ⟨_, state, -, -, hstate⟩ := hconsistent.history path hdurable
      exact ⟨state, hstate.shows⟩
    · exact hbalanced.item i slot entry hheld
    · exact hbalanced.charged_le_gauge (g := .body) hheld (.inl (.inl rfl))
  step core locals i core' both h hstep := by
    obtain ⟨hconsistent, hdurable, hbalanced⟩ := h
    obtain ⟨hprotocol, hbooking⟩ := hstep
    have hfst : (fun j => (Function.update locals i both j).1) = Function.update (fun j => (locals j).1) i both.1 :=
      Function.comp_update Prod.fst locals i both
    have hsnd : (fun j => (Function.update locals i both j).2) = Function.update (fun j => (locals j).2) i both.2 :=
      Function.comp_update Prod.snd locals i both
    have hmain : (storageRules quota).covered .body := .inl rfl
    refine ⟨hfst ▸ hconsistent.step hprotocol, hprotocol.onlyDurable hdurable,
      hsnd ▸ hbalanced.step hmain (storageRules_cost_le quota) ?_ ?_ hbooking⟩
    · show quota ≤ 2 * quota
      omega
    · intro hroom
      have hcard : Fintype.card (Fin n × Slot) = n * 2 := by
        rw [Fintype.card_prod, Fintype.card_fin]
        rfl
      have hroom : (4 * n + 1) * quota ≤ usizeMax := hroom
      show quota + Fintype.card (Fin n × Slot) * (2 * quota) ≤ usizeMax
      rw [hcard]
      linarith

/-- What happens outside the calls keeps the books balanced. -/
theorem Calls.Balanced.environment {room : Prop} {core' : Core} {locals : Fin n → Local × Account}
    (h : calls.Balanced start quota room core locals) (houtside : Environment core core') :
    calls.Balanced start quota room core' locals :=
  ⟨h.consistent.environment houtside, by cases houtside <;> exact h.durable, by cases houtside <;> exact h.balanced⟩

/-- In every state that calls reach from an engine that is ready, their books are balanced. -/
theorem Core.Ready.balanced (h : core.Ready calls.key quota) {pool : Pool (Fin n) Core CallError Reply}
    (hquota : ∀ i, (calls.config i).storageQuota ≤ quota) (hreach : calls.Reaches core pool) :
    ∃ start locals, calls.Balanced start quota (calls.Room quota) pool.shared locals := by
  obtain ⟨start, hconsistent⟩ := h.consistent calls
  have hstart : (calls.pool core).Invariant
      (fun i core (both : Local × Account) => core.view.Keyed ∧ Account.Agrees calls.key (calls.call i).world core both.2)
      (fun i core both core' both' => calls.protocol i core both.1 core' both'.1 ∧
        Booking (storageRules quota) (Slot.path (calls.call i).world) core.books both.2 core'.books both'.2)
      (calls.Balanced start quota (calls.Room quota))
      (fun i outcome both => CallPost (calls.call i) i outcome both.1 ∧ both.2 = .idle) := by
    refine ⟨fun _ => (.idle, .idle), ⟨hconsistent, h.durable, .idle ?_ fun g _ => ?_⟩, fun i => ?_⟩
    · rintro g (rfl | rfl)
      · exact (h.exact .body).trans_le h.quota
      · exact (h.exact .events).trans_le h.events
    · show Tallies (core.books.gauge g) fun path => (chargeOf (core.data.lookup path)).get g
      rw [h.exact g]
      exact core.tallies_stored g
    · exact ((calls.call i).program_follows (calls.hmacKey i)).and
        ((calls.call i).program_books i (calls.hmacKey i) (hquota i))
  obtain ⟨locals, hbalanced, -⟩ := hstart.reaches Calls.balanced_invariant (fun _ _ _ h => h.environment) hreach
  exact ⟨start, locals, hbalanced⟩

variable {room : Prop} {locals : Fin n → Local × Account}

/-- The databases take at most what the counters that cover count. -/
theorem Calls.Balanced.stored_le (h : calls.Balanced start quota room core locals) {g : Gauge}
    (hcovered : (storageRules quota).covered g) :
    core.stored g ≤ core.books.gauge g ∧ core.books.gauge g ≤ (storageRules quota).limit g :=
  ⟨h.balanced.covers hcovered (core.tallies_stored g), h.balanced.limit g hcovered⟩

/-- While no lock is held, the counters are what the databases take. -/
theorem Calls.Balanced.exact (h : calls.Balanced start quota room core locals) (hworlds : core.worldLocks = ∅)
    (hstream : core.deleteLedgerStreamLock = false) {g : Gauge} (hg : (storageRules quota).covered g ∨ room) :
    core.books.gauge g = core.stored g := by
  have hfree : ∀ path, core.books.locked path = false := by
    intro path
    simp [Core.books, Core.view, hworlds, hstream]
  exact (h.balanced.settled hg hfree).unique (core.tallies_stored g)

end

end AuditeDB
