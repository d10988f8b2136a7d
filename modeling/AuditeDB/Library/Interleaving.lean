import Mathlib

/-!
# Interleaved programs over a shared state

A program is a tree of atomic steps. Threads of a pool take their steps in any order, and an
environment may change the shared state between them. A protocol says which steps a thread may take from
its local state; once a program is known to follow a protocol, an invariant is proved against the few kinds
of protocol steps and holds in every reachable state of the pool.
-/

namespace Interleaving

universe u v w

/-- A program that is finished, has failed, or is about to take one atomic step. The step runs only in
a state where it is `enabled`, and the rest of the program sees the state the step ran in. -/
inductive Prog (σ : Type u) (ε : Type v) (α : Type w) where
  | done (value : α)
  | fail (error : ε)
  | step (enabled : σ → Bool) (act : σ → σ) (next : σ → Prog σ ε α)

namespace Prog

variable {σ : Type u} {ε ε' : Type v} {α β : Type w}

/-- Continue with the result of a program; a failure skips the continuation. -/
def bind : Prog σ ε α → (α → Prog σ ε β) → Prog σ ε β
  | done value, rest => rest value
  | fail error, _ => fail error
  | step enabled act next, rest => step enabled act fun s => (next s).bind rest

/-- Continue a failed program with a handler. -/
def tryCatch : Prog σ ε α → (ε → Prog σ ε α) → Prog σ ε α
  | done value, _ => done value
  | fail error, handler => handler error
  | step enabled act next, handler => step enabled act fun s => (next s).tryCatch handler

/-- Rename the errors of a program. -/
def mapError (f : ε → ε') : Prog σ ε α → Prog σ ε' α
  | done value => done value
  | fail error => fail (f error)
  | step enabled act next => step enabled act fun s => (next s).mapError f

instance : Monad (Prog σ ε) where
  pure := done
  bind := bind

instance : MonadExcept ε (Prog σ ε) where
  throw := fail
  tryCatch := tryCatch

/-- A program that only inspects what it already has. -/
def lift : Except ε α → Prog σ ε α
  | .ok value => done value
  | .error error => fail error

/-- One atomic step that reads and updates the state. -/
def atomically (f : σ → α × σ) : Prog σ ε α :=
  step (fun _ => true) (fun s => (f s).2) fun s => done (f s).1

/-- One atomic step that only updates the state. -/
def modify (act : σ → σ) : Prog σ ε PUnit := atomically fun s => (⟨⟩, act s)

/-- One atomic step that waits until `ready` holds. -/
def await (ready : σ → Bool) (act : σ → σ) : Prog σ ε PUnit :=
  step ready act fun _ => done ⟨⟩

/-- The state after an attempted update: an error leaves it unchanged. -/
def stateAfter (s : σ) : Except ε (α × σ) → σ
  | .ok (_, s') => s'
  | .error _ => s

/-- The program that reports the result of an attempted update. -/
def report : Except ε (α × σ) → Prog σ ε α
  | .ok (value, _) => done value
  | .error error => fail error

/-- One atomic step that either updates the state or fails and leaves it unchanged. -/
def attempt (f : σ → Except ε (α × σ)) : Prog σ ε α :=
  step (fun _ => true) (fun s => stateAfter s (f s)) fun s => report (f s)

/-- Run a program to its outcome, whether it succeeds or fails. -/
def result {ε ε' : Type v} {α : Type v} : Prog σ ε α → Prog σ ε' (Except ε α)
  | done value => done (.ok value)
  | fail error => done (.error error)
  | step enabled act next => step enabled act fun s => (next s).result

/-- Run a cleanup step when the program fails, then fail with the same error. -/
def onError (cleanup : σ → σ) (body : Prog σ ε α) : Prog σ ε α :=
  body.tryCatch fun error => step (fun _ => true) cleanup fun _ => fail error

/-- Run a last step after the program, whether it succeeded or failed. -/
def ensuring (last : σ → σ) : Prog σ ε α → Prog σ ε α
  | done value => step (fun _ => true) last fun _ => done value
  | fail error => step (fun _ => true) last fun _ => fail error
  | step enabled act next => step enabled act fun s => (next s).ensuring last

/-- Run a program alone. The result is absent when a step of it is not enabled. -/
def run : Prog σ ε α → σ → Option (Except ε α × σ)
  | done value, s => some (.ok value, s)
  | fail error, s => some (.error error, s)
  | step enabled act next, s => if enabled s then (next s).run (act s) else none

/-- The value of a finished program. -/
def returned : Prog σ ε α → Option α
  | done value => some value
  | _ => none

/-- A program that has returned is finished. -/
theorem returned_eq_some {program : Prog σ ε α} {value : α} :
    program.returned = some value ↔ program = done value := by
  cases program <;> simp [returned]

/-- A sequence runs its first part and then, unless that failed, the rest. -/
theorem run_bind (program : Prog σ ε α) (rest : α → Prog σ ε β) (s : σ) :
    (program.bind rest).run s = (program.run s).bind fun (outcome, s') =>
      match outcome with
      | .ok value => (rest value).run s'
      | .error error => some (.error error, s') := by
  induction program generalizing s with
  | done value => rfl
  | fail error => rfl
  | step enabled act next ih =>
    simp only [bind, run]
    split
    · exact ih s (act s)
    · rfl

/-- A sequence succeeds when its two parts succeed one after the other. -/
theorem run_bind_ok {program : Prog σ ε α} {rest : α → Prog σ ε β} {s s'' : σ} {value : β} :
    (program.bind rest).run s = some (.ok value, s'') ↔
      ∃ mid s', program.run s = some (.ok mid, s') ∧ (rest mid).run s' = some (.ok value, s'') := by
  rw [run_bind]
  constructor
  · intro h
    obtain ⟨⟨outcome, s'⟩, hfirst, hrest⟩ := Option.bind_eq_some_iff.mp h
    cases outcome with
    | ok mid => exact ⟨mid, s', hfirst, hrest⟩
    | error error => cases hrest
  · rintro ⟨mid, s', hfirst, hrest⟩
    rw [hfirst]
    exact hrest

end Prog

/-- A shared state with one program for every thread. -/
structure Pool (ι : Type*) (σ : Type u) (ε : Type v) (α : Type w) where
  shared : σ
  threads : ι → Prog σ ε α

/-- One step of a pool: a thread takes its next atomic step, or the environment acts. -/
inductive Pool.Step {ι : Type*} [DecidableEq ι] {σ : Type u} {ε : Type v} {α : Type w}
    (environment : σ → σ → Prop) : Pool ι σ ε α → Pool ι σ ε α → Prop where
  | thread {pool : Pool ι σ ε α} (i : ι) {enabled : σ → Bool} {act : σ → σ} {next : σ → Prog σ ε α}
      (hthread : pool.threads i = .step enabled act next) (henabled : enabled pool.shared = true) :
      Pool.Step environment pool
        ⟨act pool.shared, Function.update pool.threads i (next pool.shared)⟩
  | environment {pool : Pool ι σ ε α} {s' : σ} (h : environment pool.shared s') :
      Pool.Step environment pool ⟨s', pool.threads⟩

/-- The pools a pool can reach. -/
def Pool.Reaches {ι : Type*} [DecidableEq ι] {σ : Type u} {ε : Type v} {α : Type w}
    (environment : σ → σ → Prop) : Pool ι σ ε α → Pool ι σ ε α → Prop :=
  Relation.ReflTransGen (Pool.Step environment)

/-- The pools a pool can reach through states that satisfy a condition. -/
def Pool.ReachesWithin {ι : Type*} [DecidableEq ι] {σ : Type u} {ε : Type v} {α : Type w}
    (environment : σ → σ → Prop) (within : σ → Prop) : Pool ι σ ε α → Pool ι σ ε α → Prop :=
  Relation.ReflTransGen fun pool pool' => within pool.shared ∧ Pool.Step environment pool pool'

/-- One step of the thread that a scheduler picks, when it has an enabled one. -/
def Pool.next {ι : Type*} [DecidableEq ι] {σ : Type u} {ε : Type v} {α : Type w} (pool : Pool ι σ ε α) (i : ι) :
    Option (Pool ι σ ε α) :=
  match pool.threads i with
  | .step enabled act next =>
    if enabled pool.shared then some ⟨act pool.shared, Function.update pool.threads i (next pool.shared)⟩ else none
  | _ => none

/-- What a scheduled thread does is a step of the pool. -/
theorem Pool.step_of_next {ι : Type*} [DecidableEq ι] {σ : Type u} {ε : Type v} {α : Type w}
    (environment : σ → σ → Prop) {pool pool' : Pool ι σ ε α} {i : ι} (h : pool.next i = some pool') :
    Pool.Step environment pool pool' := by
  unfold Pool.next at h
  split at h
  · next hthread =>
    split_ifs at h with henabled
    cases h
    exact .thread i hthread henabled
  · cases h

/-- What a schedule leads to is reachable. -/
theorem Pool.reaches_of_schedule {ι : Type*} [DecidableEq ι] {σ : Type u} {ε : Type v} {α : Type w}
    (environment : σ → σ → Prop) {pool : Pool ι σ ε α} (schedule : List ι) {p : Pool ι σ ε α → Bool}
    (h : (schedule.foldlM Pool.next pool).any p = true) : ∃ pool', pool.Reaches environment pool' ∧ p pool' = true := by
  induction schedule generalizing pool with
  | nil => exact ⟨pool, .refl, h⟩
  | cons i rest ih =>
    rw [List.foldlM_cons] at h
    obtain ⟨mid, hnext⟩ : ∃ mid, pool.next i = some mid := by
      cases hnext : pool.next i with
      | none => rw [hnext] at h; cases h
      | some mid => exact ⟨mid, rfl⟩
    rw [hnext] at h
    obtain ⟨pool', hreach, hp⟩ := ih h
    exact ⟨pool', .head (Pool.step_of_next environment hnext) hreach, hp⟩

/-- What a schedule leads to through states that satisfy a condition is reachable within it. -/
theorem Pool.reachesWithin_of_schedule {ι : Type*} [DecidableEq ι] {σ : Type u} {ε : Type v} {α : Type w}
    (environment : σ → σ → Prop) (within : σ → Prop) [DecidablePred within] {pool : Pool ι σ ε α} (schedule : List ι)
    {p : Pool ι σ ε α → Bool}
    (h : (schedule.foldlM (fun pool i => if within pool.shared then Pool.next pool i else none) pool).any p = true) :
    ∃ pool', pool.ReachesWithin environment within pool' ∧ p pool' = true := by
  induction schedule generalizing pool with
  | nil => exact ⟨pool, .refl, h⟩
  | cons i rest ih =>
    rw [List.foldlM_cons] at h
    by_cases hwithin : within pool.shared
    · rw [if_pos hwithin] at h
      obtain ⟨mid, hnext⟩ : ∃ mid, pool.next i = some mid := by
        cases hnext : pool.next i with
        | none => rw [hnext] at h; cases h
        | some mid => exact ⟨mid, rfl⟩
      rw [hnext] at h
      obtain ⟨pool', hreach, hp⟩ := ih h
      exact ⟨pool', .head ⟨hwithin, Pool.step_of_next environment hnext⟩ hreach, hp⟩
    · rw [if_neg hwithin] at h
      cases h

section Protocol

variable {γ : Type*} {σ : Type u} {ε ε' : Type v} {α β : Type w}

/-- A program follows a protocol: in every state that agrees with the local state, its next step is a step of
the protocol, and its outcome satisfies the postcondition at the local state it ends with. -/
def Follows (agrees : σ → γ → Prop) (protocol : σ → γ → σ → γ → Prop) :
    Prog σ ε α → γ → (Except ε α → γ → Prop) → Prop
  | .done value, g, post => post (.ok value) g
  | .fail error, g, post => post (.error error) g
  | .step enabled act next, g, post => ∀ s, agrees s g → enabled s = true →
      ∃ g', protocol s g (act s) g' ∧ Follows agrees protocol (next s) g' post

/-- The postcondition of a program that does not fail. -/
def Returns (mid : α → γ → Prop) (outcome : Except ε α) (g : γ) : Prop :=
  ∃ value, outcome = .ok value ∧ mid value g

/-- A postcondition with one part for results and one for failures. -/
def Ends (ok : α → γ → Prop) (error : γ → Prop) : Except ε α → γ → Prop
  | .ok value, g => ok value g
  | .error _, g => error g

namespace Follows

variable {agrees : σ → γ → Prop} {protocol : σ → γ → σ → γ → Prop} {g : γ}

/-- A weaker postcondition. -/
theorem mono {program : Prog σ ε α} {post post' : Except ε α → γ → Prop}
    (h : Follows agrees protocol program g post) (hpost : ∀ outcome g, post outcome g → post' outcome g) :
    Follows agrees protocol program g post' := by
  induction program generalizing g with
  | done value => exact hpost _ _ h
  | fail error => exact hpost _ _ h
  | step enabled act next ih =>
    intro s hagrees henabled
    obtain ⟨g', hstep, hnext⟩ := h s hagrees henabled
    exact ⟨g', hstep, ih s hnext⟩

/-- Sequential composition: the first program establishes what the second one starts from, and its
failures are failures of the whole. -/
theorem bind {program : Prog σ ε α} {rest : α → Prog σ ε β} {mid : Except ε α → γ → Prop}
    {post : Except ε β → γ → Prop} (h : Follows agrees protocol program g mid)
    (hok : ∀ value g, mid (.ok value) g → Follows agrees protocol (rest value) g post)
    (herror : ∀ error g, mid (.error error) g → post (.error error) g) :
    Follows agrees protocol (program.bind rest) g post := by
  induction program generalizing g with
  | done value => exact hok _ _ h
  | fail error => exact herror _ _ h
  | step enabled act next ih =>
    intro s hagrees henabled
    obtain ⟨g', hstep, hnext⟩ := h s hagrees henabled
    exact ⟨g', hstep, ih s hnext⟩

/-- Sequential composition after a program that does not fail. -/
theorem bind_returns {program : Prog σ ε α} {rest : α → Prog σ ε β} {mid : α → γ → Prop}
    {post : Except ε β → γ → Prop} (h : Follows agrees protocol program g (Returns mid))
    (hok : ∀ value g, mid value g → Follows agrees protocol (rest value) g post) :
    Follows agrees protocol (program.bind rest) g post := by
  refine h.bind ?_ ?_
  · rintro value g ⟨_, heq, hmid⟩
    cases heq
    exact hok value g hmid
  · rintro error g ⟨_, heq, -⟩
    cases heq

/-- A handler continues from the local state the failure left. -/
theorem tryCatch {program : Prog σ ε α} {handler : ε → Prog σ ε α} {mid post : Except ε α → γ → Prop}
    (h : Follows agrees protocol program g mid)
    (hok : ∀ value g, mid (.ok value) g → post (.ok value) g)
    (herror : ∀ error g, mid (.error error) g → Follows agrees protocol (handler error) g post) :
    Follows agrees protocol (program.tryCatch handler) g post := by
  induction program generalizing g with
  | done value => exact hok _ _ h
  | fail error => exact herror _ _ h
  | step enabled act next ih =>
    intro s hagrees henabled
    obtain ⟨g', hstep, hnext⟩ := h s hagrees henabled
    exact ⟨g', hstep, ih s hnext⟩

/-- Renaming errors renames them in the postcondition. -/
theorem mapError {program : Prog σ ε α} {rename : ε → ε'} {post : Except ε' α → γ → Prop}
    (h : Follows agrees protocol program g fun outcome => post (outcome.mapError rename)) :
    Follows agrees protocol (program.mapError rename) g post := by
  induction program generalizing g with
  | done value => exact h
  | fail error => exact h
  | step enabled act next ih =>
    intro s hagrees henabled
    obtain ⟨g', hstep, hnext⟩ := h s hagrees henabled
    exact ⟨g', hstep, ih s hnext⟩

/-- Renaming errors keeps a postcondition that does not look at them. -/
theorem mapError_ends {program : Prog σ ε α} {rename : ε → ε'} {ok : α → γ → Prop} {error : γ → Prop}
    (h : Follows agrees protocol program g (Ends ok error)) :
    Follows agrees protocol (program.mapError rename) g (Ends ok error) := by
  refine .mapError (h.mono fun outcome g hends => ?_)
  cases outcome with
  | ok value => exact hends
  | error _ => exact hends

/-- Nothing happens when a program only inspects what it has. -/
theorem lift {result : Except ε α} {post : Except ε α → γ → Prop} (h : post result g) :
    Follows agrees protocol (Prog.lift result : Prog σ ε α) g post := by
  cases result with
  | ok value => exact h
  | error error => exact h

/-- A check of what a program already has, in front of the rest. -/
theorem lift_bind {result : Except ε α} {rest : α → Prog σ ε β} {post : Except ε β → γ → Prop}
    (hok : ∀ value, result = .ok value → Follows agrees protocol (rest value) g post)
    (herror : ∀ error, result = .error error → post (.error error) g) :
    Follows agrees protocol ((Prog.lift result : Prog σ ε α).bind rest) g post := by
  cases hresult : result with
  | ok value => exact hok value hresult
  | error error => exact herror error hresult

/-- The outcome of a program as a value. -/
theorem result {ε' α : Type v} {program : Prog σ ε α} {post : Except ε' (Except ε α) → γ → Prop}
    (h : Follows agrees protocol program g fun outcome => post (.ok outcome)) :
    Follows agrees protocol (program.result : Prog σ ε' (Except ε α)) g post := by
  induction program generalizing g with
  | done value => exact h
  | fail error => exact h
  | step enabled act next ih =>
    intro s hagrees henabled
    obtain ⟨g', hstep, hnext⟩ := h s hagrees henabled
    exact ⟨g', hstep, ih s hnext⟩

/-- One atomic step that only updates the state. -/
theorem modify {act : σ → σ} {post : Except ε PUnit → γ → Prop}
    (h : ∀ s, agrees s g → ∃ g', protocol s g (act s) g' ∧ post (.ok ⟨⟩) g') :
    Follows agrees protocol (Prog.modify act : Prog σ ε PUnit) g post :=
  fun s hagrees _ => h s hagrees

/-- One atomic step. -/
theorem atomically {f : σ → α × σ} {post : Except ε α → γ → Prop}
    (h : ∀ s, agrees s g → ∃ g', protocol s g (f s).2 g' ∧ post (.ok (f s).1) g') :
    Follows agrees protocol (Prog.atomically f : Prog σ ε α) g post :=
  fun s hagrees _ => h s hagrees

/-- One atomic step that waits. -/
theorem await {ready : σ → Bool} {act : σ → σ} {post : Except ε PUnit → γ → Prop}
    (h : ∀ s, agrees s g → ready s = true → ∃ g', protocol s g (act s) g' ∧ post (.ok ⟨⟩) g') :
    Follows agrees protocol (Prog.await ready act : Prog σ ε PUnit) g post :=
  fun s hagrees hready => h s hagrees hready

/-- One atomic step that may fail and then leaves the state. -/
theorem attempt {f : σ → Except ε (α × σ)} {post : Except ε α → γ → Prop}
    (hok : ∀ s value s', agrees s g → f s = .ok (value, s') →
      ∃ g', protocol s g s' g' ∧ post (.ok value) g')
    (herror : ∀ s error, agrees s g → f s = .error error →
      ∃ g', protocol s g s g' ∧ post (.error error) g') :
    Follows agrees protocol (Prog.attempt f) g post := by
  intro s hagrees _
  simp only
  cases hf : f s with
  | ok result => exact hok s result.1 result.2 hagrees hf
  | error error => exact herror s error hagrees hf

/-- A cleanup step runs from the local state of the failure. -/
theorem onError {program : Prog σ ε α} {cleanup : σ → σ} {mid post : Except ε α → γ → Prop}
    (h : Follows agrees protocol program g mid)
    (hok : ∀ value g, mid (.ok value) g → post (.ok value) g)
    (herror : ∀ error g, mid (.error error) g → ∀ s, agrees s g →
      ∃ g', protocol s g (cleanup s) g' ∧ post (.error error) g') :
    Follows agrees protocol (program.onError cleanup) g post :=
  h.tryCatch hok fun error g hmid s hagrees _ => herror error g hmid s hagrees

/-- A cleanup step that is known as a program of its own. -/
theorem onError_modify {program : Prog σ ε α} {cleanup : σ → σ} {mid post : Except ε α → γ → Prop}
    (h : Follows agrees protocol program g mid)
    (hok : ∀ value g, mid (.ok value) g → post (.ok value) g)
    (herror : ∀ error g, mid (.error error) g →
      Follows agrees protocol (Prog.modify cleanup : Prog σ ε PUnit) g (Returns fun _ => post (.error error))) :
    Follows agrees protocol (program.onError cleanup) g post := by
  refine h.onError hok fun error g hmid s hagrees => ?_
  obtain ⟨g', hstep, _, -, hpost⟩ := herror error g hmid s hagrees rfl
  exact ⟨g', hstep, hpost⟩

/-- A last step runs from the local state of every outcome. -/
theorem ensuring {program : Prog σ ε α} {last : σ → σ} {mid post : Except ε α → γ → Prop}
    (h : Follows agrees protocol program g mid)
    (hlast : ∀ outcome g, mid outcome g → ∀ s, agrees s g →
      ∃ g', protocol s g (last s) g' ∧ post outcome g') :
    Follows agrees protocol (program.ensuring last) g post := by
  induction program generalizing g with
  | done value => exact fun s hagrees _ => hlast _ _ h s hagrees
  | fail error => exact fun s hagrees _ => hlast _ _ h s hagrees
  | step enabled act next ih =>
    intro s hagrees henabled
    obtain ⟨g', hstep, hnext⟩ := h s hagrees henabled
    exact ⟨g', hstep, ih s hnext⟩

/-- A program that follows two protocols follows both at once. -/
theorem and {γ' : Type*} {agrees' : σ → γ' → Prop} {protocol' : σ → γ' → σ → γ' → Prop} {g' : γ'}
    {program : Prog σ ε α} {post : Except ε α → γ → Prop} {post' : Except ε α → γ' → Prop}
    (h : Follows agrees protocol program g post) (h' : Follows agrees' protocol' program g' post') :
    Follows (fun s both => agrees s both.1 ∧ agrees' s both.2)
      (fun s both s' both' => protocol s both.1 s' both'.1 ∧ protocol' s both.2 s' both'.2) program (g, g')
      fun outcome both => post outcome both.1 ∧ post' outcome both.2 := by
  induction program generalizing g g' with
  | done value => exact ⟨h, h'⟩
  | fail error => exact ⟨h, h'⟩
  | step enabled act next ih =>
    intro s hagrees henabled
    obtain ⟨mid, hstep, hnext⟩ := h s hagrees.1 henabled
    obtain ⟨mid', hstep', hnext'⟩ := h' s hagrees.2 henabled
    exact ⟨(mid, mid'), ⟨hstep, hstep'⟩, ih s hnext hnext'⟩

end Follows

end Protocol

section Invariant

variable {ι γ : Type*} [DecidableEq ι] {σ : Type u} {ε : Type v} {α : Type w}
  {agrees : ι → σ → γ → Prop} {protocol : ι → σ → γ → σ → γ → Prop} {inv : σ → (ι → γ) → Prop}

/-- An invariant of a protocol: it makes every local state agree with the shared one, and every step of a
thread that moves only the local state of that thread keeps it. -/
structure ProtocolInvariant (agrees : ι → σ → γ → Prop) (protocol : ι → σ → γ → σ → γ → Prop)
    (inv : σ → (ι → γ) → Prop) : Prop where
  agrees : ∀ s locals, inv s locals → ∀ i, agrees i s (locals i)
  step : ∀ s locals i s' g', inv s locals → protocol i s (locals i) s' g' →
    inv s' (Function.update locals i g')

/-- The invariant of a pool: the shared invariant holds at some local states, and every thread follows the
protocol from its own. -/
def Pool.Invariant (agrees : ι → σ → γ → Prop) (protocol : ι → σ → γ → σ → γ → Prop)
    (inv : σ → (ι → γ) → Prop) (post : ι → Except ε α → γ → Prop) (pool : Pool ι σ ε α) : Prop :=
  ∃ locals, inv pool.shared locals ∧
    ∀ i, Follows (agrees i) (protocol i) (pool.threads i) (locals i) (post i)

/-- An invariant of a protocol may be strengthened by a property that it helps to keep. -/
theorem ProtocolInvariant.and {extra : σ → (ι → γ) → Prop} (h : ProtocolInvariant agrees protocol inv)
    (hextra : ∀ s locals i s' g', inv s locals → extra s locals → protocol i s (locals i) s' g' →
      extra s' (Function.update locals i g')) :
    ProtocolInvariant agrees protocol fun s locals => inv s locals ∧ extra s locals where
  agrees s locals hboth := h.agrees s locals hboth.1
  step _ _ _ _ _ hboth hstep :=
    ⟨h.step _ _ _ _ _ hboth.1 hstep, hextra _ _ _ _ _ hboth.1 hboth.2 hstep⟩

variable {environment : σ → σ → Prop} {post : ι → Except ε α → γ → Prop}

/-- One step of a pool preserves its invariant. -/
theorem Pool.Invariant.step {pool pool' : Pool ι σ ε α} (hinvariant : ProtocolInvariant agrees protocol inv)
    (henvironment : ∀ s s' locals, inv s locals → environment s s' → inv s' locals)
    (h : pool.Invariant agrees protocol inv post) (hstep : Pool.Step environment pool pool') :
    pool'.Invariant agrees protocol inv post := by
  obtain ⟨locals, hinv, hfollows⟩ := h
  cases hstep with
  | thread i hthread henabled =>
    have hi := hfollows i
    rw [hthread] at hi
    obtain ⟨g', hstep, hnext⟩ := hi pool.shared (hinvariant.agrees _ _ hinv i) henabled
    refine ⟨Function.update locals i g', hinvariant.step _ _ _ _ _ hinv hstep, fun j => ?_⟩
    by_cases hj : j = i
    · subst hj
      simpa only [Function.update_self] using hnext
    · simpa only [Function.update_of_ne hj] using hfollows j
  | environment h => exact ⟨locals, henvironment _ _ _ hinv h, hfollows⟩

/-- A scheduled thread takes a step of its protocol. -/
theorem Pool.Invariant.next {pool pool' : Pool ι σ ε α} {i : ι} (hinvariant : ProtocolInvariant agrees protocol inv)
    (h : pool.Invariant agrees protocol inv post) (hnext : pool.next i = some pool') :
    ∃ locals g', inv pool.shared locals ∧ protocol i pool.shared (locals i) pool'.shared g' := by
  obtain ⟨locals, hinv, hfollows⟩ := h
  unfold Pool.next at hnext
  split at hnext
  · next hthread =>
    split_ifs at hnext with henabled
    cases hnext
    have hi := hfollows i
    rw [hthread] at hi
    obtain ⟨g', hstep, -⟩ := hi pool.shared (hinvariant.agrees _ _ hinv i) henabled
    exact ⟨locals, g', hinv, hstep⟩
  · cases hnext

/-- Every reachable pool satisfies the invariant of the pool it started from. -/
theorem Pool.Invariant.reaches {pool pool' : Pool ι σ ε α}
    (hinvariant : ProtocolInvariant agrees protocol inv)
    (henvironment : ∀ s s' locals, inv s locals → environment s s' → inv s' locals)
    (h : pool.Invariant agrees protocol inv post) (hreach : pool.Reaches environment pool') :
    pool'.Invariant agrees protocol inv post := by
  induction hreach with
  | refl => exact h
  | tail _ hstep ih => exact ih.step hinvariant henvironment hstep

/-- A property that every step keeps in the states of a condition holds as long as they do. -/
theorem Pool.Invariant.reachesWithin {pool pool' : Pool ι σ ε α} {within : σ → Prop} {extra : σ → (ι → γ) → Prop}
    (hinvariant : ProtocolInvariant agrees protocol inv)
    (henvironment : ∀ s s' locals, inv s locals → extra s locals → environment s s' → inv s' locals ∧ extra s' locals)
    (hextra : ∀ s locals i s' g', within s → inv s locals → extra s locals → protocol i s (locals i) s' g' →
      extra s' (Function.update locals i g'))
    (h : pool.Invariant agrees protocol (fun s locals => inv s locals ∧ extra s locals) post)
    (hreach : pool.ReachesWithin environment within pool') :
    pool'.Invariant agrees protocol (fun s locals => inv s locals ∧ extra s locals) post := by
  induction hreach with
  | refl => exact h
  | @tail mid _ _ hstep ih =>
    obtain ⟨locals, ⟨hinv, hheld⟩, hfollows⟩ := ih
    obtain ⟨hwithin, hstep⟩ := hstep
    cases hstep with
    | thread i hthread henabled =>
      have hi := hfollows i
      rw [hthread] at hi
      obtain ⟨g', hstep, hnext⟩ := hi mid.shared (hinvariant.agrees _ _ hinv i) henabled
      refine ⟨Function.update locals i g', ⟨hinvariant.step _ _ _ _ _ hinv hstep,
        hextra _ _ _ _ _ hwithin hinv hheld hstep⟩, fun j => ?_⟩
      by_cases hj : j = i
      · subst hj
        simpa only [Function.update_self] using hnext
      · simpa only [Function.update_of_ne hj] using hfollows j
    | environment h => exact ⟨locals, henvironment _ _ _ hinv hheld h, hfollows⟩

/-- What a program that follows the protocol leaves when one thread runs it to its end. -/
theorem Follows.run {program : Prog σ ε α} {i : ι} {s s' : σ} {locals : ι → γ} {outcome : Except ε α}
    {post : Except ε α → γ → Prop} (hinvariant : ProtocolInvariant agrees protocol inv)
    (h : Follows (agrees i) (protocol i) program (locals i) post) (hinv : inv s locals)
    (hrun : program.run s = some (outcome, s')) :
    ∃ g', inv s' (Function.update locals i g') ∧ post outcome g' := by
  induction program generalizing s locals with
  | done value =>
    obtain ⟨rfl, rfl⟩ : .ok value = outcome ∧ s = s' := by simpa [Prog.run] using hrun
    exact ⟨locals i, by simpa using hinv, h⟩
  | fail error =>
    obtain ⟨rfl, rfl⟩ : .error error = outcome ∧ s = s' := by simpa [Prog.run] using hrun
    exact ⟨locals i, by simpa using hinv, h⟩
  | step enabled act next ih =>
    rw [Prog.run] at hrun
    split at hrun
    · obtain ⟨g', hstep, hnext⟩ := h s (hinvariant.agrees _ _ hinv i) ‹_›
      obtain ⟨final, hfinal, hpost⟩ := ih s (by rwa [Function.update_self])
        (hinvariant.step _ _ _ _ _ hinv hstep) hrun
      exact ⟨final, by simpa using hfinal, hpost⟩
    · cases hrun

end Invariant

end Interleaving
