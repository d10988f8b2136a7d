import Mathlib

/-!
# Computations that may fail

Inversion rules for `Except`: how a successful composite computation splits into its successful parts.
-/

namespace Results

universe u v

variable {ε : Type u} {α β : Type v}

/-- A successful sequence is a successful first part and a successful rest. -/
theorem bind_eq_ok {x : Except ε α} {f : α → Except ε β} {b : β} :
    x >>= f = .ok b ↔ ∃ a, x = .ok a ∧ f a = .ok b := by
  cases x with
  | ok a => exact ⟨fun h => ⟨a, rfl, h⟩, fun ⟨a', ha, h⟩ => by cases ha; exact h⟩
  | error e => exact ⟨fun h => (by cases h), fun ⟨a', ha, _⟩ => (by cases ha)⟩

/-- A successful first part is dropped from a sequence. -/
@[simp] theorem ok_bind (a : α) (f : α → Except ε β) : (Except.ok a >>= f) = f a := rfl

/-- A failed first part is the failure of a sequence. -/
theorem error_bind (e : ε) (f : α → Except ε β) : ((Except.error e : Except ε α) >>= f) = .error e := rfl

/-- Fail when a condition holds. -/
def rejectIf (p : Prop) [Decidable p] (e : ε) : Except ε PUnit.{v + 1} := if p then .error e else .ok ⟨⟩

/-- A guard passes exactly when its condition does not hold. -/
theorem rejectIf_eq_ok {p : Prop} [Decidable p] {e : ε} {u : PUnit} : rejectIf p e = .ok u ↔ ¬ p := by
  unfold rejectIf
  split <;> simp_all

/-- A guard without a violation passes. -/
@[simp] theorem rejectIf_false {e : ε} : rejectIf False e = .ok PUnit.unit.{v + 1} := rfl

/-- Fail when a value is missing. -/
def requireSome (e : ε) : Option α → Except ε α
  | some value => .ok value
  | none => .error e

/-- A required value is there. -/
theorem requireSome_eq_ok {e : ε} {o : Option α} {a : α} : requireSome e o = .ok a ↔ o = some a := by
  cases o <;> simp [requireSome]

/-- Changing the error keeps the successes. -/
theorem mapError_eq_ok {ε' : Type u} {x : Except ε α} {f : ε → ε'} {a : α} :
    x.mapError f = .ok a ↔ x = .ok a := by
  cases x <;> simp [Except.mapError]

/-- A pure result is a success. -/
theorem pure_eq_ok {a b : α} : (pure a : Except ε α) = .ok b ↔ a = b := by
  simp [pure, Except.pure]

/-- A check of a list succeeds exactly when it succeeds on every element. -/
theorem forM_eq_ok {l : List α} {f : α → Except ε PUnit} :
    l.forM f = .ok ⟨⟩ ↔ ∀ a ∈ l, f a = .ok ⟨⟩ := by
  induction l with
  | nil => exact ⟨fun _ _ h => (by cases h), fun _ => rfl⟩
  | cons a rest ih =>
    rw [List.forM_eq_forM, List.forM_cons, bind_eq_ok, List.forall_mem_cons]
    rw [List.forM_eq_forM] at ih
    exact ⟨fun ⟨_, ha, hrest⟩ => ⟨ha, ih.mp hrest⟩, fun ⟨ha, hrest⟩ => ⟨⟨⟩, ha, ih.mpr hrest⟩⟩

/-- A successful map of a list succeeded on every element. -/
theorem mapM_eq_ok {l : List α} {f : α → Except ε β} {l' : List β} :
    l.mapM f = .ok l' ↔ List.Forall₂ (fun a b => f a = .ok b) l l' := by
  induction l generalizing l' with
  | nil => cases l' <;> simp [pure, Except.pure]
  | cons a rest ih =>
    rw [List.mapM_cons, bind_eq_ok]
    constructor
    · rintro ⟨b, hb, hrest⟩
      obtain ⟨bs, hbs, hl'⟩ := bind_eq_ok.mp hrest
      cases hl'
      exact .cons hb (ih.mp hbs)
    · rintro (_ | ⟨hb, hbs⟩)
      exact ⟨_, hb, bind_eq_ok.mpr ⟨_, ih.mpr hbs, rfl⟩⟩

/-- A map of a list succeeds when it succeeds on every element. -/
theorem exists_mapM_eq_ok {l : List α} {f : α → Except ε β} (h : ∀ a ∈ l, ∃ b, f a = .ok b) :
    ∃ l', l.mapM f = .ok l' := by
  induction l with
  | nil => exact ⟨[], rfl⟩
  | cons a rest ih =>
    obtain ⟨⟨b, hb⟩, hrest⟩ := List.forall_mem_cons.mp h
    obtain ⟨bs, hbs⟩ := ih hrest
    exact ⟨b :: bs, mapM_eq_ok.mpr (.cons hb (mapM_eq_ok.mp hbs))⟩

/-- A map of a list whose successes are known. -/
theorem mapM_eq_ok_map {l : List α} {f : α → Except ε β} {g : α → β} {l' : List β}
    (h : ∀ a ∈ l, ∀ b, f a = .ok b → b = g a) :
    l.mapM f = .ok l' ↔ l' = l.map g ∧ ∀ a ∈ l, f a = .ok (g a) := by
  rw [mapM_eq_ok]
  induction l generalizing l' with
  | nil => simp
  | cons a rest ih =>
    obtain ⟨ha, hrest⟩ := List.forall_mem_cons.mp h
    constructor
    · rintro (_ | ⟨hb, hbs⟩)
      obtain ⟨rfl, hall⟩ := (ih hrest).mp hbs
      obtain rfl := ha _ hb
      exact ⟨rfl, List.forall_mem_cons.mpr ⟨hb, hall⟩⟩
    · rintro ⟨rfl, hall⟩
      obtain ⟨hb, hall⟩ := List.forall_mem_cons.mp hall
      exact .cons hb ((ih hrest).mpr ⟨rfl, hall⟩)

end Results
