import Mathlib

/-!
# Hash chains

Every entry of a chain carries a tag and the tag of its predecessor. When equal tags have equal predecessors
and no tag is the root, two chains that meet in one tag meet at the same position and agree on everything
before it.
-/

namespace HashChain

variable {E H : Type*} (tag prev : E → H)

/-- Each entry names the tag before it; the first one names the given root. -/
def Linked : H → List E → Prop
  | _, [] => True
  | root, e :: rest => prev e = root ∧ Linked (tag e) rest

variable {tag prev} {root : H}

/-- The first entry of a chain names the root. -/
theorem Linked.head {l : List E} (h : Linked tag prev root l) (hl : 0 < l.length) :
    prev l[0] = root := by
  cases l with
  | nil => cases hl
  | cons e rest => exact h.1

/-- Every later entry names the tag of its predecessor. -/
theorem Linked.succ {l : List E} (h : Linked tag prev root l) {n : Nat} (hn : n + 1 < l.length) :
    prev l[n + 1] = tag l[n] := by
  induction l generalizing root n with
  | nil => cases hn
  | cons e rest ih =>
    cases n with
    | zero => exact h.2.head (by simpa using hn)
    | succ n => exact ih h.2 (by simpa using hn)

/-- A chain grows by an entry that names its last tag. -/
theorem Linked.append_singleton {l : List E} {e : E} (h : Linked tag prev root l)
    (he : prev e = (l.getLast?.map tag).getD root) : Linked tag prev root (l ++ [e]) := by
  induction l generalizing root with
  | nil => exact ⟨he, trivial⟩
  | cons a rest ih =>
    refine ⟨h.1, ih h.2 ?_⟩
    cases rest with
    | nil => exact he
    | cons b rest =>
      rw [List.getLast?_cons_cons] at he
      rw [List.getLast?_eq_some_getLast (List.cons_ne_nil b rest)] at he ⊢
      exact he

/-- A walk that accepts an entry when it names the current tag and is good, and then moves on to the tag of the entry,
accepts exactly the linked chains of good entries. -/
theorem foldlM_eq_ok {S ε : Type*} (current : S → H) {step : S → E → Except ε S} {advance : S → E → S} {Good : E → Prop}
    (hstep : ∀ s e s', step s e = .ok s' ↔ prev e = current s ∧ Good e ∧ s' = advance s e)
    (hcurrent : ∀ s e, current (advance s e) = tag e) {l : List E} {s s' : S} :
    l.foldlM step s = .ok s' ↔ Linked tag prev (current s) l ∧ (∀ e ∈ l, Good e) ∧ s' = l.foldl advance s := by
  induction l generalizing s with
  | nil => simp [Linked, pure, Except.pure, eq_comm]
  | cons e rest ih =>
    rw [List.foldlM_cons, List.forall_mem_cons, Linked, List.foldl_cons, ← hcurrent s e]
    constructor
    · intro h
      cases hnext : step s e with
      | error error => rw [hnext] at h; cases h
      | ok next =>
        rw [hnext] at h
        obtain ⟨hprev, hgood, rfl⟩ := (hstep s e next).mp hnext
        obtain ⟨hlinked, hall, hlast⟩ := ih.mp h
        exact ⟨⟨hprev, hlinked⟩, ⟨hgood, hall⟩, hlast⟩
    · rintro ⟨⟨hprev, hlinked⟩, ⟨hgood, hall⟩, hlast⟩
      rw [(hstep s e _).mpr ⟨hprev, hgood, rfl⟩]
      exact ih.mpr ⟨hlinked, hall, hlast⟩

/-- Two chains that meet in one tag meet at the same position and agree up to it. -/
theorem Linked.agree {l₁ l₂ : List E} (h₁ : Linked tag prev root l₁) (h₂ : Linked tag prev root l₂)
    (hroot₁ : ∀ e ∈ l₁, tag e ≠ root) (hroot₂ : ∀ e ∈ l₂, tag e ≠ root) {Same : E → E → Prop}
    (hsame : ∀ a ∈ l₁, ∀ b ∈ l₂, tag a = tag b → Same a b ∧ prev a = prev b)
    {n m : Nat} (hn : n < l₁.length) (hm : m < l₂.length) (htag : tag l₁[n] = tag l₂[m]) :
    n = m ∧ ∀ i (h₁ : i < l₁.length) (h₂ : i < l₂.length), i ≤ n → Same l₁[i] l₂[i] := by
  induction n generalizing m with
  | zero =>
    obtain ⟨hab, hprev⟩ := hsame _ (List.getElem_mem hn) _ (List.getElem_mem hm) htag
    cases m with
    | zero =>
      refine ⟨rfl, fun i hi₁ hi₂ hi => ?_⟩
      obtain rfl : i = 0 := Nat.le_zero.mp hi
      exact hab
    | succ m =>
      rw [h₁.head hn, h₂.succ hm] at hprev
      exact absurd hprev.symm (hroot₂ _ (List.getElem_mem (Nat.lt_of_succ_lt hm)))
  | succ n ih =>
    obtain ⟨hab, hprev⟩ := hsame _ (List.getElem_mem hn) _ (List.getElem_mem hm) htag
    cases m with
    | zero =>
      rw [h₁.succ hn, h₂.head hm] at hprev
      exact absurd hprev (hroot₁ _ (List.getElem_mem (Nat.lt_of_succ_lt hn)))
    | succ m =>
      rw [h₁.succ hn, h₂.succ hm] at hprev
      obtain ⟨rfl, hbefore⟩ := ih (Nat.lt_of_succ_lt hn) (Nat.lt_of_succ_lt hm) hprev
      refine ⟨rfl, fun i hi₁ hi₂ hi => ?_⟩
      rcases Nat.lt_or_eq_of_le hi with hlt | rfl
      · exact hbefore i hi₁ hi₂ (Nat.lt_succ_iff.mp hlt)
      · exact hab

end HashChain
