import Mathlib

/-!
# Totals of charges

A total tallies with charges when only finitely many keys are charged and it is the sum of all charges. The rules say
how a total follows a change of one charge, and how totals compare when the charges do.
-/

namespace Totals

variable {κ : Type*} {total total' : ℕ} {charge charge' : κ → ℕ}

/-- A total is the sum of the charges of all keys. -/
def Tallies (total : ℕ) (charge : κ → ℕ) : Prop :=
  ∃ charged : κ →₀ ℕ, (∀ key, charged key = charge key) ∧ charged.sum (fun _ amount => amount) = total

/-- Nothing is charged. -/
theorem Tallies.zero : Tallies 0 fun _ : κ => 0 := ⟨0, fun _ => rfl, Finsupp.sum_zero_index⟩

/-- Charges have one total. -/
theorem Tallies.unique (h : Tallies total charge) (h' : Tallies total' charge) : total = total' := by
  obtain ⟨charged, hcharged, rfl⟩ := h
  obtain ⟨charged', hcharged', rfl⟩ := h'
  have hsame : charged = charged' := Finsupp.ext fun key => (hcharged key).trans (hcharged' key).symm
  rw [hsame]

/-- A charge is a part of the total. -/
theorem Tallies.charge_le (h : Tallies total charge) (key : κ) : charge key ≤ total := by
  obtain ⟨charged, hcharged, rfl⟩ := h
  rw [← hcharged key]
  by_cases hkey : key ∈ charged.support
  · exact Finset.single_le_sum (f := charged) (fun _ _ => Nat.zero_le _) hkey
  · rw [Finsupp.notMem_support_iff.mp hkey]
    exact Nat.zero_le _

/-- The total after a change of one charge. -/
theorem Tallies.update [DecidableEq κ] (h : Tallies total charge) (key : κ) (amount : ℕ) :
    Tallies (total - charge key + amount) (Function.update charge key amount) := by
  have hle := h.charge_le key
  obtain ⟨charged, hcharged, rfl⟩ := h
  refine ⟨charged.update key amount, fun other => ?_, ?_⟩
  · by_cases hother : other = key
    · rw [hother, Finsupp.coe_update, Function.update_self, Function.update_self]
    · rw [Finsupp.coe_update, Function.update_of_ne hother, Function.update_of_ne hother, hcharged]
  · have hsum := Finsupp.sum_update_add charged key amount (fun _ n => n) (fun _ => rfl) (fun _ _ _ => rfl)
    rw [hcharged] at hsum
    omega

/-- The total of two charges. -/
theorem Tallies.add (h : Tallies total charge) (h' : Tallies total' charge') :
    Tallies (total + total') fun key => charge key + charge' key := by
  obtain ⟨charged, hcharged, rfl⟩ := h
  obtain ⟨charged', hcharged', rfl⟩ := h'
  refine ⟨charged + charged', fun key => ?_, ?_⟩
  · rw [Finsupp.add_apply, hcharged, hcharged']
  · exact Finsupp.sum_add_index' (fun _ => rfl) fun _ _ _ => rfl

/-- Smaller charges have a smaller total. -/
theorem Tallies.mono (h : Tallies total charge) (h' : Tallies total' charge') (hle : ∀ key, charge key ≤ charge' key) :
    total ≤ total' := by
  obtain ⟨charged, hcharged, rfl⟩ := h
  obtain ⟨charged', hcharged', rfl⟩ := h'
  have hcharges : charged ≤ charged' := fun key => by rw [hcharged, hcharged']; exact hle key
  have hsupport : charged.support ⊆ charged'.support := by
    intro key hkey
    rw [Finsupp.mem_support_iff] at hkey ⊢
    have := hcharges key
    omega
  calc charged.sum (fun _ amount => amount)
      = ∑ key ∈ charged'.support, charged key := Finsupp.sum_of_support_subset _ hsupport _ fun _ _ => rfl
    _ ≤ ∑ key ∈ charged'.support, charged' key := Finset.sum_le_sum fun key _ => hcharges key

/-- One key is charged. -/
theorem Tallies.single [DecidableEq κ] (key : κ) (amount : ℕ) :
    Tallies amount fun other => if key = other then amount else 0 :=
  ⟨Finsupp.single key amount, fun other => by rw [Finsupp.single_apply], Finsupp.sum_single_index rfl⟩

/-- Many keys are charged one after the other. -/
theorem Tallies.sum {ι : Type*} {totals : ι → ℕ} {charges : ι → κ → ℕ} (items : Finset ι)
    (h : ∀ item ∈ items, Tallies (totals item) (charges item)) :
    Tallies (∑ item ∈ items, totals item) fun key => ∑ item ∈ items, charges item key := by
  classical
  induction items using Finset.induction_on with
  | empty => simpa using Tallies.zero
  | insert item items hnew ih =>
    have hrest := ih fun other hother => h other (Finset.mem_insert_of_mem hother)
    have hitem := h item (Finset.mem_insert_self item items)
    simpa [Finset.sum_insert hnew] using hitem.add hrest

/-- The total of a list of all charged keys. -/
theorem Tallies.of_nodup {keys : List κ} (hnodup : keys.Nodup) (hzero : ∀ key, key ∉ keys → charge key = 0) :
    Tallies (keys.map charge).sum charge := by
  classical
  have hcharged : ∀ key, charge key ≠ 0 → key ∈ keys.toFinset := fun key hne =>
    List.mem_toFinset.mpr (not_imp_comm.mp (hzero key) hne)
  refine ⟨Finsupp.onFinset keys.toFinset charge hcharged, fun _ => rfl, ?_⟩
  rw [Finsupp.onFinset_sum (g := fun _ amount => amount) hcharged fun _ => rfl]
  exact List.sum_toFinset charge hnodup

/-- The total of entries with distinct keys. -/
theorem tallies_dlookup {β : Type*} [DecidableEq κ] (amount : β → ℕ) {entries : List (Sigma fun _ : κ => β)}
    (hkeys : entries.NodupKeys) :
    Tallies (entries.map fun entry => amount entry.2).sum fun key => ((entries.dlookup key).map amount).getD 0 := by
  induction entries with
  | nil => exact Tallies.zero
  | cons entry entries ih =>
    obtain ⟨key, value⟩ := entry
    obtain ⟨hnew, hrest⟩ := List.nodupKeys_cons.mp hkeys
    have hnone : ((entries.dlookup key).map amount).getD 0 = 0 := by
      rw [List.dlookup_eq_none.mpr hnew]
      rfl
    have htotal := (ih hrest).update key (amount value)
    rw [hnone, Nat.sub_zero, Nat.add_comm] at htotal
    have hcharges : (fun other => (((⟨key, value⟩ :: entries : List (Sigma fun _ : κ => β)).dlookup other).map amount).getD 0) =
        Function.update (fun other => ((entries.dlookup other).map amount).getD 0) key (amount value) := by
      funext other
      by_cases hother : other = key
      · subst hother
        rw [Function.update_self, List.dlookup_cons_eq]
        rfl
      · rw [Function.update_of_ne hother, List.dlookup_cons_ne _ _ hother]
    rw [hcharges]
    exact htotal

/-- The total of the entries of a map. -/
theorem tallies_lookup {β : Type*} [DecidableEq κ] (map : AList fun _ : κ => β) (amount : β → ℕ) :
    Tallies (map.entries.map fun entry => amount entry.2).sum fun key => ((map.lookup key).map amount).getD 0 :=
  tallies_dlookup amount map.nodupKeys

end Totals
