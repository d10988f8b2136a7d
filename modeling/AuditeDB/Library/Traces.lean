import Mathlib.Data.List.Induction

/-!
# Labelled runs

Runs of a labelled transition relation that grow at their end, with their labels as a list.
-/

namespace Traces

variable {σ ι : Type*}

/-- A run of labelled steps from a state. -/
inductive Trace (step : σ → ι → σ → Prop) (start : σ) : List ι → σ → Prop where
  | refl : Trace step start [] start
  | snoc {labels : List ι} {label : ι} {s s' : σ} (htrace : Trace step start labels s) (hstep : step s label s') :
      Trace step start (labels ++ [label]) s'

namespace Trace

variable {step : σ → ι → σ → Prop} {start s s' : σ} {labels more : List ι} {label : ι}

/-- A run of one step. -/
theorem single (hstep : step s label s') : Trace step s [label] s' := .snoc .refl hstep

/-- Runs follow one another. -/
theorem append (h : Trace step start labels s) (hmore : Trace step s more s') :
    Trace step start (labels ++ more) s' := by
  induction hmore with
  | refl => rwa [List.append_nil]
  | snoc _ hstep ih =>
    rw [← List.append_assoc]
    exact .snoc ih hstep

/-- A run without labels stays where it is. -/
theorem eq_of_nil (h : Trace step start [] s) : s = start := by
  generalize hempty : ([] : List ι) = labels at h
  cases h with
  | refl => rfl
  | snoc => simp at hempty

/-- The last step of a run. -/
theorem last (h : Trace step start (labels ++ [label]) s') : ∃ s, Trace step start labels s ∧ step s label s' := by
  generalize hall : labels ++ [label] = all at h
  cases h with
  | refl => simp at hall
  | snoc htrace hstep =>
    obtain ⟨rfl, hlabel⟩ := List.append_inj' hall rfl
    cases hlabel
    exact ⟨_, htrace, hstep⟩

/-- A run over a joined list of labels passes through a state between its parts. -/
theorem split (h : Trace step start (labels ++ more) s') : ∃ s, Trace step start labels s ∧ Trace step s more s' := by
  induction more using List.reverseRecOn generalizing s' with
  | nil =>
    rw [List.append_nil] at h
    exact ⟨s', h, .refl⟩
  | append_singleton more label ih =>
    rw [← List.append_assoc] at h
    obtain ⟨before, hbefore, hstep⟩ := h.last
    obtain ⟨s, hs, hmore⟩ := ih hbefore
    exact ⟨s, hs, .snoc hmore hstep⟩

/-- A run passes through every one of its labels. -/
theorem split_cons (h : Trace step start (labels ++ label :: more) s') :
    ∃ before after, Trace step start labels before ∧ step before label after ∧ Trace step after more s' := by
  rw [← List.singleton_append, ← List.append_assoc] at h
  obtain ⟨after, hbefore, hmore⟩ := h.split
  obtain ⟨before, hlabels, hstep⟩ := hbefore.last
  exact ⟨before, after, hlabels, hstep, hmore⟩

/-- What every step keeps holds at the end of a run. -/
theorem invariant (inv : σ → Prop) (h : Trace step start labels s) (hstart : inv start)
    (hstep : ∀ s label s', inv s → step s label s' → inv s') : inv s := by
  induction h with
  | refl => exact hstart
  | snoc _ hlast ih => exact hstep _ _ _ ih hlast

/-- A value that some of the labels change follows the states of a run. -/
theorem foldl_filterMap {α β : Type*} {P : σ → β → Prop} {select : ι → Option α} {f : β → α → β} {b : β}
    (h : Trace step start labels s) (hstart : P start b)
    (hsilent : ∀ s label s' b, label ∈ labels → select label = none → P s b → step s label s' → P s' b)
    (hstep : ∀ s label s' b a, label ∈ labels → select label = some a → P s b → step s label s' → P s' (f b a)) :
    P s ((labels.filterMap select).foldl f b) := by
  induction h with
  | refl => exact hstart
  | @snoc labels label s s' _ hlast ih =>
    have hearlier := ih (fun s label s' b hmem => hsilent s label s' b (List.mem_append_left _ hmem))
      fun s label s' b a hmem => hstep s label s' b a (List.mem_append_left _ hmem)
    have hmem : label ∈ labels ++ [label] := List.mem_append_right _ (List.mem_singleton.mpr rfl)
    rw [List.filterMap_append, List.foldl_append]
    cases hselect : select label with
    | none =>
      simp only [List.filterMap_cons, hselect, List.filterMap_nil, List.foldl_nil]
      exact hsilent s label s' _ hmem hselect hearlier hlast
    | some a =>
      simp only [List.filterMap_cons, hselect, List.filterMap_nil, List.foldl_cons, List.foldl_nil]
      exact hstep s label s' _ a hmem hselect hearlier hlast

end Trace

/-- A member of one of two lists in step has a partner in the other. -/
theorem exists_of_mem {α β : Type*} {R : α → β → Prop} {l : List α} {l' : List β} (h : List.Forall₂ R l l') {a : α}
    (ha : a ∈ l) : ∃ b ∈ l', R a b := by
  induction h with
  | nil => cases ha
  | @cons head partner l l' hhead _ ih =>
    rcases List.mem_cons.mp ha with rfl | ha
    · exact ⟨partner, List.mem_cons_self .., hhead⟩
    · obtain ⟨b, hb, hab⟩ := ih ha
      exact ⟨b, List.mem_cons_of_mem _ hb, hab⟩

end Traces
