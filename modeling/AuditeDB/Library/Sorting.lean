import Mathlib

/-!
# Insertion sort by parts

How insertion sort acts on concatenations of lists that are already ordered against each other.
-/

namespace Sorting

variable {α : Type*} {r : α → α → Prop} [DecidableRel r]

/-- An element that is not above the second part is inserted into the first part. -/
theorem orderedInsert_append {a : α} {s t : List α}
    (h : ∀ b ∈ t, r a b) : (s ++ t).orderedInsert r a = s.orderedInsert r a ++ t := by
  induction s with
  | nil => cases t with
    | nil => rfl
    | cons b rest => simp [List.orderedInsert, h b (List.mem_cons_self ..)]
  | cons b rest ih =>
    simp only [List.cons_append, List.orderedInsert]
    split_ifs
    · rfl
    · rw [ih, List.cons_append]

/-- Two lists, one below the other, are sorted separately. -/
theorem insertionSort_append {s t : List α}
    (h : ∀ a ∈ s, ∀ b ∈ t, r a b) :
    (s ++ t).insertionSort r = s.insertionSort r ++ t.insertionSort r := by
  induction s with
  | nil => rfl
  | cons a rest ih =>
    rw [List.cons_append, List.insertionSort_cons, List.insertionSort_cons,
      ih fun b hb => h b (List.mem_cons_of_mem _ hb)]
    exact orderedInsert_append fun b hb =>
      h a (List.mem_cons_self ..) b ((List.mem_insertionSort r).mp hb)

/-- Sorting depends on the order among the elements only. -/
theorem insertionSort_congr {r' : α → α → Prop} [DecidableRel r'] {s : List α}
    (h : ∀ a ∈ s, ∀ b ∈ s, r a b ↔ r' a b) : s.insertionSort r = s.insertionSort r' := by
  have hinsert : ∀ (a : α) (t : List α), (∀ b ∈ t, r a b ↔ r' a b) →
      t.orderedInsert r a = t.orderedInsert r' a := by
    intro a t ht
    induction t with
    | nil => rfl
    | cons b rest ih =>
      simp only [List.orderedInsert, ht b (List.mem_cons_self ..),
        ih fun c hc => ht c (List.mem_cons_of_mem _ hc)]
  induction s with
  | nil => rfl
  | cons a rest ih =>
    rw [List.insertionSort_cons, List.insertionSort_cons,
      ih fun b hb c hc => h b (List.mem_cons_of_mem _ hb) c (List.mem_cons_of_mem _ hc)]
    exact hinsert a _ fun b hb => h a (List.mem_cons_self ..) b
      (List.mem_cons_of_mem _ ((List.mem_insertionSort r').mp hb))

/-- An element that is behind all others is inserted at the end. -/
theorem orderedInsert_eq_append {a : α} {s : List α} (h : ∀ b ∈ s, ¬ r a b) :
    s.orderedInsert r a = s ++ [a] := by
  induction s with
  | nil => rfl
  | cons b rest ih =>
    obtain ⟨hb, hrest⟩ := List.forall_mem_cons.mp h
    rw [List.orderedInsert_cons, if_neg hb, ih hrest, List.cons_append]

/-- A list in the opposite order is reversed. -/
theorem insertionSort_eq_reverse {s : List α} (h : s.Pairwise fun a b => ¬ r a b) :
    s.insertionSort r = s.reverse := by
  induction s with
  | nil => rfl
  | cons a rest ih =>
    obtain ⟨hhead, htail⟩ := List.pairwise_cons.mp h
    rw [List.insertionSort_cons, ih htail, orderedInsert_eq_append, List.reverse_cons]
    exact fun b hb => hhead b (List.mem_reverse.mp hb)

/-- Dropping elements of an ordered list commutes with an insertion. -/
theorem filter_orderedInsert [IsTrans α r] (p : α → Bool) {a : α} {s : List α} (h : s.Pairwise r) :
    (s.orderedInsert r a).filter p = if p a then (s.filter p).orderedInsert r a else s.filter p := by
  induction s with
  | nil => simp [List.filter_cons]
  | cons b rest ih =>
    obtain ⟨hb, hrest⟩ := List.pairwise_cons.mp h
    rw [List.orderedInsert_cons]
    split_ifs with hab ha ha
    · -- everything that is left is above the inserted element
      have hall : ∀ c ∈ (b :: rest).filter p, r a c := by
        intro c hc
        rcases List.mem_cons.mp (List.mem_of_mem_filter hc) with rfl | hc
        · exact hab
        · exact IsTrans.trans a b c hab (hb c hc)
      rw [List.filter_cons_of_pos ha]
      simpa using (orderedInsert_append (s := []) hall).symm
    · rw [List.filter_cons_of_neg ha]
    · rw [List.filter_cons, ih hrest, if_pos ha, List.filter_cons]
      split_ifs
      · rw [List.orderedInsert_cons, if_neg hab]
      · rfl
    · rw [List.filter_cons, ih hrest, if_neg ha, List.filter_cons]

/-- Dropping elements commutes with sorting. -/
theorem filter_insertionSort [IsTrans α r] [Std.Total r] (p : α → Bool) (s : List α) :
    (s.insertionSort r).filter p = (s.filter p).insertionSort r := by
  induction s with
  | nil => rfl
  | cons a rest ih =>
    rw [List.insertionSort_cons, filter_orderedInsert p (List.pairwise_insertionSort r rest), ih,
      List.filter_cons]
    split_ifs
    · rfl
    · rfl

end Sorting
