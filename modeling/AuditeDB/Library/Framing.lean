import Mathlib
import AuditeDB.Library.Utf8

/-!
# Length-prefixed labelled fields

A message is a list of fields. Each field is written as its label, a zero byte, the decimal length of its
value, a zero byte, the value, and a zero byte. As labels have no zero byte, the bytes determine the
fields.
-/

namespace Framing

open Utf8

/-- The bytes of one field. -/
def field (label value : List UInt8) : List UInt8 :=
  label ++ 0 :: (decimalBytes value.length ++ 0 :: (value ++ [0]))

/-- The bytes of a list of fields. -/
def encodeFields (fields : List (List UInt8 × List UInt8)) : List UInt8 :=
  fields.flatMap fun f => field f.1 f.2

/-- A label that may start a field. -/
def ZeroFree (label : List UInt8) : Prop := 0 ∉ label

/-- Two zero-free blocks that end at the same zero byte are equal. -/
theorem append_zero_inj {a b rest rest' : List UInt8} (ha : ZeroFree a) (hb : ZeroFree b)
    (h : a ++ 0 :: rest = b ++ 0 :: rest') : a = b ∧ rest = rest' := by
  induction a generalizing b with
  | nil => cases b with
    | nil => exact ⟨rfl, by simpa using h⟩
    | cons y ys => exact absurd (by simp_all) hb
  | cons x xs ih => cases b with
    | nil => exact absurd (by simp_all) ha
    | cons y ys =>
      obtain ⟨rfl, htail⟩ : x = y ∧ xs ++ 0 :: rest = ys ++ 0 :: rest' := by simpa using h
      obtain ⟨rfl, hrest⟩ := ih (fun hx => ha (List.mem_cons_of_mem _ hx))
        (fun hy => hb (List.mem_cons_of_mem _ hy)) htail
      exact ⟨rfl, hrest⟩

/-- A field at the front of a message is determined together with the rest. -/
theorem field_append_inj {label label' value value' rest rest' : List UInt8}
    (hlabel : ZeroFree label) (hlabel' : ZeroFree label')
    (h : field label value ++ rest = field label' value' ++ rest') :
    label = label' ∧ value = value' ∧ rest = rest' := by
  simp only [field, List.append_assoc, List.cons_append] at h
  obtain ⟨rfl, hlength⟩ := append_zero_inj hlabel hlabel' h
  obtain ⟨hdecimal, hvalue⟩ := append_zero_inj (zero_notMem_decimalBytes value.length)
    (zero_notMem_decimalBytes value'.length) hlength
  obtain ⟨rfl, hrest⟩ := List.append_inj hvalue (decimalBytes_injective hdecimal)
  exact ⟨rfl, rfl, by simpa using hrest⟩

/-- A message determines its fields. -/
theorem encodeFields_injective {fields fields' : List (List UInt8 × List UInt8)}
    (hlabels : ∀ f ∈ fields, ZeroFree f.1) (hlabels' : ∀ f ∈ fields', ZeroFree f.1)
    (h : encodeFields fields = encodeFields fields') : fields = fields' := by
  induction fields generalizing fields' with
  | nil => cases fields' with
    | nil => rfl
    | cons f rest => simp [encodeFields, field] at h
  | cons f rest ih => cases fields' with
    | nil => simp [encodeFields, field] at h
    | cons f' rest' =>
      obtain ⟨hf, hrest⟩ := List.forall_mem_cons.mp hlabels
      obtain ⟨hf', hrest'⟩ := List.forall_mem_cons.mp hlabels'
      obtain ⟨hlabel, hvalue, htail⟩ := field_append_inj hf hf' h
      rw [Prod.ext hlabel hvalue, ih hrest hrest' htail]

end Framing
