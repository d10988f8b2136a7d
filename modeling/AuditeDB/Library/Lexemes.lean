import Mathlib

/-!
# Splitting words and reading integers

The operations on words that small wire formats are read with: the parts around the first separator or around
the last occurrence of a word, and the integer that a word of decimal digits denotes, within the range of a machine
type.
-/

namespace Lexemes

section Splitting

variable {α : Type*} [DecidableEq α]

/-- The parts of a line around its first separator. -/
def splitOnce (separator : α) : List α → Option (List α × List α)
  | [] => none
  | a :: rest =>
    if a = separator then some ([], rest)
    else (splitOnce separator rest).map fun parts => (a :: parts.1, parts.2)

/-- The parts of a line around the last occurrence of a word. -/
def rsplitOnce (word : List α) : List α → Option (List α × List α)
  | [] => (([] : List α).dropPrefix? word).map fun right => ([], right)
  | a :: rest =>
    match rsplitOnce word rest with
    | some parts => some (a :: parts.1, parts.2)
    | none => ((a :: rest).dropPrefix? word).map fun right => ([], right)

/-- A line splits exactly at its first separator. -/
theorem splitOnce_eq_some {separator : α} {line left right : List α} :
    splitOnce separator line = some (left, right) ↔ line = left ++ separator :: right ∧ separator ∉ left := by
  induction line generalizing left with
  | nil => simp [splitOnce]
  | cons a rest ih =>
    rw [splitOnce]
    split
    · next ha =>
      subst ha
      cases left with
      | nil => simp [eq_comm]
      | cons b left => simp +contextual [eq_comm]
    · next ha =>
      cases left with
      | nil => simp [ha]
      | cons b left =>
        rw [Option.map_eq_some_iff]
        constructor
        · rintro ⟨⟨l, r⟩, hsplit, hparts⟩
          obtain ⟨⟨rfl, rfl⟩, rfl⟩ : (a = b ∧ l = left) ∧ r = right := by simpa using hparts
          obtain ⟨rfl, hnot⟩ := ih.mp hsplit
          exact ⟨rfl, by simp [hnot, Ne.symm ha]⟩
        · rintro ⟨hline, hnot⟩
          obtain ⟨rfl, rfl⟩ : a = b ∧ rest = left ++ separator :: right := by simpa using hline
          exact ⟨(left, right), ih.mpr ⟨rfl, fun h => hnot (List.mem_cons_of_mem _ h)⟩, rfl⟩

/-- A line without the separator does not split. -/
theorem splitOnce_eq_none {separator : α} {line : List α} :
    splitOnce separator line = none ↔ separator ∉ line := by
  induction line with
  | nil => simp [splitOnce]
  | cons a rest ih =>
    rw [splitOnce]
    split
    · next ha => simp [ha]
    · next ha => simp [ih, Ne.symm ha]

/-- The parts of a split line stand around the word. -/
theorem append_of_rsplitOnce {word line left right : List α} (h : rsplitOnce word line = some (left, right)) :
    line = left ++ (word ++ right) := by
  have hstart : ∀ {l left : List α}, (l.dropPrefix? word).map (fun right => (([] : List α), right)) =
      some (left, right) → l = left ++ (word ++ right) := by
    intro l left hl
    obtain ⟨rest, hrest, hparts⟩ := Option.map_eq_some_iff.mp hl
    obtain ⟨lead, rfl, hlead⟩ := List.dropPrefix?_eq_some_iff.mp hrest
    cases hparts
    rw [beq_iff_eq.mp hlead]
    rfl
  induction line generalizing left with
  | nil => exact hstart h
  | cons a rest ih =>
    rw [rsplitOnce] at h
    cases hrest : rsplitOnce word rest with
    | none => rw [hrest] at h; exact hstart h
    | some parts =>
      rw [hrest] at h
      cases h
      rw [ih hrest]
      rfl

/-- A word does not start a line that has too few of one of its letters. -/
theorem dropPrefix?_eq_none {a : α} {word line : List α} (hcount : line.count a < word.count a) :
    line.dropPrefix? word = none := by
  rw [Option.eq_none_iff_forall_ne_some]
  intro right hright
  obtain ⟨lead, rfl, hlead⟩ := List.dropPrefix?_eq_some_iff.mp hright
  rw [beq_iff_eq.mp hlead, List.count_append] at hcount
  omega

/-- A word does not occur in a line that has too few of one of its letters. -/
theorem rsplitOnce_eq_none {a : α} {word line : List α} (hcount : line.count a < word.count a) :
    rsplitOnce word line = none := by
  induction line with
  | nil => rw [rsplitOnce, dropPrefix?_eq_none hcount]; rfl
  | cons b rest ih =>
    have hrest : rest.count a < word.count a := lt_of_le_of_lt (List.count_le_count_cons ..) hcount
    rw [rsplitOnce, ih hrest, dropPrefix?_eq_none hcount]
    rfl

/-- A line splits at an occurrence of a word that has too few letters of the word behind its first letter. -/
theorem rsplitOnce_append {a : α} {word right : List α} (left : List α)
    (hcount : (word.tail ++ right).count a < word.count a) :
    rsplitOnce word (left ++ (word ++ right)) = some (left, right) := by
  induction left with
  | nil =>
    cases word with
    | nil => simp at hcount
    | cons b word =>
      have hdrop : (b :: (word ++ right)).dropPrefix? (b :: word) = some right :=
        List.dropPrefix?_eq_some_iff.mpr ⟨b :: word, rfl, beq_self_eq_true _⟩
      have hnone : rsplitOnce (b :: word) (word ++ right) = none := rsplitOnce_eq_none hcount
      rw [List.nil_append, List.cons_append, rsplitOnce, hnone, hdrop]
      rfl
  | cons b left ih => rw [List.cons_append, rsplitOnce, ih]

/-- A line splits at a separator that does not occur behind it. -/
theorem rsplitOnce_singleton {separator : α} {right : List α} (left : List α) (hright : separator ∉ right) :
    rsplitOnce [separator] (left ++ separator :: right) = some (left, right) := by
  have hcount : (([separator] : List α).tail ++ right).count separator < [separator].count separator := by
    simp [List.count_eq_zero_of_not_mem hright]
  exact rsplitOnce_append left hcount

/-- A suffix is dropped. -/
theorem dropSuffix?_append (lead tail : List α) : (lead ++ tail).dropSuffix? tail = some lead :=
  List.dropSuffix?_eq_some_iff.mpr ⟨tail, rfl, beq_self_eq_true _⟩

/-- A line with another last letter does not have the suffix. -/
theorem dropSuffix?_eq_none {line tail : List α} (htail : tail ≠ []) (hlast : line.getLast? ≠ tail.getLast?) :
    line.dropSuffix? tail = none := by
  rw [Option.eq_none_iff_forall_ne_some]
  intro lead hlead
  obtain ⟨tail', rfl, hsame⟩ := List.dropSuffix?_eq_some_iff.mp hlead
  rw [beq_iff_eq.mp hsame, List.getLast?_append_of_ne_nil _ htail] at hlast
  exact hlast rfl

end Splitting

/-- The reasons for which a word is no integer. -/
inductive IntErrorKind where
  | empty | invalidDigit | posOverflow | negOverflow
deriving DecidableEq

/-- The values of a machine type. -/
structure IntRange where
  least : Int
  greatest : Int
deriving DecidableEq

/-- The value of a decimal digit. -/
def digitValue (c : Char) : Int := (c.toNat - '0'.toNat : Nat)

/-- Read the digits of a nonnegative number behind a value. -/
def readPositive (range : IntRange) : List Char → Int → Except IntErrorKind Int
  | [], value => .ok value
  | c :: rest, value =>
    if c.isDigit = false then .error .invalidDigit
    else if range.greatest < value * 10 + digitValue c then .error .posOverflow
    else readPositive range rest (value * 10 + digitValue c)

/-- Read the digits of a negative number behind a value. -/
def readNegative (range : IntRange) : List Char → Int → Except IntErrorKind Int
  | [], value => .ok value
  | c :: rest, value =>
    if c.isDigit = false then .error .invalidDigit
    else if value * 10 - digitValue c < range.least then .error .negOverflow
    else readNegative range rest (value * 10 - digitValue c)

/-- The integer that a word denotes; a sign may stand in front, a minus only for a signed type. -/
def parseInt (range : IntRange) (word : List Char) : Except IntErrorKind Int :=
  match word with
  | [] => .error .empty
  | ['+'] | ['-'] => .error .invalidDigit
  | '+' :: rest => readPositive range rest 0
  | '-' :: rest => if range.least < 0 then readNegative range rest 0 else readPositive range word 0
  | _ => readPositive range word 0

/-- The number that a word of digits denotes. -/
def numeral (digits : List Char) : Nat := Nat.ofDigitChars 10 digits 0

/-- The digits of a number denote it. -/
@[simp] theorem numeral_toDigits (n : Nat) : numeral (Nat.toDigits 10 n) = n := Nat.ofDigitChars_ten_toDigits

/-- The letters of a number in decimal are digits. -/
theorem isDigit_of_mem {n : Nat} {c : Char} (hc : c ∈ Nat.toDigits 10 n) : c.isDigit = true :=
  Nat.isDigit_of_mem_toDigits (by decide) (by decide) hc

/-- A positive number has no leading zero. -/
theorem head?_toDigits_ne_zero {n : Nat} (hn : 0 < n) : (Nat.toDigits 10 n).head? ≠ some '0' := by
  induction n using Nat.strong_induction_on with
  | _ n ih =>
    by_cases hsmall : n < 10
    · rw [Nat.toDigits_of_lt_base hsmall]
      have hdigit : ∀ d < 10, 0 < d → [Nat.digitChar d].head? ≠ some '0' := by decide
      exact hdigit n hsmall hn
    · rw [Nat.toDigits_of_base_le (by decide) (not_lt.mp hsmall),
        List.head?_append_of_ne_nil _ Nat.toDigits_ne_nil]
      exact ih (n / 10) (by omega) (by omega)

/-- A nonnegative integer is written in decimal digits. -/
theorem toList_toString_int {value : Int} (hvalue : 0 ≤ value) :
    (toString value).toList = Nat.toDigits 10 value.toNat := by
  have htext : toString value = Nat.repr value.toNat := by
    conv_lhs => rw [← Int.toNat_of_nonneg hvalue]
    rfl
  rw [htext, Nat.toList_repr]

/-- Digits behind a number denote no smaller number. -/
theorem le_ofDigitChars (digits : List Char) (value : Nat) : value ≤ Nat.ofDigitChars 10 digits value := by
  rw [Nat.ofDigitChars_eq_ofDigitChars_zero]
  have hpos : 0 < 10 ^ digits.length := by positivity
  calc value ≤ 10 ^ digits.length * value := Nat.le_mul_of_pos_left value hpos
    _ ≤ 10 ^ digits.length * value + Nat.ofDigitChars 10 digits 0 := Nat.le_add_right ..

/-- Digits are read exactly up to the greatest value. -/
theorem readPositive_digits {range : IntRange} {digits : List Char} (hdigits : ∀ c ∈ digits, c.isDigit = true)
    {value : Nat} (hvalue : (value : Int) ≤ range.greatest) :
    readPositive range digits value =
      if (Nat.ofDigitChars 10 digits value : Int) ≤ range.greatest then
        .ok (Nat.ofDigitChars 10 digits value : Int)
      else .error .posOverflow := by
  induction digits generalizing value with
  | nil => simp [readPositive, hvalue]
  | cons c rest ih =>
    obtain ⟨hc, hrest⟩ := List.forall_mem_cons.mp hdigits
    have hnext : (value : Int) * 10 + digitValue c = ((10 * value + (c.toNat - '0'.toNat) : Nat) : Int) := by
      rw [digitValue]
      push_cast
      ring
    rw [readPositive, if_neg (by simp [hc]), Nat.ofDigitChars_cons, hnext]
    split
    · next hover =>
      have hle := le_ofDigitChars rest (10 * value + (c.toNat - '0'.toNat))
      rw [if_neg (by omega)]
    · next hfits => exact ih hrest (not_lt.mp hfits)

/-- A word of digits denotes its number when that is in range, and overflows otherwise. -/
theorem parseInt_digits {range : IntRange} (hrange : 0 ≤ range.greatest) {digits : List Char}
    (hne : digits ≠ []) (hdigits : ∀ c ∈ digits, c.isDigit = true) :
    parseInt range digits =
      if (numeral digits : Int) ≤ range.greatest then .ok (numeral digits : Int) else .error .posOverflow := by
  have hread : parseInt range digits = readPositive range digits 0 := by
    unfold parseInt
    split
    · exact absurd rfl hne
    · exact absurd (hdigits '+' (by simp)) (by decide)
    · exact absurd (hdigits '-' (by simp)) (by decide)
    · exact absurd (hdigits '+' (by simp)) (by decide)
    · exact absurd (hdigits '-' (by simp)) (by decide)
    · rfl
  have hzero : ((0 : Nat) : Int) ≤ range.greatest := hrange
  rw [hread]
  exact readPositive_digits hdigits hzero

/-- The digits of a number in range denote it. -/
theorem parseInt_toDigits {range : IntRange} {n : Nat} (hn : (n : Int) ≤ range.greatest) :
    parseInt range (Nat.toDigits 10 n) = .ok n := by
  rw [parseInt_digits (by omega) Nat.toDigits_ne_nil fun c hc => isDigit_of_mem hc, numeral_toDigits, if_pos hn]

end Lexemes
