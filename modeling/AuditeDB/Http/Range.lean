import Mathlib
import AuditeDB.Library.Lexemes
import AuditeDB.Http.Preconditions

/-!
# Byte ranges

The range of bytes that a `Range` field selects from a body. Positions are read as machine integers, so a numeral
above the machine word is an error before it is compared with the length of the body. For a last position and for a
suffix length that is where the result differs from the one over unbounded numbers.
-/

namespace AuditeDB

open Utf8 Results ListFields Lexemes

/-- `header::RANGE`. -/
def rangeField : HeaderName := .other "range"

/-- `header::IF_RANGE`. -/
def ifRangeField : HeaderName := .other "if-range"

/-- The first line of a field as a text. -/
def HeaderMap.text (headers : HeaderMap) (name : HeaderName) : Option String :=
  (headers.get name).bind HeaderValue.toStr

/-- `str::parse::<usize>`. -/
def parseUsize (word : List Char) : Except IntErrorKind Nat := (parseInt usizeRange word).map Int.toNat

/-- The last position of a range that starts within the body. -/
def lastPosition (right : List Char) (len : Nat) : Except Unit Nat :=
  if right = [] then .ok (len - 1) else (parseUsize right).mapError fun _ => ()

/-- The part of `parse_range` behind the split at the dash. -/
def selectRange (left right : List Char) (len : Nat) : Except Unit (Option (Nat × Nat)) := do
  rejectIf (len = 0) ()
  if left = [] then do
    let suffix ← (parseUsize right).mapError fun _ => ()
    rejectIf (suffix = 0) ()
    let take := min suffix len
    return some (len - take, len - 1)
  else do
    let start ← (parseUsize left).mapError fun _ => ()
    rejectIf (len ≤ start) ()
    let stop ← lastPosition right len
    rejectIf (stop < start) ()
    return some (start, min stop (len - 1))

/-- `parse_range`: no range, a range with both ends included, or an unsatisfiable request. -/
def parseRange (headers : HeaderMap) (len : Nat) : Except Unit (Option (Nat × Nat)) :=
  match headers.text rangeField with
  | none => .ok none
  | some raw => do
    let spec ← requireSome () ((trim isWhitespace raw.toList).dropPrefix? "bytes=".toList)
    if ',' ∈ spec then return none
    let parts ← requireSome () (splitOnce '-' spec)
    selectRange parts.1 parts.2 len

/-- `if_range_strong_matches`. -/
def ifRangeStrongMatches (headerValue current : String) : Bool :=
  trim isWhitespace headerValue.toList = '"' :: (current.toList ++ ['"'])

/-- `effective_range`: the range of a request whose `If-Range` names the current tag. -/
def effectiveRange (headers : HeaderMap) (len : Nat) (currentEtag : String) : Except Unit (Option (Nat × Nat)) :=
  match headers.text ifRangeField with
  | some ifRange => if ifRangeStrongMatches ifRange currentEtag then parseRange headers len else .ok none
  | none => parseRange headers len

/-- A nonempty word of decimal digits. -/
structure IsNumeral (word : List Char) : Prop where
  nonempty : word ≠ []
  digits : ∀ c ∈ word, c.isDigit = true

/-- The text of a range with the given numerals around its dash. -/
def rangeText (left right : List Char) : String := String.ofList ("bytes=".toList ++ (left ++ '-' :: right))

/-- A numeral is read exactly when it fits the machine word. -/
theorem parseUsize_numeral {word : List Char} (hword : IsNumeral word) :
    parseUsize word = if numeral word ≤ usizeMax then .ok (numeral word) else .error .posOverflow := by
  rw [parseUsize, parseInt_digits (by decide) hword.nonempty hword.digits]
  change Except.map Int.toNat (if (numeral word : Int) ≤ (usizeMax : Int) then _ else _) = _
  simp only [Nat.cast_le]
  split <;> rfl

/-- The parts around the dash are what the rest of `parse_range` sees. -/
theorem parseRange_rangeText {headers : HeaderMap} {left right : List Char}
    (hleft : ∀ c ∈ left, c.isDigit = true) (hright : ∀ c ∈ right, c.isDigit = true)
    (htext : headers.text rangeField = some (rangeText left right)) (len : Nat) :
    parseRange headers len = selectRange left right len := by
  have hblank : ∀ c : Char, c.isDigit = true → isWhitespace c = false := by
    intro c hc
    have hall : ∀ n < 58, 48 ≤ n → isWhitespace (Char.ofNat n) = false := by decide +kernel
    simp only [Char.isDigit, Bool.and_eq_true, decide_eq_true_eq] at hc
    have hspace := hall c.toNat (Nat.lt_succ_of_le hc.2) hc.1
    rwa [Char.ofNat_toNat] at hspace
  have htrim : trim isWhitespace (rangeText left right).toList = "bytes=".toList ++ (left ++ '-' :: right) := by
    rw [show (rangeText left right).toList = "bytes=".toList ++ (left ++ '-' :: right) from String.toList_ofList]
    refine trim_eq_self (fun c hc => ?_) fun c hc => ?_
    · have hunit : "bytes=".toList = ['b', 'y', 't', 'e', 's', '='] := rfl
      rw [hunit, List.cons_append, List.head?_cons, Option.mem_some_iff] at hc
      subst hc
      decide
    · have hlast : c ∈ ('-' :: right).getLast? := by
        rwa [← List.append_assoc, List.getLast?_append_of_ne_nil _ (List.cons_ne_nil _ _)] at hc
      rcases List.mem_cons.mp (List.mem_of_getLast? hlast) with rfl | hc
      · decide
      · exact hblank c (hright c hc)
  have hspec : ("bytes=".toList ++ (left ++ '-' :: right)).dropPrefix? "bytes=".toList =
      some (left ++ '-' :: right) :=
    List.dropPrefix?_eq_some_iff.mpr ⟨_, rfl, beq_self_eq_true _⟩
  have hcomma : ',' ∉ left ++ '-' :: right := by
    rw [List.mem_append, List.mem_cons]
    rintro (h | h | h)
    · exact absurd (hleft _ h) (by decide)
    · exact absurd h (by decide)
    · exact absurd (hright _ h) (by decide)
  have hparts : splitOnce '-' (left ++ '-' :: right) = some (left, right) :=
    splitOnce_eq_some.mpr ⟨rfl, fun h => absurd (hleft _ h) (by decide)⟩
  simp only [parseRange, htext, htrim, hspec, requireSome, ok_bind, if_neg hcomma, hparts]

/-- The range between two positions over unbounded numbers. -/
def boundedRange (first last len : Nat) : Except Unit (Option (Nat × Nat)) :=
  if first < len then .ok (some (first, min last (len - 1))) else .error ()

/-- The range from a position to the end. -/
def openRange (first len : Nat) : Except Unit (Option (Nat × Nat)) :=
  if first < len then .ok (some (first, len - 1)) else .error ()

/-- The last bytes of a body. -/
def suffixRange (count len : Nat) : Except Unit (Option (Nat × Nat)) := .ok (some (len - min count len, len - 1))

/-- A first position is read exactly when it can lie within a body, whose length is a `usize`. -/
theorem selectRange_of_numeral {left right : List Char} (hleft : IsNumeral left) {len : Nat}
    (hlen : len ≤ usizeMax) :
    selectRange left right len =
      if numeral left < len then do
        let stop ← lastPosition right len
        rejectIf (stop < numeral left) ()
        return some (numeral left, min stop (len - 1))
      else .error () := by
  rw [selectRange, if_neg hleft.nonempty, parseUsize_numeral hleft]
  by_cases hinside : numeral left < len
  · rw [if_pos hinside, if_pos (by omega)]
    simp only [rejectIf, show ¬ len = 0 by omega, if_false, ok_bind, Except.mapError, if_neg (not_le.mpr hinside)]
  · rw [if_neg hinside]
    rcases Nat.eq_zero_or_pos len with rfl | hpos
    · rfl
    · have hfails : (do
          let start ← Except.mapError (fun _ => ())
            (if numeral left ≤ usizeMax then .ok (numeral left) else .error IntErrorKind.posOverflow)
          rejectIf (len ≤ start) ()
          let stop ← lastPosition right len
          rejectIf (stop < start) ()
          return some (start, min stop (len - 1)) : Except Unit (Option (Nat × Nat))) = .error () := by
        split
        · simp only [Except.mapError, ok_bind, rejectIf, if_pos (not_lt.mp hinside)]
          rfl
        · rfl
      simp only [rejectIf, Nat.pos_iff_ne_zero.mp hpos, if_false, ok_bind]
      exact hfails

/-- An open range is selected as over unbounded numbers. -/
theorem selectRange_open {left : List Char} (hleft : IsNumeral left) {len : Nat} (hlen : len ≤ usizeMax) :
    selectRange left [] len = openRange (numeral left) len := by
  rw [selectRange_of_numeral hleft hlen, openRange]
  split
  · next hinside =>
    have hstop : ¬ len - 1 < numeral left := by omega
    simp only [lastPosition, if_true, ok_bind, rejectIf, if_neg hstop, min_self]
    rfl
  · rfl

/-- A range between two positions is selected as over unbounded numbers exactly when its last position is a `usize`
or its first position is not in the body. -/
theorem selectRange_bounded {left right : List Char} (hleft : IsNumeral left) (hright : IsNumeral right)
    (hle : numeral left ≤ numeral right) {len : Nat} (hlen : len ≤ usizeMax) :
    selectRange left right len = boundedRange (numeral left) (numeral right) len ↔
      numeral right ≤ usizeMax ∨ len ≤ numeral left := by
  rw [selectRange_of_numeral hleft hlen, boundedRange]
  by_cases hinside : numeral left < len
  · rw [if_pos hinside, if_pos hinside, lastPosition, if_neg hright.nonempty, parseUsize_numeral hright]
    split
    · next hfits =>
      simp only [Except.mapError, ok_bind, rejectIf, if_neg (not_lt.mpr hle), hfits, true_or, iff_true]
      rfl
    · next hover =>
      refine iff_of_false (fun h => ?_) (by omega)
      cases h
  · simp only [if_neg hinside, true_iff]
    exact .inr (not_lt.mp hinside)

/-- A suffix is selected as over unbounded numbers exactly when its length is a `usize`. -/
theorem selectRange_suffix {right : List Char} (hright : IsNumeral right) (hpos : 0 < numeral right) {len : Nat}
    (hlen : 0 < len) :
    selectRange [] right len = suffixRange (numeral right) len ↔ numeral right ≤ usizeMax := by
  simp only [selectRange, rejectIf, Nat.pos_iff_ne_zero.mp hlen, if_false, ok_bind, if_true,
    parseUsize_numeral hright]
  split
  · next hfits =>
    simp only [Except.mapError, ok_bind, Nat.pos_iff_ne_zero.mp hpos, if_false, hfits, iff_true]
    rfl
  · next hover =>
    refine iff_of_false (fun h => ?_) hover
    cases h

/-- A selected range lies within the body. -/
theorem selectRange_inside {left right : List Char} {len first last : Nat}
    (h : selectRange left right len = .ok (some (first, last))) : first ≤ last ∧ last < len := by
  simp only [selectRange, bind_eq_ok, rejectIf_eq_ok] at h
  obtain ⟨-, hlen, h⟩ := h
  split at h
  · simp only [bind_eq_ok, rejectIf_eq_ok, pure_eq_ok, Option.some.injEq, Prod.mk.injEq] at h
    obtain ⟨suffix, -, -, hsuffix, rfl, rfl⟩ := h
    omega
  · simp only [bind_eq_ok, rejectIf_eq_ok, pure_eq_ok, Option.some.injEq, Prod.mk.injEq] at h
    obtain ⟨start, -, -, hstart, stop, -, -, hstop, rfl, rfl⟩ := h
    omega

/-- A returned range lies within the body, for every field whatsoever. -/
theorem parseRange_inside {headers : HeaderMap} {len first last : Nat}
    (h : parseRange headers len = .ok (some (first, last))) : first ≤ last ∧ last < len := by
  unfold parseRange at h
  split at h
  · cases h
  · obtain ⟨spec, -, h⟩ := bind_eq_ok.mp h
    split at h
    · cases h
    · obtain ⟨parts, -, h⟩ := bind_eq_ok.mp h
      exact selectRange_inside h

/-- Byte ranges against their meaning over unbounded numbers: an open range always agrees, a range between two
positions agrees exactly when its last position is a `usize` or its first position is not in the body, a suffix
agrees exactly when its length is a `usize`, and every returned range lies within the body. -/
theorem parseRange_unbounded {len : Nat} (hlen : len ≤ usizeMax) (headers : HeaderMap) :
    (∀ a b, IsNumeral a → IsNumeral b → numeral a ≤ numeral b → headers.text rangeField = some (rangeText a b) →
      (parseRange headers len = boundedRange (numeral a) (numeral b) len ↔
        numeral b ≤ usizeMax ∨ len ≤ numeral a)) ∧
    (∀ a, IsNumeral a → headers.text rangeField = some (rangeText a []) →
      parseRange headers len = openRange (numeral a) len) ∧
    (∀ n, IsNumeral n → 0 < numeral n → 0 < len → headers.text rangeField = some (rangeText [] n) →
      (parseRange headers len = suffixRange (numeral n) len ↔ numeral n ≤ usizeMax)) ∧
    ∀ first last, parseRange headers len = .ok (some (first, last)) → first ≤ last ∧ last < len := by
  refine ⟨fun a b ha hb hle htext => ?_, fun a ha htext => ?_, fun n hn hpos hbody htext => ?_, fun _ _ h => ?_⟩
  · rw [parseRange_rangeText ha.digits hb.digits htext]
    exact selectRange_bounded ha hb hle hlen
  · rw [parseRange_rangeText ha.digits (by simp) htext]
    exact selectRange_open ha hlen
  · rw [parseRange_rangeText (by simp) hn.digits htext]
    exact selectRange_suffix hn hpos hbody
  · exact parseRange_inside h

/-- A request with one `Range` line. -/
def Sample.ranged (bytes : Bytes) (hallowed : bytes.all isHeaderByte = true) : HeaderMap :=
  [(rangeField, ⟨bytes, hallowed⟩)]

/-- The suffix of a body of ten bytes that is as long as the greatest `usize`. -/
theorem parseRange_unbounded_suffix :
    parseRange (Sample.ranged (utf8Bytes "bytes=-18446744073709551615") (by decide +kernel)) 10 =
      .ok (some (0, 9)) := by
  have hnumeral : IsNumeral "18446744073709551615".toList :=
    ⟨by decide, List.all_eq_true.mp (by decide +kernel)⟩
  have hcases := parseRange_unbounded (show 10 ≤ usizeMax by decide)
    (Sample.ranged (utf8Bytes "bytes=-18446744073709551615") (by decide +kernel))
  exact (hcases.2.2.1 _ hnumeral (by decide +kernel) (by decide) (by decide +kernel)).mpr (by decide +kernel)

/-- A last position above the machine word makes a range unsatisfiable, although its bytes exist. -/
theorem parseRange_overflow :
    parseRange (Sample.ranged (utf8Bytes "bytes=0-18446744073709551616") (by decide +kernel)) 10 = .error () ∧
      boundedRange 0 18446744073709551616 10 = .ok (some (0, 9)) ∧
      parseRange (Sample.ranged (utf8Bytes "bytes=-18446744073709551616") (by decide +kernel)) 10 = .error () ∧
      suffixRange 18446744073709551616 10 = .ok (some (0, 9)) := by
  decide +kernel

end AuditeDB
