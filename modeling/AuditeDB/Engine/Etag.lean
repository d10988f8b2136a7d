import Mathlib
import AuditeDB.Types
import AuditeDB.Library.Results

/-!
# Entity tags and preconditions

The tag of a representation names the newest HMAC of a durable world or the digest of a body in memory. A
conditional call compares the tags it was given with the current one.
-/

namespace AuditeDB

open Results

/-- `hmac_etag`. -/
def hmacEtag (hmac : String) : String := "hmac-" ++ hmac

/-- `body_etag`. -/
def bodyEtag [HashSuite] (body : Bytes) : String := "sha256-" ++ sha256Hex body

/-- Tags of different HMACs differ. -/
theorem hmacEtag_injective : Function.Injective hmacEtag := by
  intro a b h
  have htexts := congrArg String.toList h
  simp only [hmacEtag, String.toList_append, List.append_cancel_left_eq] at htexts
  exact String.toList_inj.mp htexts

/-- `EtagMatcher`. -/
inductive EtagMatcher where
  | any
  | strong (value : String)
  | weak (value : String)
  | invalid
deriving DecidableEq

/-- `EtagMatcher::strong_matches`. -/
def EtagMatcher.strongMatches (current : String) : EtagMatcher → Bool
  | any => true
  | strong value => value = current
  | weak _ | invalid => false

/-- `EtagMatcher::weak_matches`. -/
def EtagMatcher.weakMatches (current : String) : EtagMatcher → Bool
  | any => true
  | strong value | weak value => value = current
  | invalid => false

/-- `Preconditions`. -/
structure Preconditions where
  ifMatch : List EtagMatcher
  ifNoneMatch : List EtagMatcher
deriving DecidableEq

/-- `Preconditions::is_empty`. -/
def Preconditions.isEmpty (preconditions : Preconditions) : Bool :=
  preconditions.ifMatch.isEmpty && preconditions.ifNoneMatch.isEmpty

/-- The part of `check_preconditions` about `If-Match`. -/
def checkIfMatch (ifMatch : List EtagMatcher) (currentTag : Option String) : Except String Unit :=
  if ifMatch.isEmpty then pure ()
  else do
    let tag ← requireSome "If-Match requires an existing world" currentTag
    rejectIf (!ifMatch.any (EtagMatcher.strongMatches tag)) "If-Match did not match current ETag"

/-- `check_preconditions`. -/
def checkPreconditions (preconditions : Preconditions) (currentTag : Option String) : Except String Unit := do
  checkIfMatch preconditions.ifMatch currentTag
  rejectIf (currentTag.any fun tag => preconditions.ifNoneMatch.any (EtagMatcher.weakMatches tag))
    "If-None-Match matched current ETag"

/-- The tag that a call with a single strong `If-Match` requires. -/
def Preconditions.requiredTag (preconditions : Preconditions) : Option String :=
  match preconditions.ifMatch with
  | [.strong tag] => some tag
  | _ => none

/-- A call that requires a tag passes its check only when the tag is the current one. -/
theorem currentTag_of_requiredTag {preconditions : Preconditions} {tag : String} {currentTag : Option String}
    (hrequired : preconditions.requiredTag = some tag)
    (hcheck : checkPreconditions preconditions currentTag = .ok ()) : currentTag = some tag := by
  unfold Preconditions.requiredTag at hrequired
  split at hrequired
  · next value hmatch =>
    cases hrequired
    unfold checkPreconditions checkIfMatch at hcheck
    obtain ⟨_, hfirst, -⟩ := bind_eq_ok.mp hcheck
    rw [hmatch, if_neg (by simp)] at hfirst
    obtain ⟨current, hcurrent, hmatches⟩ := bind_eq_ok.mp hfirst
    rw [requireSome_eq_ok] at hcurrent
    rw [rejectIf_eq_ok] at hmatches
    have htag : tag = current := by simpa [EtagMatcher.strongMatches] using hmatches
    rw [hcurrent, htag]
  · cases hrequired

/-- What the documentation of `EtagMatcher` and `Preconditions` says: a call proceeds when some `If-Match` matcher
matches and no `If-None-Match` matcher does, where `Invalid` never matches in the first list and always in the
second. -/
structure Preconditions.Met (preconditions : Preconditions) (currentTag : Option String) : Prop where
  ifMatch : preconditions.ifMatch = [] ∨
    ∃ tag ∈ currentTag, .any ∈ preconditions.ifMatch ∨ .strong tag ∈ preconditions.ifMatch
  ifNoneMatch : ∀ tag ∈ currentTag, .any ∉ preconditions.ifNoneMatch ∧ .invalid ∉ preconditions.ifNoneMatch ∧
    .strong tag ∉ preconditions.ifNoneMatch ∧ .weak tag ∉ preconditions.ifNoneMatch

/-- Some matcher matches strongly when it is a wildcard or the strong tag. -/
theorem any_strongMatches (matchers : List EtagMatcher) (tag : String) :
    matchers.any (EtagMatcher.strongMatches tag) = true ↔ .any ∈ matchers ∨ .strong tag ∈ matchers := by
  rw [List.any_eq_true]
  constructor
  · rintro ⟨matcher, hmem, hmatch⟩
    cases matcher with
    | any => exact .inl hmem
    | strong value =>
      obtain rfl : value = tag := by simpa [EtagMatcher.strongMatches] using hmatch
      exact .inr hmem
    | weak value => cases hmatch
    | invalid => cases hmatch
  · rintro (hmem | hmem)
    · exact ⟨_, hmem, rfl⟩
    · exact ⟨_, hmem, by simp [EtagMatcher.strongMatches]⟩

/-- Some matcher matches weakly when it is a wildcard or the tag in either form. -/
theorem any_weakMatches (matchers : List EtagMatcher) (tag : String) :
    matchers.any (EtagMatcher.weakMatches tag) = true ↔
      .any ∈ matchers ∨ .strong tag ∈ matchers ∨ .weak tag ∈ matchers := by
  rw [List.any_eq_true]
  constructor
  · rintro ⟨matcher, hmem, hmatch⟩
    cases matcher with
    | any => exact .inl hmem
    | strong value =>
      obtain rfl : value = tag := by simpa [EtagMatcher.weakMatches] using hmatch
      exact .inr (.inl hmem)
    | weak value =>
      obtain rfl : value = tag := by simpa [EtagMatcher.weakMatches] using hmatch
      exact .inr (.inr hmem)
    | invalid => cases hmatch
  · rintro (hmem | hmem | hmem)
    · exact ⟨_, hmem, rfl⟩
    · exact ⟨_, hmem, by simp [EtagMatcher.weakMatches]⟩
    · exact ⟨_, hmem, by simp [EtagMatcher.weakMatches]⟩

/-- The part about `If-Match` is as documented. -/
theorem checkIfMatch_eq_ok {ifMatch : List EtagMatcher} {currentTag : Option String} :
    checkIfMatch ifMatch currentTag = .ok () ↔
      ifMatch = [] ∨ ∃ tag ∈ currentTag, .any ∈ ifMatch ∨ .strong tag ∈ ifMatch := by
  unfold checkIfMatch
  split
  · next hempty => simp [List.isEmpty_iff.mp hempty, pure, Except.pure]
  · next hempty =>
    have hne : ifMatch ≠ [] := fun hnil => hempty (by simp [hnil])
    simp only [bind_eq_ok, requireSome_eq_ok, rejectIf_eq_ok, Bool.not_eq_true', Bool.not_eq_false,
      any_strongMatches, hne, false_or, Option.mem_def]

/-- `check_preconditions` lets a call pass when no other matcher than `Invalid` stands against it. -/
theorem checkPreconditions_eq_ok {preconditions : Preconditions} {currentTag : Option String} :
    checkPreconditions preconditions currentTag = .ok () ↔
      (preconditions.ifMatch = [] ∨
        ∃ tag ∈ currentTag, .any ∈ preconditions.ifMatch ∨ .strong tag ∈ preconditions.ifMatch) ∧
      ∀ tag ∈ currentTag, .any ∉ preconditions.ifNoneMatch ∧ .strong tag ∉ preconditions.ifNoneMatch ∧
        .weak tag ∉ preconditions.ifNoneMatch := by
  have hnone : (¬ currentTag.any (fun tag => preconditions.ifNoneMatch.any (EtagMatcher.weakMatches tag)) = true) ↔
      ∀ tag ∈ currentTag, .any ∉ preconditions.ifNoneMatch ∧ .strong tag ∉ preconditions.ifNoneMatch ∧
        .weak tag ∉ preconditions.ifNoneMatch := by
    cases currentTag with
    | none => simp
    | some tag => simp only [Option.any_some, any_weakMatches, not_or, Option.mem_def, Option.some.injEq,
        forall_eq']
  simp only [checkPreconditions, bind_eq_ok, rejectIf_eq_ok, hnone, ← checkIfMatch_eq_ok]
  constructor
  · rintro ⟨_, hmatch, hpass⟩
    exact ⟨hmatch, hpass⟩
  · rintro ⟨hmatch, hpass⟩
    exact ⟨(), hmatch, hpass⟩

/-- An `If-None-Match` list with an unreadable member, on an existing world that no other matcher stands against. -/
structure Preconditions.OnlyUnreadable (preconditions : Preconditions) (currentTag : Option String) : Prop where
  invalid : .invalid ∈ preconditions.ifNoneMatch
  ifMatch : preconditions.ifMatch = [] ∨
    ∃ tag ∈ currentTag, .any ∈ preconditions.ifMatch ∨ .strong tag ∈ preconditions.ifMatch
  exists_tag : ∃ tag ∈ currentTag, .any ∉ preconditions.ifNoneMatch ∧ .strong tag ∉ preconditions.ifNoneMatch ∧
    .weak tag ∉ preconditions.ifNoneMatch

/-- `check_preconditions` is as documented unless an unreadable `If-None-Match` member is all that stands against
the call. -/
theorem checkPreconditions_met_iff (preconditions : Preconditions) (currentTag : Option String) :
    (checkPreconditions preconditions currentTag = .ok () ↔ preconditions.Met currentTag) ↔
      ¬ preconditions.OnlyUnreadable currentTag := by
  rw [checkPreconditions_eq_ok]
  constructor
  · rintro hiff ⟨hinvalid, hmatch, tag, htag, hnone⟩
    obtain ⟨-, hmet⟩ := hiff.mp ⟨hmatch, fun other hother => Option.mem_unique htag hother ▸ hnone⟩
    exact (hmet tag htag).2.1 hinvalid
  · intro hreadable
    constructor
    · rintro ⟨hmatch, hnone⟩
      refine ⟨hmatch, fun tag htag => ?_⟩
      obtain ⟨hany, hstrong, hweak⟩ := hnone tag htag
      exact ⟨hany, fun hinvalid => hreadable ⟨hinvalid, hmatch, tag, htag, hany, hstrong, hweak⟩, hstrong, hweak⟩
    · rintro ⟨hmatch, hnone⟩
      exact ⟨hmatch, fun tag htag => ⟨(hnone tag htag).1, (hnone tag htag).2.2⟩⟩

/-- An unreadable `If-None-Match` member does not reject a write to an existing world. -/
theorem ifNoneMatch_invalid_passes :
    checkPreconditions ⟨[], [.invalid]⟩ (some "hmac-0") = .ok () ∧
      ¬ Preconditions.Met ⟨[], [.invalid]⟩ (some "hmac-0") := by
  refine ⟨rfl, fun hmet => ?_⟩
  exact (hmet.ifNoneMatch "hmac-0" rfl).2.1 (List.mem_singleton.mpr rfl)

end AuditeDB
