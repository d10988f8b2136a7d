import Mathlib
import AuditeDB.Audit.DeleteSubject
import AuditeDB.Tools.ChainVerify
import AuditeDB.WorldPath

/-!
# The texts that the independent verifier accepts

The tool tests texts character by character with the operations of Python, the engine byte by byte. Hexadecimal
digests, labels, reserved header names and world names come out the same. A sequence number has no upper bound in the
tool, and a timestamp may have digits outside of ASCII.
-/

namespace AuditeDB

open Utf8 Results

namespace ChainVerify

variable {py : Python}

/-- An ASCII character satisfies what all of them do. -/
theorem forall_ascii {p : Char → Prop} (h : ∀ n < 128, p (Char.ofNat n)) {c : Char} (hc : c.val ≤ 127) : p c := by
  have hc' : c.toNat < 128 := Nat.lt_succ_of_le hc
  simpa only [Char.ofNat_toNat] using h c.toNat hc'

/-- The bytes of an ASCII text are its code points. -/
theorem utf8Bytes_ascii {text : String} (h : ∀ c ∈ text.toList, c.val ≤ 127) :
    utf8Bytes text = text.toList.map fun c => c.val.toUInt8 := by
  rw [← utf8Bytes_ofList_ascii h, String.ofList_toList]

/-- Both verifiers recognise the same hexadecimal texts. -/
theorem isLowerHex_eq (value : String) (length : Nat) : isLowerHex value length = isLowerHexLen value length := by
  have hdigits : ∀ c ∈ "0123456789abcdef".toList, c.val ≤ 127 := by
    simp
  have hbyte : ∀ c : Char, c.val ≤ 127 → "0123456789abcdef".toList.contains c = isLowerHexByte c.val.toUInt8 :=
    fun c => forall_ascii (p := fun c => "0123456789abcdef".toList.contains c = isLowerHexByte c.val.toUInt8)
      (by decide +kernel)
  have hascii : isLowerHex value length = true ∨ isLowerHexLen value length = true →
      ∀ c ∈ value.toList, c.val ≤ 127 := by
    rintro (h | h) c hc
    · exact hdigits c (List.contains_iff_mem.mp (List.all_eq_true.mp (Bool.and_eq_true_iff.mp h).2 c hc))
    · exact (forall_toList_of_forall_bytes (by decide +kernel) (Bool.and_eq_true_iff.mp h).2 c hc).1
  have hsame : (∀ c ∈ value.toList, c.val ≤ 127) → isLowerHex value length = isLowerHexLen value length := by
    intro h
    rw [isLowerHex, isLowerHexLen, utf8Bytes_ascii h, List.length_map, List.all_map, Bool.beq_eq_decide_eq]
    congr 1
    rw [Bool.eq_iff_iff, List.all_eq_true, List.all_eq_true]
    exact forall₂_congr fun c hc => by rw [Function.comp, hbyte c (h c hc)]
  cases htool : isLowerHex value length with
  | true => rw [← htool, hsame (hascii (.inl htool))]
  | false =>
    cases hengine : isLowerHexLen value length with
    | true => rw [← hengine, ← hsame (hascii (.inr hengine)), htool]
    | false => rfl

/-- Both verifiers measure names in the same way. -/
theorem diskWorldNameLen_eq (value : String) : diskWorldNameLen value = AuditeDB.diskWorldNameLen value := by
  have hbyte : ∀ n < 256, (diskEncodeBytes.contains (UInt8.ofNat n) || decide (0x7F ≤ UInt8.ofNat n)) =
      shouldDiskEncode (UInt8.ofNat n) := by decide +kernel
  unfold diskWorldNameLen AuditeDB.diskWorldNameLen
  congr 1
  refine List.map_congr_left fun byte _ => ?_
  have hencode := hbyte byte.toNat byte.toNat_lt
  rw [UInt8.ofNat_toNat] at hencode
  rw [hencode]

/-- A lower case that starts with a letter other than the two exceptions comes from an ASCII character. -/
theorem lowerFrom_cons {before rest tail : List Char} {c d : Char} (hd : d.val ≤ 127) (hk : d ≠ 'k') (hi : d ≠ 'i') :
    py.lowerFrom before (c :: rest) = d :: tail ↔
      c.val ≤ 127 ∧ c.toLower = d ∧ py.lowerFrom (before ++ [c]) rest = tail := by
  rw [Python.lowerFrom]
  split
  · next hc => simp [hc]
  · next hc =>
    obtain ⟨e, others, hlower, hcase⟩ := py.lowerOther_eq before c rest (UInt32.not_le.mp hc)
    have hne : e ≠ d := by
      rintro rfl
      rcases hcase with he | ⟨rfl, -⟩ | ⟨rfl, -⟩
      · exact absurd hd (UInt32.not_le.mpr he)
      · exact hk rfl
      · exact hi rfl
    simp [hlower, hne, hc]

/-- The ASCII lower case leaves other characters alone. -/
theorem toLower_eq_self {c : Char} (hc : ¬ c.val ≤ 127) : c.toLower = c := by
  unfold Char.toLower
  rw [dif_neg]
  exact fun h => hc (UInt32.le_trans h.2 (by decide))

/-- A lower case starts with a stem exactly when the ASCII lower case does. -/
theorem isPrefixOf_lowerFrom {stem : List Char} (hstem : ∀ d ∈ stem, d.val ≤ 127 ∧ d ≠ 'k')
    (hlast : stem.getLast? ≠ some 'i') (before text : List Char) :
    stem.isPrefixOf (py.lowerFrom before text) = stem.isPrefixOf (text.map Char.toLower) := by
  induction text generalizing stem before with
  | nil => rfl
  | cons c rest ih =>
    cases stem with
    | nil => rfl
    | cons d stem =>
      obtain ⟨hd, hk⟩ := hstem d (List.mem_cons_self ..)
      rw [Python.lowerFrom, List.map_cons]
      split
      · have hrest : stem.getLast? ≠ some 'i' := by
          cases stem with
          | nil => simp
          | cons e stem => rwa [List.getLast?_cons_cons] at hlast
        rw [List.singleton_append, List.isPrefixOf_cons_cons, List.isPrefixOf_cons_cons,
          ih (fun e he => hstem e (List.mem_cons_of_mem _ he)) hrest]
      · next hc =>
        -- Neither the character nor its lower case continues the stem.
        obtain ⟨e, others, hlower, hcase⟩ := py.lowerOther_eq before c rest (UInt32.not_le.mp hc)
        have hright : d ≠ c := by
          rintro rfl
          exact hc hd
        rw [toLower_eq_self hc, hlower, List.cons_append, List.isPrefixOf_cons_cons, List.isPrefixOf_cons_cons,
          beq_eq_false_iff_ne.mpr hright, Bool.false_and]
        rcases hcase with he | ⟨rfl, -⟩ | ⟨rfl, rfl⟩
        · have hne : d ≠ e := by
            rintro rfl
            exact UInt32.not_le.mpr he hd
          rw [beq_eq_false_iff_ne.mpr hne, Bool.false_and]
        · rw [beq_eq_false_iff_ne.mpr hk, Bool.false_and]
        · cases stem with
          | nil =>
            have hne : d ≠ 'i' := by
              rintro rfl
              exact hlast rfl
            rw [beq_eq_false_iff_ne.mpr hne, Bool.false_and]
          | cons e stem =>
            have hne : e ≠ Char.ofNat 0x307 := by
              rintro rfl
              exact absurd (hstem _ (List.mem_cons_of_mem _ (List.mem_cons_self ..))).1 (by decide)
            rw [List.cons_append, List.isPrefixOf_cons_cons, beq_eq_false_iff_ne.mpr hne, Bool.false_and,
              Bool.and_false]

/-- Both verifiers recognise the same reserved header names. -/
theorem isSubjectHeader_eq (name : String) : isSubjectHeader py name = isReservedAuditHeader name := by
  have hstem : ∀ d ∈ deleteSubjectReserved.toList, d.val ≤ 127 ∧ d ≠ 'k' := by simp [deleteSubjectReserved]
  have hlast : deleteSubjectReserved.toList.getLast? ≠ some 'i' := by simp [deleteSubjectReserved]
  have hlower : (String.ofList (name.toList.map Char.toLower)).toList = name.toList.map Char.toLower :=
    String.toList_ofList
  rw [isSubjectHeader, Python.lower, isPrefixOf_lowerFrom hstem hlast, isReservedAuditHeader, startsWith,
    toAsciiLowercase, hlower]

/-- Both verifiers strip the same tokens. -/
theorem stripDotToken_eq (segment : List Char) : stripDotToken py segment = AuditeDB.stripDotToken segment := by
  have hpercent : ∀ c : Char, c.val ≤ 127 → (c.toLower = '%' ↔ c = '%') := fun c =>
    forall_ascii (p := fun c => c.toLower = '%' ↔ c = '%') (by decide +kernel)
  have htwo : ∀ c : Char, c.val ≤ 127 → (c.toLower = '2' ↔ c = '2') := fun c =>
    forall_ascii (p := fun c => c.toLower = '2' ↔ c = '2') (by decide +kernel)
  have he : ∀ c : Char, c.val ≤ 127 → (c.toLower = 'e' ↔ c = 'e' ∨ c = 'E') := fun c =>
    forall_ascii (p := fun c => c.toLower = 'e' ↔ c = 'e' ∨ c = 'E') (by decide +kernel)
  have hlower : ∀ c d e : Char, py.lower [c, d, e] = ['%', '2', 'e'] ↔ c = '%' ∧ d = '2' ∧ (e = 'e' ∨ e = 'E') := by
    intro c d e
    rw [Python.lower, lowerFrom_cons (by decide) (by decide) (by decide),
      lowerFrom_cons (by decide) (by decide) (by decide), lowerFrom_cons (by decide) (by decide) (by decide)]
    constructor
    · rintro ⟨hc, hc', hd, hd', hascii, he', -⟩
      exact ⟨(hpercent c hc).mp hc', (htwo d hd).mp hd', (he e hascii).mp he'⟩
    · rintro ⟨rfl, rfl, rfl | rfl⟩ <;> exact ⟨by decide, by decide, by decide, by decide, by decide, by decide, rfl⟩
  unfold AuditeDB.stripDotToken
  split
  · rfl
  · next rest => simp [stripDotToken, (hlower '%' '2' 'e').mpr ⟨rfl, rfl, .inl rfl⟩]
  · next rest => simp [stripDotToken, (hlower '%' '2' 'E').mpr ⟨rfl, rfl, .inr rfl⟩]
  · next hdot hsmall hlarge =>
    rw [stripDotToken, if_neg, if_neg]
    · intro h
      obtain ⟨hlength, htoken⟩ := Bool.and_eq_true_iff.mp h
      match segment, of_decide_eq_true hlength with
      | c :: d :: e :: rest, _ =>
        obtain ⟨rfl, rfl, rfl | rfl⟩ := (hlower c d e).mp (beq_iff_eq.mp htoken)
        · exact hsmall rest rfl
        · exact hlarge rest rfl
    · intro h
      obtain ⟨rest, rfl⟩ := List.isPrefixOf_iff_prefix.mp h
      exact hdot rest rfl

/-- Both verifiers recognise the same dot segments. -/
theorem isDotSegment_eq (segment : List Char) : isDotSegment py segment = AuditeDB.isDotSegment segment := by
  unfold isDotSegment AuditeDB.isDotSegment
  rw [stripDotToken_eq]
  cases AuditeDB.stripDotToken segment with
  | none => rfl
  | some rest =>
    simp only [stripDotToken_eq]
    cases rest.isEmpty with
    | true => rfl
    | false =>
      cases AuditeDB.stripDotToken rest with
      | none => rfl
      | some tail => cases tail <;> rfl

/-- Both verifiers know the same namespaces. -/
theorem namespacePrefixes_eq : namespacePrefixes = AuditeDB.namespacePrefixes := by decide +kernel

/-- Both verifiers reserve the same names. -/
theorem isReservedWorldName_eq (value : String) :
    isReservedWorldName value = AuditeDB.isReservedWorldName value := by
  unfold isReservedWorldName AuditeDB.isReservedWorldName
  rw [namespacePrefixes_eq]
  simp only [List.contains_cons, List.contains_nil, Bool.or_false, Bool.or_assoc]

/-- Both verifiers accept the same world names. -/
theorem isCanonicalWorld_iff {value : String} : isCanonicalWorld py value = true ↔ ValidName value := by
  have hcases : isCanonicalWorld py value = true ↔ ¬ (value.isEmpty || AuditeDB.isReservedWorldName value) = true ∧
      ¬ maxDiskWorldNameBytes < AuditeDB.diskWorldNameLen value ∧
      ¬ (value.toList.contains '\\' || value.toList.any AuditeDB.isControlChar) = true ∧
      ¬ ((value.toList.splitOn '/').any fun segment => segment.isEmpty || AuditeDB.isDotSegment segment) = true ∧
      hasCanonicalNamespace value = true := by
    unfold isCanonicalWorld
    rw [isReservedWorldName_eq, diskWorldNameLen_eq, namespacePrefixes_eq,
      show isControlChar = AuditeDB.isControlChar from rfl]
    simp only [isDotSegment_eq]
    split_ifs <;> simp_all [hasCanonicalNamespace]
  rw [hcases]
  constructor
  · rintro ⟨hreserved, hshort, hchars, hsegments, hnamespace⟩
    simp only [Bool.or_eq_true, not_or, Bool.not_eq_true] at hreserved hchars
    refine ⟨by simpa using hreserved.1, not_lt.mp hshort, hreserved.2, by simpa using hchars.1,
      by simpa using hchars.2, fun segment hsegment => ?_, hnamespace⟩
    have hplain := List.any_eq_false.mp (Bool.not_eq_true _ ▸ hsegments) segment hsegment
    simpa using hplain
  · intro h
    refine ⟨by simp [h.nonempty, h.unreserved], not_lt.mpr h.short, ?_, ?_, h.namespaced⟩
    · simpa using ⟨h.noBackslash, h.noControl⟩
    · simpa using h.segments

/-- Both verifiers know the same worlds in memory. -/
theorem isMemoryWorld_name (world : ValidatedWorldPath) : isMemoryWorld world.name = AuditeDB.isMemoryWorld world := by
  simp [isMemoryWorld, memoryWorldPrefixes, AuditeDB.isMemoryWorld, Bool.or_assoc]

/-- Both verifiers recognise the same HMAC labels. -/
theorem isHmacLabel_eq (value : String) : isHmacLabel value = AuditeDB.isHmacLabel value := by
  rw [isHmacLabel, AuditeDB.isHmacLabel, isLowerHex_eq]

/-- The tool accepts the rendering of a positive number that it reads back. -/
theorem isSubjectSeq_iff {raw : String} :
    isSubjectSeq py raw = true ↔ ∃ n, py.int raw = some n ∧ toString n = raw ∧ 0 < n := by
  unfold isSubjectSeq
  cases py.int raw with
  | none => simp
  | some n =>
    simp only [Option.getD_some, ne_eq, Bool.not_or, Bool.and_eq_true, Bool.not_eq_true', decide_eq_false_iff_not,
      not_not, not_le, Option.some.injEq, exists_eq_left']

/-- A sequence number passes the engine when it passes the tool and is in range. -/
theorem parseSubjectSeq_iff (py : Python) {raw : String} : (∃ seq, parseSubjectSeq raw = some seq) ↔
    isSubjectSeq py raw = true ∧ ∀ n, py.int raw = some n → n ≤ i64Max := by
  rw [isSubjectSeq_iff]
  constructor
  · rintro ⟨seq, hseq⟩
    unfold parseSubjectSeq at hseq
    split at hseq
    · cases hseq
    · next parsed hparsed =>
      split_ifs at hseq with hrange
      obtain ⟨-, hle, rfl⟩ := hrange
      have hpositive : 0 < parsed := by
        unfold TimelineSeq.new at hseq
        split_ifs at hseq with h
        · exact h
        · cases hseq
      have hint := py.int_toString parsed hpositive hle
      refine ⟨⟨parsed, hint, rfl, hpositive⟩, fun n hn => ?_⟩
      cases hint.symm.trans hn
      exact hle
  · rintro ⟨⟨n, hint, rfl, hpositive⟩, hrange⟩
    exact ⟨⟨n, hpositive⟩, @parseSubjectSeq_toString ⟨n, hpositive⟩ (hrange n hint)⟩

/-- What both verifiers ask of the character at a position of a timestamp. -/
def TickAt (isDigit : Char → Bool) (i : Nat) (c : Char) : Prop :=
  match punctuation i with
  | some expected => c = expected
  | none => isDigit c = true

/-- The tool accepts the timestamps of 24 characters that have punctuation and digits in place. -/
theorem requireTimestamp_iff {value : String} : requireTimestamp py value = .ok () ↔
    value.toList.length = 24 ∧ ∀ i c, value.toList[i]? = some c → TickAt py.isdigit i c := by
  unfold requireTimestamp
  simp only [bind_eq_ok, rejectIf_eq_ok, exists_const, not_not, forM_eq_ok, Prod.forall, List.mem_zipIdx_iff_getElem?,
    ne_eq]
  refine and_congr_right fun _ => ⟨fun h i c hc => ?_, fun h c i hc => ?_⟩
  · have htick := h c i hc
    unfold TickAt
    cases hmark : punctuation i with
    | none => simpa [hmark, rejectIf_eq_ok] using htick
    | some expected => simpa [hmark, rejectIf_eq_ok] using htick
  · have htick := h i c hc
    unfold TickAt at htick
    cases hmark : punctuation i with
    | none => simpa [hmark, rejectIf_eq_ok] using htick
    | some expected => simpa [hmark, rejectIf_eq_ok] using htick

/-- What the engine asks of the byte at a position of a timestamp. -/
def ByteAt (i : Nat) (byte : UInt8) : Prop :=
  match punctuation i with
  | some expected => byte = expected.val.toUInt8
  | none => 48 ≤ byte ∧ byte ≤ 57

/-- The positions without punctuation. -/
theorem punctuation_eq_none {i : Nat} : punctuation i = none ↔ [4, 7, 10, 13, 16, 19, 23].contains i = false := by
  unfold punctuation
  split <;> simp_all

/-- The engine accepts the timestamps of 24 bytes that have punctuation and digits in place. -/
theorem isCanonicalSqliteUtcTimestamp_bytes {value : String} : isCanonicalSqliteUtcTimestamp value = true ↔
    (utf8Bytes value).length = 24 ∧ ∀ i byte, (utf8Bytes value)[i]? = some byte → ByteAt i byte := by
  unfold isCanonicalSqliteUtcTimestamp
  generalize utf8Bytes value = bytes
  simp only [Bool.and_eq_true, beq_iff_eq, List.all_eq_true, Prod.forall, List.mem_zipIdx_iff_getElem?,
    Bool.or_eq_true, decide_eq_true_eq]
  constructor
  · rintro ⟨⟨⟨⟨⟨⟨⟨⟨hlength, h4⟩, h7⟩, h10⟩, h13⟩, h16⟩, h19⟩, h23⟩, hdigits⟩
    have hmark : ∀ i expected, punctuation i = some expected → bytes[i]? = some expected.val.toUInt8 := by
      intro i expected h
      unfold punctuation at h
      split at h <;> cases h
      exacts [h4, h7, h10, h13, h16, h19, h23]
    refine ⟨hlength, fun i byte hbyte => ?_⟩
    unfold ByteAt
    cases hi : punctuation i with
    | some expected => exact Option.some.inj (hbyte.symm.trans (hmark i expected hi))
    | none => exact (hdigits byte i hbyte).resolve_left (by rw [punctuation_eq_none.mp hi]; decide)
  · rintro ⟨hlength, hbytes⟩
    have hmark : ∀ i expected, i < bytes.length → punctuation i = some expected →
        bytes[i]? = some expected.val.toUInt8 := by
      intro i expected hlt hi
      have hat := hbytes i bytes[i] (List.getElem?_eq_getElem hlt)
      rw [ByteAt, hi] at hat
      rw [List.getElem?_eq_getElem hlt, hat]
    refine ⟨⟨⟨⟨⟨⟨⟨⟨hlength, hmark 4 '-' (by omega) rfl⟩, hmark 7 '-' (by omega) rfl⟩, hmark 10 'T' (by omega) rfl⟩,
      hmark 13 ':' (by omega) rfl⟩, hmark 16 ':' (by omega) rfl⟩, hmark 19 '.' (by omega) rfl⟩,
      hmark 23 'Z' (by omega) rfl⟩, fun byte i hbyte => ?_⟩
    have hat := hbytes i byte hbyte
    unfold ByteAt at hat
    cases hi : punctuation i with
    | some expected =>
      refine .inl (Bool.eq_true_of_not_eq_false fun h => ?_)
      rw [punctuation_eq_none.mpr h] at hi
      cases hi
    | none =>
      rw [hi] at hat
      exact .inr hat

/-- On an ASCII character both verifiers ask for the same. -/
theorem byteAt_iff {i : Nat} {c : Char} (hc : c.val ≤ 127) : ByteAt i c.val.toUInt8 ↔ TickAt py.isdigit i c := by
  have hinj : ∀ e : Char, e.val ≤ 127 → (c.val.toUInt8 = e.val.toUInt8 ↔ c = e) := by
    intro e he
    refine ⟨fun h => Char.ext (UInt32.toNat_inj.mp ?_), fun h => h ▸ rfl⟩
    have hmod : c.val.toNat % 256 = e.val.toNat % 256 := congrArg UInt8.toNat h
    have hc' : c.val.toNat ≤ 127 := hc
    have he' : e.val.toNat ≤ 127 := he
    omega
  have hdigit : (48 ≤ c.val.toUInt8 ∧ c.val.toUInt8 ≤ 57) ↔ c.isDigit = true :=
    forall_ascii (p := fun c => (48 ≤ c.val.toUInt8 ∧ c.val.toUInt8 ≤ 57) ↔ c.isDigit = true) (by decide +kernel) hc
  unfold ByteAt TickAt
  cases hi : punctuation i with
  | none => simpa only [py.isdigit_ascii c hc] using hdigit
  | some expected =>
    refine hinj expected ?_
    unfold punctuation at hi
    split at hi <;> cases hi <;> decide

/-- The engine accepts the ASCII timestamps among those of the tool. -/
theorem isCanonicalSqliteUtcTimestamp_iff (py : Python) {value : String} : isCanonicalSqliteUtcTimestamp value = true ↔
    requireTimestamp py value = .ok () ∧ ∀ c ∈ value.toList, c.val ≤ 127 := by
  have hsame : (∀ c ∈ value.toList, c.val ≤ 127) →
      (isCanonicalSqliteUtcTimestamp value = true ↔ requireTimestamp py value = .ok ()) := by
    intro hascii
    rw [isCanonicalSqliteUtcTimestamp_bytes, requireTimestamp_iff, utf8Bytes_ascii hascii, List.length_map]
    refine and_congr_right fun _ => ?_
    simp only [List.getElem?_map, Option.map_eq_some_iff, forall_exists_index, and_imp]
    constructor
    · intro h i c hc
      exact (byteAt_iff (hascii c (List.mem_of_getElem? hc))).mp (h i _ c hc rfl)
    · rintro h i _ c hc rfl
      exact (byteAt_iff (hascii c (List.mem_of_getElem? hc))).mpr (h i c hc)
  constructor
  · intro h
    have hbytes : ((utf8Bytes value).all fun byte => byte.toNat < 128) = true := by
      rw [List.all_eq_true]
      intro byte hbyte
      obtain ⟨i, hi⟩ := List.mem_iff_getElem?.mp hbyte
      have hat := (isCanonicalSqliteUtcTimestamp_bytes.mp h).2 i byte hi
      refine decide_eq_true ?_
      unfold ByteAt at hat
      cases hi : punctuation i with
      | none =>
        rw [hi] at hat
        exact lt_of_le_of_lt (UInt8.le_iff_toNat_le.mp hat.2) (by decide)
      | some expected =>
        rw [hi] at hat
        rw [hat]
        unfold punctuation at hi
        split at hi <;> cases hi <;> decide
    have hascii : ∀ c ∈ value.toList, c.val ≤ 127 := fun c hc =>
      (forall_toList_of_forall_bytes (fun byte hbyte => of_decide_eq_true hbyte) hbytes c hc).1
    exact ⟨(hsame hascii).mp h, hascii⟩
  · rintro ⟨h, hascii⟩
    exact (hsame hascii).mpr h

end ChainVerify

end AuditeDB
