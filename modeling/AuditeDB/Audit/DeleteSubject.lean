import Mathlib
import AuditeDB.Audit.Headers

/-!
# The subject of a delete row in its headers

A delete row carries its subject in reserved headers, next to headers of the caller. The subject is read back from
the stored headers in any order, from all of them or from those that the replay query selects.
-/

namespace AuditeDB

open Utf8 Results

/-- The operator `LIKE` of SQLite: `%` stands for any text, `_` for one character, and ASCII letters match in both
cases. -/
def sqlLike : List Char → List Char → Bool
  | [], text => text.isEmpty
  | '%' :: rest, text => text.tails.any (sqlLike rest)
  | '_' :: _, [] => false
  | '_' :: rest, _ :: text => sqlLike rest text
  | _ :: _, [] => false
  | c :: rest, d :: text => c.toLower == d.toLower && sqlLike rest text

/-- The pattern of the query in `delete_subject_proof_for_replay_event`. -/
def deleteSubjectPattern : String := "auditedb-delete-subject-%"

/-- The headers that the query in `delete_subject_proof_for_replay_event` selects. -/
def selectDeleteSubject (headers : Headers) : Headers :=
  headers.filter fun h => sqlLike deleteSubjectPattern.toList h.1.toList

/-- A pattern that ends in `%` after a stem of plain lowercase characters selects the texts with that stem. -/
theorem sqlLike_stem {stem : List Char} (hplain : ∀ c ∈ stem, c ≠ '%' ∧ c ≠ '_' ∧ c.toLower = c)
    (text : List Char) : sqlLike (stem ++ ['%']) text = stem.isPrefixOf (text.map Char.toLower) := by
  induction stem generalizing text with
  | nil =>
    have hnil : ([] : List Char) ∈ text.tails := (List.mem_tails _ _).mpr List.nil_suffix
    simp only [List.nil_append, sqlLike, List.isPrefixOf_nil_left]
    exact List.any_eq_true.mpr ⟨[], hnil, rfl⟩
  | cons c rest ih =>
    obtain ⟨hpercent, hunderscore, hlower⟩ := hplain c (List.mem_cons_self ..)
    cases text with
    | nil => simp [sqlLike]
    | cons d text =>
      rw [List.cons_append, sqlLike, ih fun c hc => hplain c (List.mem_cons_of_mem _ hc), hlower]
      · rfl
      · exact hpercent
      · exact hunderscore

/-- The query selects the reserved headers. -/
theorem selectDeleteSubject_eq (headers : Headers) :
    selectDeleteSubject headers = headers.filter fun h => isReservedAuditHeader h.1 := by
  have hplain : ∀ c ∈ deleteSubjectReserved.toList, c ≠ '%' ∧ c ≠ '_' ∧ c.toLower = c := by
    simp [deleteSubjectReserved]
  have hpattern : deleteSubjectPattern.toList = deleteSubjectReserved.toList ++ ['%'] := rfl
  refine List.filter_congr fun h _ => ?_
  rw [hpattern, sqlLike_stem hplain]
  simp [isReservedAuditHeader, startsWith, toAsciiLowercase]

/-- A header is read back in any order of the headers. -/
theorem oneHeader_perm {headers headers' : Headers} (hperm : headers.Perm headers') (name : String) :
    oneHeader headers name = oneHeader headers' name := by
  have hfilter := hperm.filter (·.1 = name)
  unfold oneHeader
  generalize headers.filter (·.1 = name) = values at hfilter ⊢
  generalize headers'.filter (·.1 = name) = values' at hfilter ⊢
  match values, values', hfilter with
  | [], _, hfilter => rw [List.nil_perm.mp hfilter]
  | [_], _, hfilter => rw [List.singleton_perm.mp hfilter]
  | _ :: _ :: _, [], hfilter => cases hfilter.length_eq
  | _ :: _ :: _, [_], hfilter => cases hfilter.length_eq
  | _ :: _ :: _, _ :: _ :: _, _ => rfl

/-- A reserved header is read back from the reserved headers alone. -/
theorem oneHeader_filter_reserved (headers : Headers) {name : String} (hname : isReservedAuditHeader name = true) :
    oneHeader (headers.filter fun h => isReservedAuditHeader h.1) name = oneHeader headers name := by
  have hfilter : (headers.filter fun h => isReservedAuditHeader h.1).filter (·.1 = name) =
      headers.filter (·.1 = name) := by
    rw [List.filter_filter]
    refine List.filter_congr fun h _ => ?_
    by_cases hh : h.1 = name
    · simp [hh, hname]
    · simp [hh]
  simp only [oneHeader, hfilter]

/-- The reading of a subject depends on the presence of reserved headers and on the five values only. -/
theorem deleteSubjectProofFromHeaders_congr (target : ValidatedWorldPath) (digest : BodySha256)
    {headers headers' : Headers}
    (hany : (headers.any fun h => isReservedAuditHeader h.1) = headers'.any fun h => isReservedAuditHeader h.1)
    (hone : ∀ name, isReservedAuditHeader name = true → oneHeader headers name = oneHeader headers' name) :
    deleteSubjectProofFromHeaders target digest headers = deleteSubjectProofFromHeaders target digest headers' := by
  unfold deleteSubjectProofFromHeaders
  rw [hany, hone deleteSubjectWorld (by decide), hone deleteSubjectGeneration (by decide),
    hone deleteSubjectSeq (by decide), hone deleteSubjectBodySha256 (by decide), hone deleteSubjectHmac (by decide)]

/-- A subject is read back in any order of the headers. -/
theorem deleteSubjectProofFromHeaders_perm (target : ValidatedWorldPath) (digest : BodySha256)
    {headers headers' : Headers} (hperm : headers.Perm headers') :
    deleteSubjectProofFromHeaders target digest headers = deleteSubjectProofFromHeaders target digest headers' :=
  deleteSubjectProofFromHeaders_congr target digest (hperm.any_eq) fun name _ => oneHeader_perm hperm name

/-- A subject is read back from the headers that the replay query selects. -/
theorem deleteSubjectProofFromHeaders_select (target : ValidatedWorldPath) (digest : BodySha256)
    (headers : Headers) :
    deleteSubjectProofFromHeaders target digest (selectDeleteSubject headers) =
      deleteSubjectProofFromHeaders target digest headers := by
  rw [selectDeleteSubject_eq]
  refine deleteSubjectProofFromHeaders_congr target digest ?_ fun name hname =>
    oneHeader_filter_reserved headers hname
  rw [List.any_filter]
  simp

/-- `VerifiedDeleteSubject`: the verified head of a world, with a row number that SQLite can hold and the label of an
HMAC. -/
structure DeleteSubjectProof.Verified (proof : DeleteSubjectProof) (world : ValidatedWorldPath) : Prop where
  world_eq : proof.address.world = world
  seq_le : proof.address.seq.get ≤ i64Max
  isHmacLabel : isHmacLabel proof.hmac = true

/-- The label of an event HMAC is one. -/
theorem isHmacLabel_hmacLabel [HashSuite] (key : AuditHmacKey) (input : EventHmacInput) :
    isHmacLabel (hmacLabel (eventHmac key input)) = true := by
  have hhex : isLowerHexLen (eventHmac key input) 64 = true := isLowerHexLen_digest _
  have hlabel : "hmac-".toList = ['h', 'm', 'a', 'c', '-'] := rfl
  rw [hmacLabel_eventHmac, isHmacLabel, startsWith, String.toList_append, Bool.and_eq_true]
  refine ⟨List.isPrefixOf_iff_prefix.mpr (List.prefix_append _ _), ?_⟩
  rw [hlabel, List.drop_append_of_le_length (by simp)]
  simpa using hhex

/-- A row number is read back from its decimal rendering. -/
theorem parseSubjectSeq_toString {seq : TimelineSeq} (hseq : seq.get ≤ i64Max) :
    parseSubjectSeq (toString seq.get) = some seq := by
  have hparse : (toString seq.get).toInt? = some seq.get := Int.toInt?_repr _
  have hpositive := seq.positive
  simp only [parseSubjectSeq, hparse]
  rw [if_pos ⟨by omega, hseq, trivial⟩, TimelineSeq.new_get]
  rfl

/-- The caller's headers are not reserved, also after their names are lowercased. -/
theorem AuditHeaders.not_reserved_of_mem_canonical (audit : AuditHeaders) {h : String × String}
    (hmem : h ∈ audit.user.map fun h => (toAsciiLowercase h.1, h.2)) : isReservedAuditHeader h.1 = false := by
  obtain ⟨header, hheader, rfl⟩ := List.mem_map.mp hmem
  have hfree := List.all_eq_true.mp audit.unreserved header hheader
  simp only [isReservedAuditHeader, toAsciiLowercase, String.toList_ofList, List.map_map] at hfree ⊢
  simpa [Function.comp_def] using hfree

/-- The lowercased headers of a subject are the headers themselves. -/
theorem DeleteSubjectProof.headers_lowercase (proof : DeleteSubjectProof) :
    (proof.headers.map fun h => (toAsciiLowercase h.1, h.2)) = proof.headers := by
  have hname : ∀ name ∈ [deleteSubjectWorld, deleteSubjectGeneration, deleteSubjectSeq, deleteSubjectBodySha256,
      deleteSubjectHmac], toAsciiLowercase name = name := by
    decide +kernel
  simp only [List.mem_cons, List.not_mem_nil, or_false, forall_eq_or_imp, forall_eq] at hname
  obtain ⟨hworld, hgeneration, hseq, hbody, hhmac⟩ := hname
  simp only [headers, List.map_cons, List.map_nil, hworld, hgeneration, hseq, hbody, hhmac]

/-- The stored headers, in the order in which they were signed, are those of the caller and those of the subject. -/
theorem AuditHeaders.canonical_perm (audit : AuditHeaders) :
    (canonicalHeaders audit.toStoragePairs).Perm ((audit.user.map fun h => (toAsciiLowercase h.1, h.2)) ++
      audit.deleteSubject.elim [] DeleteSubjectProof.headers) := by
  refine (List.perm_insertionSort _ _).trans ?_
  rw [toStoragePairs, List.map_append]
  cases audit.deleteSubject with
  | none => rfl
  | some proof => rw [Option.elim_some, proof.headers_lowercase]

/-- A reserved header of the stored headers is one of the subject. -/
theorem AuditHeaders.oneHeader_canonical (audit : AuditHeaders) {rows : Headers}
    (hrows : rows.Perm (canonicalHeaders audit.toStoragePairs)) {name : String}
    (hname : isReservedAuditHeader name = true) :
    oneHeader rows name = oneHeader (audit.deleteSubject.elim [] DeleteSubjectProof.headers) name := by
  have huser : (audit.user.map fun h => (toAsciiLowercase h.1, h.2)).filter (·.1 = name) = [] := by
    refine List.filter_eq_nil_iff.mpr fun h hmem heq => ?_
    have hfree := audit.not_reserved_of_mem_canonical hmem
    rw [of_decide_eq_true heq, hname] at hfree
    cases hfree
  rw [oneHeader_perm (hrows.trans audit.canonical_perm)]
  simp only [oneHeader, List.filter_append, huser, List.nil_append]

/-- The subject is read back from its own headers. -/
theorem DeleteSubjectProof.Verified.read {proof : DeleteSubjectProof} {world : ValidatedWorldPath}
    (hproof : proof.Verified world) :
    deleteSubjectProofFromHeaders world proof.address.bodySha256 proof.headers = .ok (some proof) := by
  obtain ⟨⟨subject, generation, seq, digest⟩, hmac⟩ := proof
  obtain ⟨rfl, hseq, hhmac⟩ := hproof
  have hone : ∀ entry ∈ headers ⟨⟨subject, generation, seq, digest⟩, hmac⟩,
      oneHeader (headers ⟨⟨subject, generation, seq, digest⟩, hmac⟩) entry.1 = .ok entry.2 := by
    simp [headers, oneHeader, deleteSubjectWorld, deleteSubjectGeneration, deleteSubjectSeq,
      deleteSubjectBodySha256, deleteSubjectHmac]
  simp only [headers, List.mem_cons, List.not_mem_nil, or_false, forall_eq_or_imp, forall_eq] at hone
  obtain ⟨hworld, hgeneration, hnumber, hbody, hlabel⟩ := hone
  have hreserved : isReservedAuditHeader deleteSubjectWorld = true := by decide +kernel
  have hany : (headers ⟨⟨subject, generation, seq, digest⟩, hmac⟩).any (fun h => isReservedAuditHeader h.1) =
      true := List.any_eq_true.mpr ⟨_, List.mem_cons_self .., hreserved⟩
  have hparse := parseSubjectSeq_toString (show seq.get ≤ i64Max from hseq)
  have hlabelled : AuditeDB.isHmacLabel hmac = true := hhmac
  unfold deleteSubjectProofFromHeaders
  rw [hany]
  simp only [headers, hworld, hgeneration, hnumber, hbody, hlabel, ok_bind, hparse, requireSome]
  simp [Except.mapError, hlabelled, rejectIf]

/-- The stored headers hold a reserved one when there is a subject. -/
theorem AuditHeaders.any_reserved_canonical (audit : AuditHeaders) {rows : Headers}
    (hrows : rows.Perm (canonicalHeaders audit.toStoragePairs)) :
    (rows.any fun h => isReservedAuditHeader h.1) =
      (audit.deleteSubject.elim [] DeleteSubjectProof.headers).any fun h => isReservedAuditHeader h.1 := by
  have huser : ((audit.user.map fun h => (toAsciiLowercase h.1, h.2)).any fun h => isReservedAuditHeader h.1) =
      false := by
    refine List.any_eq_false.mpr fun h hmem => ?_
    rw [audit.not_reserved_of_mem_canonical hmem]
    exact Bool.false_ne_true
  rw [(hrows.trans audit.canonical_perm).any_eq, List.any_append, huser, Bool.false_or]

/-- The stored headers of a delete give its subject back in any order. -/
theorem AuditHeaders.read_some (audit : AuditHeaders) {proof : DeleteSubjectProof} {world : ValidatedWorldPath}
    {rows : Headers} (hsubject : audit.deleteSubject = some proof) (hproof : proof.Verified world)
    (hrows : rows.Perm (canonicalHeaders audit.toStoragePairs)) :
    deleteSubjectProofFromHeaders world proof.address.bodySha256 rows = .ok (some proof) := by
  have hany := audit.any_reserved_canonical hrows
  have hone := fun name => @AuditHeaders.oneHeader_canonical audit rows hrows name
  rw [hsubject] at hany hone
  rw [← hproof.read]
  exact deleteSubjectProofFromHeaders_congr _ _ hany hone

/-- The stored headers of the delete of a memory world give no subject. -/
theorem AuditHeaders.read_none (audit : AuditHeaders) {world : ValidatedWorldPath} {digest : BodySha256}
    {rows : Headers} (hsubject : audit.deleteSubject = none) (hmemory : isMemoryWorld world = true)
    (hrows : rows.Perm (canonicalHeaders audit.toStoragePairs)) :
    deleteSubjectProofFromHeaders world digest rows = .ok none := by
  have hany := audit.any_reserved_canonical hrows
  rw [hsubject, Option.elim_none, List.any_nil] at hany
  simp [deleteSubjectProofFromHeaders, hany, hmemory, pure, Except.pure]

/-- The stored headers of a delete give its subject back in any order; without a subject a memory world gives none;
and the headers that the replay query selects give what all of them give. -/
theorem deleteSubject_storedHeaders :
    (∀ {proof : DeleteSubjectProof} {world : ValidatedWorldPath} {user : Headers} {audit : AuditHeaders}
      {rows : Headers}, proof.Verified world → AuditHeaders.fromUser user = some audit →
        rows.Perm (canonicalHeaders (audit.withDeleteSubject proof).toStoragePairs) →
        deleteSubjectProofFromHeaders world proof.address.bodySha256 rows = .ok (some proof)) ∧
    (∀ {world : ValidatedWorldPath} {digest : BodySha256} {user : Headers} {audit : AuditHeaders} {rows : Headers},
      isMemoryWorld world = true → AuditHeaders.fromUser user = some audit →
        rows.Perm (canonicalHeaders audit.toStoragePairs) →
        deleteSubjectProofFromHeaders world digest rows = .ok none) ∧
    ∀ {world : ValidatedWorldPath} {digest : BodySha256} {headers rows : Headers},
      rows.Perm (selectDeleteSubject headers) →
        deleteSubjectProofFromHeaders world digest rows = deleteSubjectProofFromHeaders world digest headers := by
  refine ⟨?_, ?_, ?_⟩
  · intro proof world user audit rows hproof _ hrows
    exact AuditHeaders.read_some _ rfl hproof hrows
  · intro world digest user audit rows hmemory huser hrows
    have hsubject : audit.deleteSubject = none := by
      unfold AuditHeaders.fromUser at huser
      split at huser
      · cases huser
        rfl
      · cases huser
    exact audit.read_none hsubject hmemory hrows
  · intro world digest headers rows hrows
    rw [deleteSubjectProofFromHeaders_perm _ _ hrows, deleteSubjectProofFromHeaders_select]

/-- The subject of a deleted world in the sample. -/
def Sample.subject : DeleteSubjectProof :=
  ⟨⟨⟨"home/a", by decide +kernel⟩, ⟨"0123456789abcdef0123456789abcdef", by decide +kernel⟩, ⟨2, by decide⟩,
    ⟨"0123456789abcdef0123456789abcdef0123456789abcdef0123456789abcdef", by decide +kernel⟩⟩,
    "hmac-0123456789abcdef0123456789abcdef0123456789abcdef0123456789abcdef"⟩

/-- A subject stored next to a header of the caller. -/
theorem deleteSubject_storedHeaders_sample :
    deleteSubjectProofFromHeaders Sample.subject.address.world Sample.subject.address.bodySha256
      (canonicalHeaders (("X-Note", "a") :: Sample.subject.headers)) = .ok (some Sample.subject) ∧
    deleteSubjectProofFromHeaders ⟨"tmp/a", by decide +kernel⟩ Sample.subject.address.bodySha256
      (canonicalHeaders [("X-Note", "a")]) = .ok none ∧
    deleteSubjectProofFromHeaders Sample.subject.address.world Sample.subject.address.bodySha256
      (selectDeleteSubject (("X-Note", "a") :: Sample.subject.headers)) =
    deleteSubjectProofFromHeaders Sample.subject.address.world Sample.subject.address.bodySha256
      (("X-Note", "a") :: Sample.subject.headers) := by
  obtain ⟨hsubject, hmemory, hselect⟩ := deleteSubject_storedHeaders
  have hfree : [("X-Note", "a")].all (fun h => !isReservedAuditHeader h.1) = true := by decide +kernel
  have huser : AuditHeaders.fromUser [("X-Note", "a")] = some ⟨[("X-Note", "a")], none, hfree⟩ := dif_pos hfree
  exact ⟨hsubject ⟨rfl, by decide, by decide +kernel⟩ huser (List.Perm.refl _),
    hmemory (by decide +kernel) huser (List.Perm.refl _), hselect (List.Perm.refl _)⟩

end AuditeDB
