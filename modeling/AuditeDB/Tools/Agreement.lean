import Mathlib
import AuditeDB.Audit.Grouping
import AuditeDB.Tools.Texts
import AuditeDB.World.Represents

/-!
# The independent verifier and the engine

Both verifiers collect the same events from the joined rows and make the same checks on each of them, up to three
rules in which the tool is more generous: the digits of a timestamp, the range of the sequence number of a deleted
subject, and the body hash of a row that deletes a world in memory without naming a subject.
-/

namespace AuditeDB

open Utf8 Results HashChain Framing

namespace ChainVerify

/-- A field of a digest is framed as in the engine. -/
theorem digestField_eq (label value : String) :
    digestField label value = field (utf8Bytes label) (utf8Bytes value) := by
  simp [digestField, field, decimalBytes]

section Subjects

variable {py : Python} {row : EventRow} {headers : Headers} {idx : Nat}

/-- Both verifiers read a header in the same way. -/
theorem oneValue_eq_ok {name value : String} :
    oneValue headers idx name = .ok value ↔ oneHeader headers name = .ok value := by
  unfold oneValue oneHeader
  generalize List.filter _ headers = values
  match values with
  | [] => simp
  | [_] => simp
  | _ :: _ :: _ => simp

/-- A delete of a world in memory that names no subject. -/
def Unnamed (row : EventRow) (headers : Headers) : Prop :=
  (∀ h ∈ headers, isReservedAuditHeader h.1 = false) ∧ isMemoryWorld row.target = true

/-- The headers of a row name its subject, up to the upper bound of the sequence number. -/
structure Named (py : Python) (row : EventRow) (headers : Headers) : Prop where
  digest : isLowerHexLen row.bodySha256 64 = true
  world : oneHeader headers deleteSubjectWorld = .ok row.target
  generation : ∃ generation, oneHeader headers deleteSubjectGeneration = .ok generation ∧
    isLowerHexLen generation 32 = true
  seq : ∃ seq, oneHeader headers deleteSubjectSeq = .ok seq ∧ isSubjectSeq py seq = true
  body : oneHeader headers deleteSubjectBodySha256 = .ok row.bodySha256
  hmac : ∃ hmac, oneHeader headers deleteSubjectHmac = .ok hmac ∧ AuditeDB.isHmacLabel hmac = true

/-- Such a delete has no sequence number. -/
theorem Unnamed.oneHeader_ne_ok (h : Unnamed row headers) {seq : String} :
    oneHeader headers deleteSubjectSeq ≠ .ok seq := by
  have hnone : headers.filter (·.1 = deleteSubjectSeq) = [] := by
    refine List.filter_eq_nil_iff.mpr fun header hheader hname => ?_
    have hreserved := h.1 header hheader
    rw [of_decide_eq_true hname] at hreserved
    exact absurd hreserved (by decide)
  simp [oneHeader, hnone]

/-- The test with which both verifiers start. -/
theorem unnamed_iff : (!(headers.any fun h => isSubjectHeader py h.1) && isMemoryWorld row.target) = true ↔
    Unnamed row headers := by
  simp [Unnamed, isSubjectHeader_eq]

/-- The tool accepts the subject of a row with a valid target when it is named or not needed. -/
theorem verifyDeleteSubjectProof_iff (htarget : ValidName row.target) :
    verifyDeleteSubjectProof py row headers idx = .ok () ↔ Unnamed row headers ∨ Named py row headers := by
  unfold verifyDeleteSubjectProof
  by_cases hunnamed : Unnamed row headers
  · rw [if_pos (unnamed_iff.mpr hunnamed)]
    exact ⟨fun _ => .inl hunnamed, fun _ => rfl⟩
  · rw [if_neg (fun h => hunnamed (unnamed_iff.mp h))]
    simp only [hunnamed, false_or, bind_eq_ok, rejectIf_eq_ok, Unique.exists_iff, oneValue_eq_ok, isLowerHex_eq,
      isHmacLabel_eq, Bool.not_eq_true', Bool.not_eq_false, isCanonicalWorld_iff, ctEqStr_iff, ne_eq, not_not]
    constructor
    · rintro ⟨hdigest, _, hworld, generation, hgeneration, seq, hseq, _, hbody, hmac, hhmac, -, rfl, hgeneration',
        hseq', -, rfl, hhmac'⟩
      exact ⟨hdigest, hworld, ⟨generation, hgeneration, hgeneration'⟩, ⟨seq, hseq, hseq'⟩, hbody, ⟨hmac, hhmac, hhmac'⟩⟩
    · rintro ⟨hdigest, hworld, ⟨generation, hgeneration, hgeneration'⟩, ⟨seq, hseq, hseq'⟩, hbody, hmac, hhmac, hhmac'⟩
      exact ⟨hdigest, _, hworld, generation, hgeneration, seq, hseq, _, hbody, hmac, hhmac, htarget, rfl, hgeneration',
        hseq', hdigest, rfl, hhmac'⟩

/-- The engine also bounds the sequence number of a named subject. -/
theorem deleteSubjectProofFromHeaders_iff (py : Python) {target : ValidatedWorldPath} {digest : BodySha256}
    (htarget : row.target = target.name) (hdigest : row.bodySha256 = digest.text) :
    (∃ proof, deleteSubjectProofFromHeaders target digest headers = .ok proof) ↔
      Unnamed row headers ∨ Named py row headers ∧
        ∀ seq n, oneHeader headers deleteSubjectSeq = .ok seq → py.int seq = some n → n ≤ i64Max := by
  have hguard : (!(headers.any fun h => isReservedAuditHeader h.1) && AuditeDB.isMemoryWorld target) = true ↔
      Unnamed row headers := by
    rw [← isMemoryWorld_name, ← htarget]
    simp [Unnamed]
  unfold deleteSubjectProofFromHeaders
  by_cases hunnamed : Unnamed row headers
  · rw [if_pos (hguard.mpr hunnamed)]
    exact ⟨fun _ => .inl hunnamed, fun _ => ⟨_, rfl⟩⟩
  · rw [if_neg (fun h => hunnamed (hguard.mp h))]
    simp only [hunnamed, false_or, bind_eq_ok, rejectIf_eq_ok, Unique.exists_iff, mapError_eq_ok, requireSome_eq_ok,
      pure_eq_ok, ValidatedWorldPath.fromCanonical_eq_ok, Bool.not_eq_true', Bool.not_eq_false, ctEqStr_iff, ne_eq,
      not_not]
    constructor
    · rintro ⟨proof, _, hworld, _, rfl, rfl, rawGeneration, hgeneration, generation, hnew, rawSeq, hseq, seq, hparse,
        _, hbody, body, hbodyNew, hmac, hhmac, hlabel, hsame, -⟩
      obtain ⟨hnumber, hrange⟩ := (parseSubjectSeq_iff py).mp ⟨seq, hparse⟩
      obtain rfl := WorldGeneration.new_eq_ok hnew
      obtain rfl := BodySha256.new_eq_ok hbodyNew
      refine ⟨⟨hdigest ▸ digest.lowerHex, htarget ▸ hworld, ⟨_, hgeneration, generation.lowerHex⟩,
        ⟨rawSeq, hseq, hnumber⟩, hdigest.trans hsame.symm ▸ hbody, ⟨hmac, hhmac, hlabel⟩⟩, ?_⟩
      intro other n hother hn
      cases hseq.symm.trans hother
      exact hrange n hn
    · rintro ⟨⟨-, hworld, ⟨generation, hgeneration, hhex⟩, ⟨seq, hseq, hnumber⟩, hbody, hmac, hhmac, hlabel⟩, hrange⟩
      obtain ⟨parsed, hparse⟩ := (parseSubjectSeq_iff py).mpr ⟨hnumber, fun n hn => hrange seq n hseq hn⟩
      exact ⟨_, _, hworld, target, htarget, rfl, generation, hgeneration, _,
        WorldGeneration.new_text ⟨generation, hhex⟩, seq, hseq, parsed, hparse, _, hbody, digest,
        hdigest ▸ BodySha256.new_text digest, hmac, hhmac, hlabel, rfl, rfl⟩

/-- The engine also wants a digest in every row. -/
theorem verifyDeleteSubjectProof_engine_iff (py : Python) {kind : AuditEventKind} (hkind : kind.isDelete = true) :
    AuditeDB.verifyDeleteSubjectProof row headers kind idx = .ok () ↔ ValidName row.target ∧
      isLowerHexLen row.bodySha256 64 = true ∧ (Unnamed row headers ∨ Named py row headers ∧
        ∀ seq n, oneHeader headers deleteSubjectSeq = .ok seq → py.int seq = some n → n ≤ i64Max) := by
  unfold AuditeDB.verifyDeleteSubjectProof
  rw [if_neg (by simp [hkind])]
  simp only [bind_eq_ok, mapError_eq_ok, pure_eq_ok, ValidatedWorldPath.fromCanonical_eq_ok]
  constructor
  · rintro ⟨target, htarget, digest, hnew, proof, hproof, -⟩
    have hdigest := (BodySha256.new_eq_ok hnew).symm
    refine ⟨htarget ▸ target.valid, hdigest ▸ digest.lowerHex, ?_⟩
    exact (deleteSubjectProofFromHeaders_iff py htarget hdigest).mp ⟨proof, hproof⟩
  · rintro ⟨htarget, hdigest, hsubject⟩
    obtain ⟨proof, hproof⟩ := (@deleteSubjectProofFromHeaders_iff row headers py
      ⟨_, checkCanonical_eq_ok.mpr htarget⟩ ⟨_, hdigest⟩ rfl rfl).mpr hsubject
    exact ⟨_, rfl, _, BodySha256.new_text ⟨_, hdigest⟩, proof, hproof, trivial⟩

end Subjects

section Events

variable [HashSuite] {py : Python} {key : AuditHmacKey} {world : ValidatedWorldPath} {generation : WorldGeneration}

/-- Both verifiers compute the same metadata digest. -/
theorem metaSha256Canonical_eq (contentType : String) (headers : Headers) :
    metaSha256Canonical contentType headers = AuditeDB.metaSha256Canonical contentType headers := by
  simp [metaSha256Canonical, AuditeDB.metaSha256Canonical, metaBytes, metaFields, encodeFields, digestField_eq,
    List.flatMap_assoc]

/-- Both verifiers compute the same HMAC. -/
theorem eventHmac_eq (row : EventRow) (prev : String) {timestamp : AuditTimestamp}
    (htimestamp : timestamp.text = row.timestamp) :
    eventHmac key prev world.name generation.text row =
      AuditeDB.eventHmac key (row.hmacInput world generation prev timestamp) := by
  simp [eventHmac, AuditeDB.eventHmac, EventHmacInput.bytes, EventHmacInput.fields, encodeFields, digestField_eq,
    EventRow.hmacInput, htimestamp]

/-- What the tool asks of an event besides its link. -/
structure Checked (py : Python) (key : AuditHmacKey) (world : ValidatedWorldPath) (generation : WorldGeneration)
    (event : EventRow × Headers) (kind : AuditEventKind) : Prop where
  known : AuditEventKind.fromStorage event.1.eventType = some kind
  target : kind.bodyBearing ∨ kind = .format → world.name = event.1.target
  version : kind = .format → hasFormatVersion event.2
  subject : kind.isDelete = true → ValidName event.1.target ∧ (Unnamed event.1 event.2 ∨ Named py event.1 event.2)
  metadata : AuditeDB.metaSha256Canonical event.1.contentType event.2 = event.1.metaSha256
  time : requireTimestamp py event.1.timestamp = .ok ()
  signature : eventHmac key event.1.prevHmac world.name generation.text event.1 = event.1.hmac

omit [HashSuite] in
/-- The tool accepts a delete with a valid target and a subject. -/
theorem verifyDelete_eq_ok {row : EventRow} {headers : Headers} {idx : Nat} {u : Unit} :
    verifyDelete py row headers idx = .ok u ↔ (row.eventType ∈ deleteEventTypes →
      ValidName row.target ∧ (Unnamed row headers ∨ Named py row headers)) := by
  unfold verifyDelete
  split
  · next hdelete =>
    simp only [List.contains_iff_mem.mp hdelete, true_imp_iff, bind_eq_ok, rejectIf_eq_ok, Unique.exists_iff,
      Bool.not_eq_true', Bool.not_eq_false, isCanonicalWorld_iff]
    exact and_congr_right fun htarget => verifyDeleteSubjectProof_iff htarget
  · next hdelete => exact ⟨fun _ h => absurd (List.contains_iff_mem.mpr h) hdelete, fun _ => rfl⟩

omit [HashSuite] in
/-- Both verifiers know the same event types. -/
theorem contains_eventTypes {raw : String} :
    ["put", "append", "delete_intent", "delete_commit", "delete_commit_failed", "format"].contains raw = true ↔
      ∃ kind, AuditEventKind.fromStorage raw = some kind := by
  constructor
  · intro h
    simp only [List.contains_cons, List.contains_nil, Bool.or_false, Bool.or_eq_true, beq_iff_eq] at h
    rcases h with rfl | rfl | rfl | rfl | rfl | rfl
    exacts [⟨.put, rfl⟩, ⟨.append, rfl⟩, ⟨.deleteIntent, rfl⟩, ⟨.deleteCommit, rfl⟩, ⟨.deleteCommitFailed, rfl⟩,
      ⟨.format, rfl⟩]
  · rintro ⟨kind, hkind⟩
    rw [AuditEventKind.asStr_of_fromStorage hkind]
    cases kind <;> decide

omit [HashSuite] in
/-- The tool groups the event types as the engine groups their kinds. -/
theorem eventTypes_of_known {raw : String} {kind : AuditEventKind} (h : AuditEventKind.fromStorage raw = some kind) :
    (["put", "append", "format"].contains raw = true ↔ kind.bodyBearing ∨ kind = .format) ∧
      (raw = "format" ↔ kind = .format) ∧ (raw ∈ deleteEventTypes ↔ kind.isDelete = true) := by
  rw [AuditEventKind.asStr_of_fromStorage h]
  cases kind <;> decide

omit [HashSuite] in
/-- Both verifiers look for the same format version. -/
theorem contains_formatVersion (headers : Headers) :
    headers.contains (worldFormatVersionHeader, toString currentWorldFormatVersion) = hasFormatVersion headers := by
  rw [hasFormatVersion, List.contains_eq_any_beq]
  refine congrArg (List.any headers) (funext fun h => ?_)
  rw [Bool.eq_iff_iff, beq_iff_eq, Bool.and_eq_true, decide_eq_true_eq, decide_eq_true_eq, Prod.ext_iff]
  exact and_congr eq_comm eq_comm

/-- The tool accepts exactly the checked events that name the expected HMAC. -/
theorem verifyEvent_eq_ok {event : EventRow × Headers} {prev tag : String} {idx : Nat} :
    verifyEvent py key world.name generation.text event.1 event.2 prev idx = .ok tag ↔
      eventPrev event = prev ∧ tag = eventTag event ∧ ∃ kind, Checked py key world generation event kind := by
  unfold verifyEvent
  simp only [bind_eq_ok, rejectIf_eq_ok, Unique.exists_iff, PUnit.default_eq_unit, Bool.not_eq_true', Bool.not_eq_false,
    contains_eventTypes, ctEqStr_iff, mapError_eq_ok, pure_eq_ok, metaSha256Canonical_eq, verifyDelete_eq_ok,
    contains_formatVersion, Bool.and_eq_true, decide_eq_true_eq, not_and, ne_eq, not_not]
  constructor
  · rintro ⟨⟨kind, hknown⟩, htarget, hversion, hsubject, rfl, hmetadata, htime, hsignature, rfl⟩
    obtain ⟨hbound, hformat, hdelete⟩ := eventTypes_of_known hknown
    exact ⟨rfl, rfl, kind, hknown, fun h => (htarget (hbound.mpr h)).symm, fun h => hversion (hformat.mpr h),
      fun h => hsubject (hdelete.mpr h), hmetadata, htime, hsignature⟩
  · rintro ⟨rfl, rfl, kind, h⟩
    obtain ⟨hbound, hformat, hdelete⟩ := eventTypes_of_known h.known
    exact ⟨⟨kind, h.known⟩, fun ht => (h.target (hbound.mp ht)).symm, fun ht => h.version (hformat.mp ht),
      fun ht => h.subject (hdelete.mp ht), rfl, h.metadata, h.time, h.signature, rfl⟩

/-- The rules in which the tool is more generous than the engine. -/
structure Strict (py : Python) (event : EventRow × Headers) : Prop where
  timestamp : ∀ c ∈ event.1.timestamp.toList, c.val ≤ 127
  seq : event.1.eventType ∈ deleteEventTypes → ∀ seq n, oneHeader event.2 deleteSubjectSeq = .ok seq →
    py.int seq = some n → n ≤ i64Max
  digest : event.1.eventType ∈ deleteEventTypes → Unnamed event.1 event.2 → isLowerHexLen event.1.bodySha256 64 = true

/-- The engine accepts the checked events that keep to the strict rules. -/
theorem signedEvent_iff (py : Python) {event : EventRow × Headers} :
    (∃ kind timestamp, SignedEvent key world generation event kind timestamp) ↔
      (∃ kind, Checked py key world generation event kind) ∧ Strict py event := by
  constructor
  · rintro ⟨kind, timestamp, h⟩
    have htext := AuditTimestamp.fromStorage_eq_ok h.time
    obtain ⟨htime, hascii⟩ := (isCanonicalSqliteUtcTimestamp_iff py).mp (htext ▸ timestamp.canonical)
    obtain ⟨-, -, hdelete⟩ := eventTypes_of_known h.known
    have hsubject : kind.isDelete = true → _ := fun hkind =>
      (verifyDeleteSubjectProof_engine_iff py hkind).mp (h.subject 0)
    refine ⟨⟨kind, h.known, h.target, h.version, fun hkind => ?_, h.metadata, htime, ?_⟩, hascii, fun ht => ?_,
      fun ht _ => ?_⟩
    · obtain ⟨htarget, -, hcase⟩ := hsubject hkind
      exact ⟨htarget, hcase.imp_right And.left⟩
    · rw [eventHmac_eq _ _ htext, h.signature]
    · obtain ⟨-, -, hunnamed | hnamed⟩ := hsubject (hdelete.mp ht)
      · exact fun seq n hseq => absurd hseq hunnamed.oneHeader_ne_ok
      · exact hnamed.2
    · exact (hsubject (hdelete.mp ht)).2.1
  · rintro ⟨⟨kind, h⟩, hstrict⟩
    have hcanonical := (isCanonicalSqliteUtcTimestamp_iff py).mpr ⟨h.time, hstrict.timestamp⟩
    obtain ⟨-, -, hdelete⟩ := eventTypes_of_known h.known
    refine ⟨kind, ⟨event.1.timestamp, hcanonical⟩, h.known, h.target, h.version, fun idx => ?_, h.metadata,
      AuditTimestamp.fromStorage_text ⟨event.1.timestamp, hcanonical⟩, ?_⟩
    · cases hkind : kind.isDelete with
      | false => rw [AuditeDB.verifyDeleteSubjectProof, hkind]; rfl
      | true =>
        have ht := hdelete.mpr hkind
        obtain ⟨htarget, hcase⟩ := h.subject hkind
        refine (verifyDeleteSubjectProof_engine_iff py hkind).mpr ⟨htarget, ?_, ?_⟩
        · exact hcase.elim (hstrict.digest ht) Named.digest
        · exact hcase.imp_right fun hnamed => ⟨hnamed, hstrict.seq ht⟩
    · rw [← h.signature, eventHmac_eq]
      rfl

/-- What an accepted event leaves behind. -/
def Progress.advance (progress : Progress) (event : EventRow × Headers) : Progress :=
  ⟨eventTag event, if progress.events = 0 then eventTag event else progress.genesis, progress.events + 1⟩

/-- The tool accepts exactly the linked chains of checked events. -/
theorem foldlM_checkEvent {chain : List (EventRow × Headers)} {progress final : Progress} :
    chain.foldlM (checkEvent py key world.name generation.text) progress = .ok final ↔
      Linked eventTag eventPrev progress.prev chain ∧
        (∀ event ∈ chain, ∃ kind, Checked py key world generation event kind) ∧
        final = chain.foldl Progress.advance progress := by
  refine foldlM_eq_ok Progress.prev (fun progress event next => ?_) (fun progress event => ?_)
  · simp only [checkEvent, bind_eq_ok, pure_eq_ok, verifyEvent_eq_ok]
    constructor
    · rintro ⟨_, ⟨hprev, rfl, hchecked⟩, rfl⟩
      exact ⟨hprev, hchecked, rfl⟩
    · rintro ⟨hprev, hchecked, rfl⟩
      exact ⟨_, ⟨hprev, rfl, hchecked⟩, rfl⟩
  · rfl

/-- The engine accepts exactly the linked chains of signed events when no bodies are retained. -/
theorem foldlM_verifyEvent_iff {chain : List (EventRow × Headers)} {state final : VerifyAccumulator} :
    chain.foldlM (AuditeDB.verifyEvent key .tailUnchecked world generation) state = .ok final ↔
      Linked eventTag eventPrev state.prev chain ∧
        (∀ event ∈ chain, ∃ kind timestamp, SignedEvent key world generation event kind timestamp) ∧
        final = chain.foldl (fun state event => state.advance generation event.1) state := by
  refine foldlM_eq_ok VerifyAccumulator.prev (fun state event next => ?_) (fun state event => ?_)
  · have hretained : ∀ kind, verifyRetainedBody event.1 kind state.events .tailUnchecked state = .ok state :=
      fun _ => rfl
    simp only [AuditeDB.verifyEvent, bind_eq_ok, pure_eq_ok, verifySignature_eq_ok, hretained, Except.ok.injEq,
      exists_eq_left']
    constructor
    · rintro ⟨kind, ⟨hprev, hsigned⟩, rfl⟩
      exact ⟨hprev, ⟨kind, hsigned⟩, rfl⟩
    · rintro ⟨hprev, ⟨kind, hsigned⟩, rfl⟩
      exact ⟨kind, ⟨hprev, hsigned⟩, rfl⟩
  · rfl

end Events

section Tables

/-- What the definitions of the tables enforce on their contents. -/
structure AsCreated (db : Database) : Prop where
  schema : CreatedSchema db.schema
  headers : ∀ h ∈ db.eventHeaders, h.name ≠ .null ∧ h.value ≠ .null
  version : ∀ row ∈ db.worldFormat, ∃ version, row.version = .integer version

variable {py : Python} {db : Database}

/-- The join has no half of a header. -/
theorem AsCreated.joined (h : AsCreated db) {joined : JoinedRow} (hjoined : joined ∈ db.auditSelect) :
    joined.name = .null ↔ joined.value = .null := by
  obtain ⟨e, -, hmem⟩ := List.mem_flatMap.mp ((List.mem_insertionSort _).mp hjoined)
  unfold Database.joinHeaders at hmem
  split at hmem
  · rw [List.mem_singleton.mp hmem]
  · obtain ⟨header, hheader, rfl⟩ := List.mem_map.mp hmem
    obtain ⟨hname, hvalue⟩ := h.headers header (List.mem_filter.mp hheader).1
    exact ⟨fun h => absurd h hname, fun h => absurd h hvalue⟩

/-- The cursor passes rows without malformed texts. -/
theorem fetch_eq_ok {columns : List SqlValue} :
    fetch columns = .ok () ↔ ∀ bytes, .malformedText bytes ∉ columns := by
  rw [fetch, rejectIf_eq_ok, List.any_eq_true]
  constructor
  · intro h bytes hbytes
    exact h ⟨_, hbytes, rfl⟩
  · rintro h ⟨value, hvalue, hmalformed⟩
    cases value with
    | malformedText bytes => exact h bytes hvalue
    | _ => cases hmalformed

/-- A column that the tool accepts as a text holds that text. -/
theorem requireStr_eq_ok {value : SqlValue} {column text : String} :
    requireStr value column = .ok text ↔ value = .text text := by
  cases value <;> simp [requireStr]

/-- A column that the tool accepts as a number holds that number. -/
theorem requireInt_eq_ok {value : SqlValue} {column : String} {n : Int} :
    requireInt value column = .ok n ↔ value = .integer n := by
  cases value <;> simp [requireInt]

/-- The tool reads a row as the engine does. -/
theorem rowFromSql_eq_ok {joined : JoinedRow} (hjoined : joined.name = .null ↔ joined.value = .null) {row : EventRow}
    {header : Option (String × String)} :
    rowFromSql joined = .ok (row, header) ↔ joined.event.read = .ok row ∧
      ∃ name value, joined.name.getOptionString = .ok name ∧ joined.value.getOptionString = .ok value ∧
        ∀ headers : Headers, headers ++ header.toList = pushHeader headers name value := by
  obtain ⟨⟨id, timestamp, eventType, target, bodySha256, size, contentType, metaSha256, hmac, prevHmac⟩, name, value⟩ :=
    joined
  unfold rowFromSql
  simp only [bind_eq_ok, requireStr_eq_ok, requireInt_eq_ok, SqlValue.getOptionString_eq_ok, EventRecord.read_eq_ok]
  constructor
  · rintro ⟨-, -, _, rfl, _, rfl, _, rfl, _, rfl, _, rfl, _, rfl, _, rfl, _, rfl, _, rfl, h⟩
    split_ifs at h with hnull
    · -- Both halves of the header are missing.
      obtain ⟨rfl, rfl⟩ : name = .null ∧ value = .null :=
        hnull.elim (fun h => ⟨h, hjoined.mp h⟩) fun h => ⟨hjoined.mpr h, h⟩
      cases h
      exact ⟨rfl, none, none, rfl, rfl, fun headers => List.append_nil _⟩
    · simp only [bind_eq_ok, requireStr_eq_ok, pure_eq_ok] at h
      obtain ⟨name, rfl, value, rfl, h⟩ := h
      cases h
      exact ⟨rfl, some name, some value, rfl, rfl, fun headers => rfl⟩
  · rintro ⟨hrecord, name, value, rfl, rfl, hpush⟩
    cases hrecord
    have hheader : header.toList = pushHeader [] name value := hpush []
    refine ⟨⟨⟩, ?_, _, rfl, _, rfl, _, rfl, _, rfl, _, rfl, _, rfl, _, rfl, _, rfl, _, rfl, ?_⟩
    · refine fetch_eq_ok.mpr fun bytes hbytes => ?_
      cases name <;> cases value <;> simp at hbytes
    · cases name with
      | none =>
        cases header with
        | none => rw [if_pos (.inl rfl)]; rfl
        | some header => cases hheader
      | some name =>
        cases value with
        | none => cases hjoined.mpr rfl
        | some value =>
          cases header with
          | none => cases hheader
          | some header =>
            cases hheader
            rfl

/-- Both verifiers check the format row in the same way. -/
theorem requireWorldFormat_eq_ok (h : AsCreated db) :
    requireWorldFormat py db = .ok () ↔ verifyWorldFormatRow db = .ok () := by
  have hfetch : fetch (db.worldFormat.map WorldFormatRow.version) = .ok () := by
    refine fetch_eq_ok.mpr fun bytes hbytes => ?_
    obtain ⟨row, hrow, hversion⟩ := List.mem_map.mp hbytes
    obtain ⟨version, hinteger⟩ := h.version row hrow
    cases hversion.symm.trans hinteger
  have hengine : verifyWorldFormatRow db = .ok () ↔
      (∀ row ∈ db.worldFormat, verifyWorldFormatEntry row = .ok ()) ∧ db.worldFormat.length = 1 := by
    simp only [verifyWorldFormatRow, bind_eq_ok, Unique.exists_iff, PUnit.default_eq_unit, forM_eq_ok]
    refine and_congr_right fun _ => ?_
    unfold requireSingleRow
    split_ifs <;> simp_all
  rw [hengine, requireWorldFormat, hfetch, ok_bind]
  match hrows : db.worldFormat with
  | [] => simp [throw, throwThe, MonadExceptOf.throw]
  | [row] =>
    obtain ⟨version, hversion⟩ := h.version row (hrows ▸ List.mem_singleton_self row)
    simp [verifyWorldFormatEntry, hversion, equalsInt, bind_eq_ok, rejectIf_eq_ok]
  | _ :: _ :: _ => simp [throw, throwThe, MonadExceptOf.throw]

/-- Both verifiers read the same generation. -/
theorem loadGeneration_eq_ok (h : AsCreated db) {text : String} :
    loadGeneration db = .ok text ↔ ∃ generation, AuditeDB.generation db = .ok generation ∧ generation.text = text := by
  have hcolumn : ((db.schema.find? fun e => e.kind = .table && e.name = "stage_meta").elim [] (·.columns)).contains
      "generation" = true := by
    rcases h.schema with hschema | hschema <;> rw [hschema] <;> decide +kernel
  unfold loadGeneration AuditeDB.generation requireGeneration
  simp only [bind_eq_ok, rejectIf_eq_ok, requireSome_eq_ok, Unique.exists_iff, hcolumn, Bool.not_true,
    Bool.false_eq_true, not_false_eq_true, true_and, requireStr_eq_ok, pure_eq_ok, isLowerHex_eq, Bool.not_eq_true',
    Bool.not_eq_false]
  constructor
  · rintro ⟨row, hrow, -, raw, hraw, hhex, rfl⟩
    have hnew : WorldGeneration.new raw = .ok ⟨raw, hhex⟩ := WorldGeneration.new_text ⟨raw, hhex⟩
    refine ⟨⟨raw, hhex⟩, ⟨row, hrow, ?_⟩, rfl⟩
    rw [hraw]
    simp only [pure_bind, hnew]
    rfl
  · rintro ⟨generation, ⟨row, hrow, h⟩, rfl⟩
    split at h
    · next raw hraw =>
      rw [pure_bind] at h
      split at h
      · next generation' hnew =>
        cases h
        obtain rfl := WorldGeneration.new_eq_ok hnew
        exact ⟨row, hrow, fetch_eq_ok.mpr (by simp [hraw]), _, hraw, generation.lowerHex, rfl⟩
      · cases h
    · cases h
    · cases h

end Tables

section Walks

variable [HashSuite] {py : Python} {key : AuditHmacKey} {world : ValidatedWorldPath} {generation : WorldGeneration}
  {db : Database} {allowEmpty : Bool}

/-- The last check folds over the event that was being collected. -/
theorem finishEvent_eq_ok {current : Option (EventRow × Headers)} {progress final : Progress} :
    finishEvent py key world.name generation.text current progress = .ok final ↔
      current.toList.foldlM (checkEvent py key world.name generation.text) progress = .ok final := by
  cases current with
  | none => simp [finishEvent, pure, Except.pure]
  | some event =>
    simp only [finishEvent, Option.toList_some, List.foldlM_cons, List.foldlM_nil]
    cases checkEvent py key world.name generation.text progress event <;>
      simp [Except.mapError, bind, Except.bind, pure, Except.pure]

/-- The tool collects the same events as the engine and folds its check over them. -/
theorem walkRows_eq_ok {rows : List JoinedRow} (hrows : ∀ joined ∈ rows, joined.name = .null ↔ joined.value = .null)
    {current : Option (EventRow × Headers)} {progress final : Progress} :
    walkRows py key world.name generation.text rows current progress = .ok final ↔
      ∃ chain, groupRows rows current = .ok chain ∧
        chain.foldlM (checkEvent py key world.name generation.text) progress = .ok final := by
  induction rows generalizing current progress with
  | nil => simp [walkRows, groupRows, finishEvent_eq_ok, pure_eq_ok]
  | cons joined rows ih =>
    obtain ⟨hjoined, hrows⟩ := List.forall_mem_cons.mp hrows
    rw [walkRows, groupRows]
    simp only [bind_eq_ok, mapError_eq_ok, finishEvent_eq_ok, ih hrows, pure_eq_ok, Prod.exists,
      rowFromSql_eq_ok hjoined]
    constructor
    · rintro ⟨row, header, ⟨hrow, name, value, hname, hvalue, hpush⟩, middle, hmiddle, chain, hchain, hfold⟩
      rw [hpush] at hchain
      refine ⟨_, ⟨row, hrow, name, hname, value, hvalue, chain, hchain, rfl⟩, ?_⟩
      rw [List.foldlM_append]
      exact bind_eq_ok.mpr ⟨middle, hmiddle, hfold⟩
    · rintro ⟨_, ⟨row, hrow, name, hname, value, hvalue, chain, hchain, rfl⟩, hfold⟩
      rw [List.foldlM_append] at hfold
      obtain ⟨middle, hmiddle, hfold⟩ := bind_eq_ok.mp hfold
      have hpush : ∀ headers : Headers, headers ++ (name.bind fun name => value.map (name, ·)).toList =
          pushHeader headers name value := by
        cases name <;> cases value <;> simp [pushHeader]
      exact ⟨row, _, ⟨hrow, name, value, hname, hvalue, hpush⟩, middle, hmiddle, chain, hpush _ ▸ hchain, hfold⟩

/-- The walk of the engine without the retention checks: generation, format row and `verify_event` over the rows. -/
def walkChain (key : AuditHmacKey) (world : ValidatedWorldPath) (allowEmpty : Bool) (db : Database) :
    AuditResult VerifyOk := do
  let generation ← liftSql (AuditeDB.generation db)
  liftSql (verifyWorldFormatRow db)
  let state ← AuditeDB.walkRows key .tailUnchecked world generation db.auditSelect none (.start .tailUnchecked none)
  rejectIf (state.events = 0 && !allowEmpty) (.chainBroken ⟨0, "at-least-one-event", "no-events"⟩)
  return state.summary

/-- A table passes the checks that the verifiers have in common: format row, generation, columns, links and the
checks of every event. -/
structure Passes (py : Python) (key : AuditHmacKey) (world : ValidatedWorldPath) (db : Database)
    (generation : WorldGeneration) (chain : List (EventRow × Headers)) : Prop where
  format : verifyWorldFormatRow db = .ok ()
  stored : AuditeDB.generation db = .ok generation
  rows : groupRows db.auditSelect none = .ok chain
  linked : Linked eventTag eventPrev "" chain
  checked : ∀ event ∈ chain, ∃ kind, Checked py key world generation event kind

/-- The report of a completed walk. -/
def Progress.summary (progress : Progress) : VerifyOk :=
  if progress.events = 0 then ⟨0, hmacLabel "", hmacLabel ""⟩
  else ⟨progress.events, hmacLabel progress.genesis, hmacLabel progress.prev⟩

/-- The report on a chain. -/
def report (chain : List (EventRow × Headers)) : VerifyOk := (chain.foldl Progress.advance ⟨"", "", 0⟩).summary

omit [HashSuite] in
/-- A walk counts its events. -/
theorem events_foldl_advance (chain : List (EventRow × Headers)) (progress : Progress) :
    (chain.foldl Progress.advance progress).events = progress.events + chain.length := by
  induction chain generalizing progress with
  | nil => rfl
  | cons event rest ih =>
    rw [List.foldl_cons, ih, List.length_cons]
    exact Nat.add_right_comm ..

omit [HashSuite] in
/-- The engine keeps the same summary of a chain. -/
theorem summary_foldl_advance (generation : WorldGeneration) (chain : List (EventRow × Headers))
    (state : VerifyAccumulator) :
    let final := chain.foldl (fun state event => state.advance generation event.1) state
    Progress.mk final.prev final.genesis final.events =
      chain.foldl Progress.advance ⟨state.prev, state.genesis, state.events⟩ := by
  induction chain generalizing state with
  | nil => rfl
  | cons event rest ih => exact ih _

/-- The tool accepts the tables that pass. -/
theorem verifyConnection_eq_valid (h : AsCreated db) {ok : VerifyOk} :
    verifyConnection py key world.name allowEmpty db = .ok (.valid ok) ↔
      ∃ generation chain, Passes py key world db generation chain ∧ (chain = [] → allowEmpty = true) ∧
        ok = report chain := by
  unfold verifyConnection
  simp only [bind_eq_ok, Unique.exists_iff, requireWorldFormat_eq_ok h, loadGeneration_eq_ok h]
  have hlength : ∀ chain : List (EventRow × Headers),
      (chain.foldl Progress.advance ⟨"", "", 0⟩).events = 0 ↔ chain = [] := fun chain => by
    rw [events_foldl_advance, Nat.zero_add, List.length_eq_zero_iff]
  constructor
  · rintro ⟨hformat, _, ⟨generation, hstored, rfl⟩, hresult⟩
    split at hresult
    · cases hresult
    · cases hresult
    · next progress hwalk =>
      obtain ⟨chain, hrows, hfold⟩ := (walkRows_eq_ok fun _ hjoined => h.joined hjoined).mp hwalk
      obtain ⟨hlinked, hchecked, rfl⟩ := foldlM_checkEvent.mp hfold
      refine ⟨generation, chain, ⟨hformat, hstored, hrows, hlinked, hchecked⟩, fun hnil => ?_, ?_⟩
      · rw [if_pos ((hlength chain).mpr hnil)] at hresult
        split_ifs at hresult with hallow
        · exact hallow
        · cases hresult
      · rw [report, Progress.summary]
        split_ifs at hresult ⊢ <;> cases hresult
        · rfl
        · rfl
  · rintro ⟨generation, chain, hpasses, hempty, rfl⟩
    refine ⟨hpasses.format, _, ⟨generation, hpasses.stored, rfl⟩, ?_⟩
    rw [(walkRows_eq_ok fun _ hjoined => h.joined hjoined).mpr
      ⟨chain, hpasses.rows, foldlM_checkEvent.mpr ⟨hpasses.linked, hpasses.checked, rfl⟩⟩, report, Progress.summary]
    simp only
    split_ifs with hzero hallow
    · rfl
    · exact absurd (hempty ((hlength chain).mp hzero)) hallow
    · rfl

/-- The engine accepts the tables that pass and whose events keep to the strict rules. -/
theorem walkChain_eq_ok (py : Python) {ok : VerifyOk} :
    walkChain key world allowEmpty db = .ok ok ↔
      ∃ generation chain, Passes py key world db generation chain ∧ (∀ event ∈ chain, Strict py event) ∧
        (chain = [] → allowEmpty = true) ∧ ok = report chain := by
  unfold walkChain
  simp only [bind_eq_ok, liftSql_eq_ok, Unique.exists_iff, PUnit.default_eq_unit, rejectIf_eq_ok, pure_eq_ok,
    AuditeDB.walkRows_eq_ok, foldlM_verifyEvent_iff, signedEvent_iff py]
  have hsummary : ∀ (generation : WorldGeneration) (chain : List (EventRow × Headers)),
      let final : VerifyAccumulator :=
        chain.foldl (fun state event => state.advance generation event.1) (.start .tailUnchecked none)
      final.summary = report chain ∧ (final.events = 0 ↔ chain = []) := by
    intro generation chain
    have hprogress := summary_foldl_advance generation chain (.start .tailUnchecked none)
    have hevents := (congrArg Progress.events hprogress).trans (events_foldl_advance _ _)
    refine ⟨congrArg Progress.summary hprogress, ?_⟩
    rw [← List.length_eq_zero_iff, ← Nat.zero_add chain.length]
    exact Eq.congr_left hevents
  constructor
  · rintro ⟨generation, hstored, hformat, _, ⟨chain, hrows, hlinked, hevents, rfl⟩, hempty, rfl⟩
    obtain ⟨hreport, hzero⟩ := hsummary generation chain
    refine ⟨generation, chain, ⟨hformat, hstored, hrows, hlinked, fun event hevent => (hevents event hevent).1⟩,
      fun event hevent => (hevents event hevent).2, fun hnil => ?_, hreport⟩
    simpa [hzero.mpr hnil] using hempty
  · rintro ⟨generation, chain, hpasses, hstrict, hempty, rfl⟩
    obtain ⟨hreport, hzero⟩ := hsummary generation chain
    refine ⟨generation, hpasses.stored, hpasses.format, _, ⟨chain, hpasses.rows, hpasses.linked,
      fun event hevent => ⟨hpasses.checked event hevent, hstrict event hevent⟩, rfl⟩, ?_, hreport⟩
    simpa [hzero] using hempty

/-- The verifiers agree on a table exactly when it fails a check that they have in common or keeps to the rules in which
the tool is more generous. -/
theorem verifiers_agree_iff (py : Python) (key : AuditHmacKey) (world : ValidatedWorldPath) (allowEmpty : Bool)
    (h : AsCreated db) :
    (∀ ok, verifyConnection py key world.name allowEmpty db = .ok (.valid ok) ↔
        walkChain key world allowEmpty db = .ok ok) ↔
      ∀ generation chain, Passes py key world db generation chain → ∀ event ∈ chain, Strict py event := by
  simp only [verifyConnection_eq_valid h, walkChain_eq_ok py]
  constructor
  · intro hagree generation chain hpasses event hevent
    have hne : chain = [] → allowEmpty = true := by
      rintro rfl
      cases hevent
    obtain ⟨_, chain', hpasses', hstrict, -⟩ := (hagree _).mp ⟨generation, chain, hpasses, hne, rfl⟩
    cases hpasses.rows.symm.trans hpasses'.rows
    exact hstrict event hevent
  · intro hstrict ok
    constructor
    · rintro ⟨generation, chain, hpasses, hrest⟩
      exact ⟨generation, chain, hpasses, hstrict generation chain hpasses, hrest⟩
    · rintro ⟨generation, chain, hpasses, -, hrest⟩
      exact ⟨generation, chain, hpasses, hrest⟩

end Walks

namespace Sample

open AuditeDB.Sample

/-- A Python with a few digits and no capital letters outside of ASCII. -/
def python : Python where
  isdigit c := c.isDigit || [0xB2, 0xB3, 0xB9].contains c.val || (0x660 ≤ c.val && c.val ≤ 0x669)
  lowerOther _ c _ := [c]
  int := String.toInt?
  format _ := ""
  isdigit_ascii c hc := forall_ascii (p := fun c => (c.isDigit || [0xB2, 0xB3, 0xB9].contains c.val ||
    (0x660 ≤ c.val && c.val ≤ 0x669)) = c.isDigit) (by decide +kernel) hc
  lowerOther_eq _ c _ hc := ⟨c, [], rfl, .inl hc⟩
  int_toString n _ _ := Int.toInt?_repr n

/-- A row of the ledger that deletes a world in memory, with its body hash. -/
def deleted [HashSuite] (bodySha256 : String) : EventRow :=
  let row : EventRow := ⟨1, time.text, "delete_intent", "tmp/a", bodySha256, 0, "",
    AuditeDB.metaSha256Canonical "" [], "", ""⟩
  { row with hmac := eventHmac key "" deleteLedgerWorld.name AuditeDB.Sample.generation.text row }

/-- The ledger with that row. -/
def ledger [HashSuite] (bodySha256 : String) : Database :=
  { createdDatabase AuditeDB.Sample.generation with events := [(deleted bodySha256).record] }

/-- The ledger has the constraints of its tables. -/
theorem asCreated [HashSuite] (bodySha256 : String) : AsCreated (ledger bodySha256) := by
  refine ⟨.inr rfl, fun h hmem => (by cases hmem), fun row hrow => ?_⟩
  rw [List.mem_singleton.mp hrow]
  exact ⟨_, rfl⟩

/-- The ledger passes the common checks with any body hash. -/
theorem passes [HashSuite] (py : Python) (bodySha256 : String) :
    Passes py key deleteLedgerWorld (ledger bodySha256) AuditeDB.Sample.generation [(deleted bodySha256, [])] := by
  have htarget : ValidName "tmp/a" := checkCanonical_eq_ok.mp (by decide +kernel)
  have hstored : AuditeDB.generation (createdDatabase AuditeDB.Sample.generation) = .ok AuditeDB.Sample.generation := by
    decide +kernel
  refine ⟨rfl, hstored, rfl, ⟨rfl, trivial⟩, fun event hevent => ?_⟩
  rw [List.mem_singleton.mp hevent]
  refine ⟨.deleteIntent, rfl, by simp [AuditEventKind.bodyBearing], by simp, fun _ => ⟨htarget, .inl ⟨?_, ?_⟩⟩, rfl,
    ((isCanonicalSqliteUtcTimestamp_iff py).mp time.canonical).1, rfl⟩
  · intro h hmem
    cases hmem
  · exact (by decide +kernel : isMemoryWorld "tmp/a" = true)

/-- A body hash. -/
def digest : String := "e3b0c44298fc1c149afbf4c8996fb92427ae41e4649b934ca495991b7852b855"

end Sample

open AuditeDB.Sample

/-- The verifiers agree on the row with a body hash. -/
theorem verifiers_agree_iff_hashed :
    letI := sha2Suite
    AsCreated (Sample.ledger Sample.digest) ∧ ∀ ok,
      verifyConnection Sample.python key deleteLedgerWorld.name false (Sample.ledger Sample.digest) = .ok (.valid ok) ↔
        walkChain key deleteLedgerWorld false (Sample.ledger Sample.digest) = .ok ok := by
  let _ := sha2Suite
  refine ⟨Sample.asCreated _, ?_⟩
  refine (verifiers_agree_iff Sample.python key deleteLedgerWorld false (Sample.asCreated _)).mpr ?_
  intro generation chain hpasses event hevent
  cases (Sample.passes Sample.python Sample.digest).rows.symm.trans hpasses.rows
  rw [List.mem_singleton.mp hevent]
  refine ⟨((isCanonicalSqliteUtcTimestamp_iff Sample.python).mp time.canonical).2, fun _ seq n hseq => ?_,
    fun _ _ => ?_⟩
  · cases hseq
  · exact (by decide +kernel : isLowerHexLen Sample.digest 64 = true)

/-- The engine rejects a row without a body hash that the tool accepts. -/
theorem tool_accepts_unhashed_delete :
    letI := sha2Suite
    AsCreated (Sample.ledger "") ∧ ∃ ok,
      verifyConnection Sample.python key deleteLedgerWorld.name false (Sample.ledger "") = .ok (.valid ok) ∧
      walkChain key deleteLedgerWorld false (Sample.ledger "") ≠ .ok ok := by
  let _ := sha2Suite
  have hpasses := Sample.passes Sample.python ""
  refine ⟨Sample.asCreated "", report [(Sample.deleted "", [])], ?_, fun h => ?_⟩
  · exact (verifyConnection_eq_valid (Sample.asCreated "")).mpr
      ⟨_, _, hpasses, fun hnil => absurd hnil (List.cons_ne_nil _ _), rfl⟩
  · obtain ⟨_, chain, hpasses', hstrict, -⟩ := (walkChain_eq_ok Sample.python).mp h
    cases hpasses.rows.symm.trans hpasses'.rows
    have hdigest := (hstrict _ (List.mem_singleton_self _)).digest
      (by decide +kernel : "delete_intent" ∈ deleteEventTypes) ⟨fun _ hmem => (by cases hmem),
        (by decide +kernel : isMemoryWorld "tmp/a" = true)⟩
    exact absurd hdigest (by decide +kernel : ¬ isLowerHexLen "" 64 = true)

end ChainVerify

end AuditeDB
