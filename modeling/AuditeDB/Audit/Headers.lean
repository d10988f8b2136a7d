import Mathlib
import AuditeDB.Audit.Chain

/-!
# Headers of delete ledger rows

A row of the delete ledger names the deleted subject in five reserved headers. The verifier reads the subject
back from the stored headers and compares it with the row.
-/

namespace AuditeDB

open Utf8 Results

/-- `TimelineAddress`: one body event of one generation of a world. -/
structure TimelineAddress where
  world : ValidatedWorldPath
  generation : WorldGeneration
  seq : TimelineSeq
  bodySha256 : BodySha256
deriving DecidableEq

/-- `DeleteSubjectProof`: the deleted body event and the HMAC label of its row. -/
structure DeleteSubjectProof where
  address : TimelineAddress
  hmac : String
deriving DecidableEq

/-- The names of the five reserved headers. -/
def deleteSubjectWorld : String := "auditedb-delete-subject-world"

@[inherit_doc deleteSubjectWorld]
def deleteSubjectGeneration : String := "auditedb-delete-subject-generation"

@[inherit_doc deleteSubjectWorld]
def deleteSubjectSeq : String := "auditedb-delete-subject-seq"

@[inherit_doc deleteSubjectWorld]
def deleteSubjectBodySha256 : String := "auditedb-delete-subject-body-sha256"

@[inherit_doc deleteSubjectWorld]
def deleteSubjectHmac : String := "auditedb-delete-subject-hmac"

/-- `DELETE_SUBJECT_RESERVED_PREFIX`. -/
def deleteSubjectReserved : String := "auditedb-delete-subject-"

/-- `is_reserved_audit_header`. -/
def isReservedAuditHeader (name : String) : Bool :=
  startsWith (toAsciiLowercase name) deleteSubjectReserved

/-- `is_hmac_label`. -/
def isHmacLabel (value : String) : Bool :=
  startsWith value "hmac-" && isLowerHexLen (String.ofList (value.toList.drop 5)) 64

/-- `VerifiedDeleteSubject::headers`. -/
def DeleteSubjectProof.headers (proof : DeleteSubjectProof) : Headers :=
  [(deleteSubjectWorld, proof.address.world.name),
    (deleteSubjectGeneration, proof.address.generation.text),
    (deleteSubjectSeq, toString proof.address.seq.get),
    (deleteSubjectBodySha256, proof.address.bodySha256.text),
    (deleteSubjectHmac, proof.hmac)]

/-- `DeleteSubjectProofError`. -/
inductive DeleteSubjectProofError where
  | missing (name : String)
  | duplicated (name : String)
  | invalid (name : String)
  | worldMismatch
  | bodyHashMismatch
deriving DecidableEq

/-- `one_header`: the value of the only header of a name. -/
def oneHeader (headers : Headers) (name : String) : Except DeleteSubjectProofError String :=
  match headers.filter (·.1 = name) with
  | [] => .error (.missing name)
  | [header] => .ok header.2
  | _ => .error (.duplicated name)

/-- The sequence header: a decimal `i64` in canonical form that is positive. -/
def parseSubjectSeq (raw : String) : Option TimelineSeq :=
  match raw.toInt? with
  | none => none
  | some parsed =>
    if -(i64Max : Int) - 1 ≤ parsed ∧ parsed ≤ i64Max ∧ toString parsed = raw then
      (TimelineSeq.new parsed).toOption
    else none

/-- `delete_subject_proof_from_headers`. -/
def deleteSubjectProofFromHeaders (target : ValidatedWorldPath) (expectedBodySha256 : BodySha256)
    (headers : Headers) : Except DeleteSubjectProofError (Option DeleteSubjectProof) := do
  if !(headers.any fun h => isReservedAuditHeader h.1) && isMemoryWorld target then return none
  let world ← (ValidatedWorldPath.fromCanonical (← oneHeader headers deleteSubjectWorld)).mapError
    fun _ => .invalid deleteSubjectWorld
  rejectIf (world ≠ target) .worldMismatch
  let generation ← (WorldGeneration.new (← oneHeader headers deleteSubjectGeneration)).mapError
    fun _ => .invalid deleteSubjectGeneration
  let seq ← requireSome (.invalid deleteSubjectSeq)
    (parseSubjectSeq (← oneHeader headers deleteSubjectSeq))
  let bodySha256 ← (BodySha256.new (← oneHeader headers deleteSubjectBodySha256)).mapError
    fun _ => .invalid deleteSubjectBodySha256
  let hmac ← oneHeader headers deleteSubjectHmac
  rejectIf (!isHmacLabel hmac) (.invalid deleteSubjectHmac)
  rejectIf (!ctEqStr bodySha256.text expectedBodySha256.text) .bodyHashMismatch
  return some ⟨⟨world, generation, seq, bodySha256⟩, hmac⟩

/-- `delete_subject_proof_break`. -/
def deleteSubjectProofBreak (idx : Nat) : DeleteSubjectProofError → VerifyBreak
  | .missing name => ⟨idx, s!"delete-subject-{name}", s!"missing-delete-subject-{name}"⟩
  | .duplicated name => ⟨idx, s!"one-delete-subject-{name}", s!"duplicated-delete-subject-{name}"⟩
  | .invalid name => ⟨idx, s!"valid-delete-subject-{name}", s!"invalid-delete-subject-{name}"⟩
  | .worldMismatch => ⟨idx, "delete-subject-world-matches-target", "delete-subject-world-mismatch"⟩
  | .bodyHashMismatch =>
    ⟨idx, "delete-subject-body-sha256-matches-row", "delete-subject-body-sha256-mismatch"⟩

/-- `verify_delete_subject_proof`: the subject check of a delete row. -/
def verifyDeleteSubjectProof (row : EventRow) (headers : Headers) (kind : AuditEventKind) (idx : Nat) :
    Except VerifyBreak Unit := do
  if !kind.isDelete then return ()
  let target ← (ValidatedWorldPath.fromCanonical row.target).mapError
    fun _ => ⟨idx, "delete-target-canonical-world", s!"target-{row.target}"⟩
  let bodySha256 ← (BodySha256.new row.bodySha256).mapError
    fun _ => ⟨idx, "delete-row-body-sha256", "invalid-delete-row-body-sha256"⟩
  let _ ← (deleteSubjectProofFromHeaders target bodySha256 headers).mapError (deleteSubjectProofBreak idx)

/-- `AuditHeaders`: checked user headers with the subject of a delete. -/
structure AuditHeaders where
  user : Headers
  deleteSubject : Option DeleteSubjectProof
  unreserved : user.all (fun h => !isReservedAuditHeader h.1) = true
deriving DecidableEq

/-- `AuditHeaders::from_user`. -/
def AuditHeaders.fromUser (headers : Headers) : Option AuditHeaders :=
  if h : headers.all (fun h => !isReservedAuditHeader h.1) = true then some ⟨headers, none, h⟩ else none

/-- `AuditHeaders::with_delete_subject`. -/
def AuditHeaders.withDeleteSubject (headers : AuditHeaders) (subject : DeleteSubjectProof) :
    AuditHeaders :=
  { headers with deleteSubject := some subject }

/-- `AuditHeaders::to_storage_pairs`. -/
def AuditHeaders.toStoragePairs (headers : AuditHeaders) : Headers :=
  headers.user ++ headers.deleteSubject.elim [] DeleteSubjectProof.headers

end AuditeDB
