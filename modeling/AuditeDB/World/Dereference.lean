import Mathlib
import AuditeDB.World.Timeline

/-!
# Dereferencing timeline coordinates

A coordinate names a row of one generation of a world by its id and body digest. The world is verified, the
row is loaded and matched, and its body comes from the retained bodies or is reported as expired.
-/

namespace AuditeDB

open Results

/-- `TimelineCoordinate`: the parts of a coordinate after wire validation. -/
structure TimelineCoordinate where
  world : ValidatedWorldPath
  generation : WorldGeneration
  seq : TimelineSeq
  bodySha256 : BodySha256
deriving DecidableEq

/-- `TimelineEventSnapshot`. -/
structure TimelineEventSnapshot where
  identity : TimelineEventIdentity
  size : Int
  contentType : String
  hmac : String
  headers : Headers
deriving DecidableEq

/-- The stored headers of one row id in the order of their names and values. -/
def Database.eventHeadersById (db : Database) (id : Int) : List EventHeaderRow :=
  (db.eventHeaders.filter (·.eventId = .integer id)).insertionSort fun a b =>
    toLex (a.name.sortKey, a.value.sortKey) ≤ toLex (b.name.sortKey, b.value.sortKey)

/-- `load_event_snapshot`. -/
def loadEventSnapshot (db : Database) (seq : TimelineSeq) : SqlResult (Option TimelineEventSnapshot) :=
  match db.events.find? (·.id = seq.get) with
  | none => pure none
  | some e => do
    let identity ← e.identity
    let size ← e.size.getI64
    let contentType ← e.contentType.getString
    let hmac ← e.hmac.getString
    let headers ← (db.eventHeadersById seq.get).mapM fun row => do
      let name ← row.name.getString
      let value ← row.value.getString
      pure (name, value)
    pure (some ⟨identity, size, contentType, hmac, headers⟩)

/-- `TimelineBodyRowMatch`. -/
inductive TimelineBodyRowMatch where
  | body (bodySha256 : BodySha256)
  | nonBody (kind : AuditEventKind) (target : ValidatedWorldPath) (bodySha256 : BodySha256)
      (deleteSubject : Option DeleteSubjectProof)
  | targetMismatch
  | invalidEventKind
  | invalidEventShape
  | invalidBodySha256
  | bodyHashMismatch (actual : BodySha256)
deriving DecidableEq

/-- `delete_subject_proof_for_non_body`. -/
def deleteSubjectProofForNonBody (kind : AuditEventKind) (target : ValidatedWorldPath)
    (bodySha256 : BodySha256) (headers : Headers) : Except Unit (Option DeleteSubjectProof) :=
  if kind.isDelete then (deleteSubjectProofFromHeaders target bodySha256 headers).mapError fun _ => ()
  else pure none

namespace TimelineEventSnapshot

/-- `match_non_body_row`. -/
def matchNonBodyRow (row : TimelineEventSnapshot) (kind : AuditEventKind) : TimelineBodyRowMatch :=
  if row.size < 0 then .invalidEventShape
  else match BodySha256.new row.identity.bodySha256 with
    | .error _ => .invalidBodySha256
    | .ok bodySha256 => match ValidatedWorldPath.fromCanonical row.identity.target with
      | .error _ => .invalidEventShape
      | .ok target => match deleteSubjectProofForNonBody kind target bodySha256 row.headers with
        | .error _ => .invalidEventShape
        | .ok deleteSubject => .nonBody kind target bodySha256 deleteSubject

/-- `match_body_row_inner`. -/
def matchBodyRow (row : TimelineEventSnapshot) (world : ValidatedWorldPath) (expected : BodySha256) :
    TimelineBodyRowMatch :=
  match AuditEventKind.fromStorage row.identity.eventType with
  | none => .invalidEventKind
  | some kind =>
    if !kind.bodyBearing then row.matchNonBodyRow kind
    else if !row.identity.targetMatches world then .targetMismatch
    else match BodySha256.new row.identity.bodySha256 with
      | .error _ => .invalidBodySha256
      | .ok bodySha256 =>
        if !ctEqStr bodySha256.text expected.text then .bodyHashMismatch bodySha256 else .body bodySha256

end TimelineEventSnapshot

/-- `TimelineCorruption`. -/
inductive TimelineCorruption where
  | missingBodyForPresentRow | bodyHashMismatch | invalidEventShape
deriving DecidableEq

/-- `TimelineDereference`. -/
inductive TimelineDereference where
  | body (address : TimelineAddress) (representation : Stage) (hmac : String)
  | genMismatch (requested : TimelineCoordinate) (actual : WorldGeneration)
  | bodyHashMismatch (requested : TimelineCoordinate) (actual : BodySha256)
  | nonBodyEvent (requested : TimelineCoordinate) (eventType : String) (target : ValidatedWorldPath)
      (bodySha256 : BodySha256) (size : Int) (contentType : String) (deleteSubject : Option DeleteSubjectProof)
      (hmac : String)
  | expired (requested : TimelineCoordinate) (contentType : String) (size : Int) (hmac : String)
  | missingRow (requested : TimelineCoordinate)
  | unprovenCoordinate (requested : TimelineCoordinate)
  | corrupt (requested : TimelineCoordinate) (reason : TimelineCorruption)
deriving DecidableEq

section

variable [HashSuite]

/-- The part of `dereference_snapshot` after the row matched: the body of the row, if it is retained. -/
def dereferenceBody (db : Database) (coordinate : TimelineCoordinate) (row : TimelineEventSnapshot)
    (generation : WorldGeneration) (bodySha256 : BodySha256) : SqlResult TimelineDereference :=
  if coordinate.generation ≠ generation ∨ !ctEqStr coordinate.bodySha256.text bodySha256.text then
    pure (.corrupt coordinate .invalidEventShape)
  else
    let address : TimelineAddress := ⟨coordinate.world, generation, coordinate.seq, bodySha256⟩
    match db.casBody bodySha256.text with
    | none => do
      -- `missing_timeline_body_read`
      let floor ← firstRetainedSeq db
      if floor.any fun floor => floor.get ≤ coordinate.seq.get then
        pure (.corrupt coordinate .missingBodyForPresentRow)
      else pure (.expired coordinate row.contentType row.size row.hmac)
    | some stored => do
      let body ← stored.body.getBytes
      if (body.length : Int) ≠ row.size ∨ i64Max < body.length then
        pure (.corrupt coordinate .invalidEventShape)
      else if !ctEqStr bodySha256.text (sha256Hex body) then pure (.corrupt coordinate .bodyHashMismatch)
      else pure (.body address ⟨body, row.contentType, row.headers⟩ row.hmac)

/-- `dereference_snapshot`. -/
def dereferenceSnapshot (db : Database) (coordinate : TimelineCoordinate) (row : TimelineEventSnapshot)
    (generation : WorldGeneration) : SqlResult TimelineDereference :=
  match row.matchBodyRow coordinate.world coordinate.bodySha256 with
  | .body bodySha256 => dereferenceBody db coordinate row generation bodySha256
  | .nonBody kind target bodySha256 deleteSubject => pure (.nonBodyEvent coordinate kind.asStr target bodySha256
      row.size row.contentType deleteSubject row.hmac)
  | .bodyHashMismatch actual =>
    if ctEqStr coordinate.bodySha256.text actual.text then pure (.corrupt coordinate .invalidEventShape)
    else pure (.bodyHashMismatch coordinate actual)
  | .invalidBodySha256 | .invalidEventKind | .invalidEventShape | .targetMismatch =>
    pure (.corrupt coordinate .invalidEventShape)

/-- `dereference_timeline_coordinate_via_conn`. -/
def dereferenceTimelineCoordinate (key : AuditHmacKey) (coordinate : TimelineCoordinate) (db : Database) :
    AuditResult TimelineDereference := do
  let actual ← liftSql (generation db)
  requireChainIntact key coordinate.world db
  if actual ≠ coordinate.generation then return .genMismatch coordinate actual
  match ← liftSql (loadEventSnapshot db coordinate.seq) with
  | some row => liftSql (dereferenceSnapshot db coordinate row actual)
  | none => return .missingRow coordinate

end

end AuditeDB
