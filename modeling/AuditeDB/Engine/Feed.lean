import Mathlib
import AuditeDB.World.Write

/-!
# Change events

Every committed change is announced by an event. An event of a durable world names the audit row it stands
for; other events are live signals without a durable identity.
-/

namespace AuditeDB

/-- `SubscriptionEventId`: the coordinates of an audit row. -/
structure SubscriptionEventId where
  world : ValidatedWorldPath
  generation : WorldGeneration
  seq : TimelineSeq
deriving DecidableEq

/-- `SubscriptionEventId::same_chain_at_or_before`. -/
def SubscriptionEventId.sameChainAtOrBefore (id fence : SubscriptionEventId) : Bool :=
  id.world = fence.world && id.generation = fence.generation && id.seq.get ≤ fence.seq.get

/-- `SubscriptionEventId::from_appended_audit_row`. -/
def AppendedAuditRow.eventId (row : AppendedAuditRow) : SubscriptionEventId := ⟨row.world, row.generation, row.id⟩

/-- `SubscriptionEventId::from_timeline_address`. -/
def TimelineAddress.eventId (address : TimelineAddress) : SubscriptionEventId :=
  ⟨address.world, address.generation, address.seq⟩

/-- `ChangeVerb`. -/
inductive ChangeVerb where
  | replace | append | delete | format
deriving DecidableEq

/-- `AuditEventPayload`. -/
structure AuditEventPayload where
  kind : AuditEventKind
  target : ValidatedWorldPath
  bodySha256 : BodySha256
  size : Int
  contentType : String
  deleteSubject : Option DeleteSubjectProof
deriving DecidableEq

/-- `AuditEventPayload::from_appended_audit_row` and `from_appended_body_audit_row`. -/
def AppendedAuditRow.payload (row : AppendedAuditRow) : AuditEventPayload :=
  ⟨row.eventType, row.target, row.bodySha256, row.size, row.contentType, none⟩

/-- `MatchedChainEvent`. -/
structure MatchedChainEvent where
  id : SubscriptionEventId
  timelineAddress : Option TimelineAddress
  auditPayload : AuditEventPayload
deriving DecidableEq

/-- `ChangeTarget`. -/
inductive ChangeTarget where
  | chain (event : MatchedChainEvent)
  | ephemeral (world : ValidatedWorldPath)
deriving DecidableEq

/-- `ChangeTarget::world`. -/
def ChangeTarget.world : ChangeTarget → ValidatedWorldPath
  | chain event => event.id.world
  | ephemeral world => world

/-- `ChangeTarget::identity`: the row an event stands for, or nothing for a live signal. -/
def ChangeTarget.identity : ChangeTarget → Option SubscriptionEventId
  | chain event => some event.id
  | ephemeral _ => none

/-- `ChangeTarget::from_appended_body_audit_row`. -/
def AppendedAuditRow.bodyTarget (row : AppendedAuditRow) : ChangeTarget :=
  .chain ⟨row.timelineAddress.eventId, some row.timelineAddress, row.payload⟩

/-- `ChangeTarget::from_appended_audit_row`. -/
def AppendedAuditRow.changeTarget (row : AppendedAuditRow) : ChangeTarget :=
  .chain ⟨row.eventId, none, row.payload⟩

/-- `AppendedLedgerEvent`: a committed row of the delete ledger. -/
structure AppendedLedgerEvent where
  eventType : AuditEventKind
  target : ValidatedWorldPath
  eventId : SubscriptionEventId
  bodySha256 : BodySha256
  size : Int
  contentType : String
  deleteSubject : Option DeleteSubjectProof
  hmac : String
  formatEvent : Option AppendedAuditRow
deriving DecidableEq

/-- `ChangeTarget::from_appended_ledger_event`. -/
def AppendedLedgerEvent.changeTarget (event : AppendedLedgerEvent) : ChangeTarget :=
  .chain ⟨event.eventId, none,
    ⟨event.eventType, event.target, event.bodySha256, event.size, event.contentType, event.deleteSubject⟩⟩

/-- `ChangeEventAux`. -/
structure ChangeEventAux where
  deleteLedgerEventId : Option SubscriptionEventId
  deleteSubject : Option DeleteSubjectProof
deriving DecidableEq

/-- `ChangeEventAux::default`. -/
def ChangeEventAux.default : ChangeEventAux := ⟨none, none⟩

/-- `ChangeEvent`, without the epoch, which is the same for all events of a process. -/
structure ChangeEvent where
  id : Nat
  verb : ChangeVerb
  target : ChangeTarget
  etag : String
  aux : ChangeEventAux
deriving DecidableEq

/-- `ChangeEvent::path`. -/
def ChangeEvent.path (event : ChangeEvent) : ValidatedWorldPath := event.target.world

/-- `ChangeEvent::identity`. -/
def ChangeEvent.identity (event : ChangeEvent) : Option SubscriptionEventId := event.target.identity

/-- `char::is_whitespace`. -/
def isWhitespaceChar (c : Char) : Bool :=
  (9 ≤ c.toNat && c.toNat ≤ 13) || c.toNat == 0x20 || c.toNat == 0x85 || c.toNat == 0xA0 ||
    c.toNat == 0x1680 || (0x2000 ≤ c.toNat && c.toNat ≤ 0x200A) || c.toNat == 0x2028 ||
    c.toNat == 0x2029 || c.toNat == 0x202F || c.toNat == 0x205F || c.toNat == 0x3000

/-- `str::trim`. -/
def trimChars (text : List Char) : List Char :=
  ((text.dropWhile isWhitespaceChar).reverse.dropWhile isWhitespaceChar).reverse

/-- `SubscribePattern`, as a list of characters. -/
structure SubscribePattern where
  text : List Char
deriving DecidableEq

/-- `SubscribePattern::new` and `event::pattern`. -/
def SubscribePattern.new (raw : String) : SubscribePattern :=
  match trimChars raw.toList with
  | [] | ['*'] | ['/', '*'] | ['/'] => ⟨['*']⟩
  | '/' :: rest => ⟨'/' :: rest⟩
  | p => ⟨'/' :: p⟩

/-- `strip_prefix('/')` with the text itself as the default. -/
def stripSlash : List Char → List Char
  | '/' :: rest => rest
  | text => text

/-- `matches_world`. -/
def SubscribePattern.matchesWorld (pattern : SubscribePattern) (path : ValidatedWorldPath) : Bool :=
  if pattern.text = ['*'] then true
  else if pattern.text.getLast? = some '*' then
    (stripSlash pattern.text.dropLast).isPrefixOf path.name.toList
  else path.name.toList = stripSlash pattern.text

/-- `SubscribePattern::exact_world`. -/
def SubscribePattern.exactWorld (pattern : SubscribePattern) : Except String (Option ValidatedWorldPath) :=
  if pattern.text.getLast? = some '*' then .ok none
  else (ValidatedWorldPath.fromCanonical (String.ofList (stripSlash pattern.text))).map some

end AuditeDB
