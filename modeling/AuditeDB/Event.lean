import Mathlib
import AuditeDB.Sql

/-!
# Kinds of audit events

Audit rows store their kind as a text. The engine appends only the six kinds below; the two kinds that carry
a body own a retention slot and live in the content-addressed table.
-/

namespace AuditeDB

/-- `AuditEventKind`: the kinds of audit rows. -/
inductive AuditEventKind where
  | put | append | deleteIntent | deleteCommit | deleteCommitFailed | format
deriving DecidableEq

namespace AuditEventKind

/-- `AuditEventKind::as_str`: the stored text of a kind. -/
def asStr : AuditEventKind → String
  | put => "put"
  | append => "append"
  | deleteIntent => "delete_intent"
  | deleteCommit => "delete_commit"
  | deleteCommitFailed => "delete_commit_failed"
  | format => "format"

/-- `AuditEventKind::from_storage`. -/
def fromStorage (raw : String) : Option AuditEventKind :=
  if raw = "put" then some put
  else if raw = "append" then some append
  else if raw = "delete_intent" then some deleteIntent
  else if raw = "delete_commit" then some deleteCommit
  else if raw = "delete_commit_failed" then some deleteCommitFailed
  else if raw = "format" then some format
  else none

/-- A stored kind reads back as itself. -/
@[simp] theorem fromStorage_asStr (kind : AuditEventKind) : fromStorage kind.asStr = some kind := by
  cases kind <;> decide

/-- What a recognised text is. -/
theorem asStr_of_fromStorage {raw : String} {kind : AuditEventKind}
    (h : fromStorage raw = some kind) : raw = kind.asStr := by
  unfold fromStorage at h
  split_ifs at h <;> cases h <;> assumption

/-- `AuditEventKind::class`, the flag `body_bearing`: the kinds that carry a body. The retention slot and the
payload home follow the same flag, and every kind notifies. -/
def bodyBearing : AuditEventKind → Bool
  | put | append => true
  | deleteIntent | deleteCommit | deleteCommitFailed | format => false

/-- The kinds that the delete ledger records. -/
def isDelete : AuditEventKind → Bool
  | deleteIntent | deleteCommit | deleteCommitFailed => true
  | put | append | format => false

/-- The condition `event_type IN ('put', 'append')` of the queries over body events. -/
def isBodyType (value : SqlValue) : Bool :=
  value == .text put.asStr || value == .text append.asStr

/-- The queries over body events select exactly the body-bearing kinds. -/
@[simp] theorem isBodyType_asStr (kind : AuditEventKind) :
    isBodyType (.text kind.asStr) = kind.bodyBearing := by
  cases kind <;> decide

end AuditEventKind

end AuditeDB
