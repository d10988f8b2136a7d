import Mathlib
import AuditeDB.Types

/-!
# Values and errors of the embedded database

Columns are dynamically typed: a row read from a file may hold any storage class in any column. The typed
getters fail as the database driver does when the stored class is not the requested one.
-/

namespace AuditeDB

open Utf8

/-- The stored value of one column. Text that is not valid UTF-8 is kept apart, as the driver cannot read
it as a string. -/
inductive SqlValue where
  | null
  | integer (value : Int)
  | real (value : Rat)
  | text (value : String)
  | malformedText (value : Bytes)
  | blob (value : Bytes)
deriving DecidableEq

/-- The primary result codes that the engine raises or distinguishes. -/
inductive SqliteCode where
  | busy | locked | full | corrupt | ioerr | perm | cantopen | internal | constraint | error
deriving DecidableEq

/-- The driver errors that the modelled functions raise. -/
inductive SqlError where
  | sqliteFailure (code : SqliteCode) (message : String)
  | invalidColumnType
  | utf8Error
  | queryReturnedNoRows
  | executeReturnedResults
  | invalidQuery
  | invalidParameterName (message : String)
  | fromSqlConversionFailure
  | integralValueOutOfRange
deriving DecidableEq

/-- The result of one database call. -/
abbrev SqlResult (α : Type) : Type := Except SqlError α

namespace SqlValue

/-- Read a column as an integer. -/
def getI64 : SqlValue → SqlResult Int
  | integer value => .ok value
  | _ => .error .invalidColumnType

/-- Read a column as a text. -/
def getString : SqlValue → SqlResult String
  | text value => .ok value
  | malformedText _ => .error .utf8Error
  | _ => .error .invalidColumnType

/-- Read a column as a byte string. -/
def getBytes : SqlValue → SqlResult Bytes
  | blob value => .ok value
  | _ => .error .invalidColumnType

/-- Read a column that may be `NULL` as an integer. -/
def getOptionI64 : SqlValue → SqlResult (Option Int)
  | null => .ok none
  | value => value.getI64.map some

/-- Read a column that may be `NULL` as a text. -/
def getOptionString : SqlValue → SqlResult (Option String)
  | null => .ok none
  | value => value.getString.map some

/-- The length of a `BLOB`, and nothing for the other classes: `CASE WHEN typeof(x)='blob' THEN length(x) END`. -/
def blobLength : SqlValue → Option Nat
  | blob value => some value.length
  | _ => none

/-- The function `length(x)`: the bytes of a `BLOB` and the characters of a text before its first zero; a
number is measured in its rendering, which no modelled query does. -/
def length : SqlValue → Option Nat
  | blob value => some value.length
  | text value => some (value.toList.takeWhile (· ≠ Char.ofNat 0)).length
  | malformedText value => some (value.takeWhile (· ≠ 0)).length
  | integer value => some (toString value).length
  | real _ => none
  | null => none

/-- The numeric values of a byte string. -/
def octets (bytes : Bytes) : List Nat := bytes.map UInt8.toNat

/-- The position of a value in the order of `ORDER BY`: `NULL` first, then numbers by value, then texts by
bytes, then byte strings. -/
def sortKey : SqlValue → Nat ×ₗ Rat ×ₗ List Nat
  | null => toLex (0, toLex (0, []))
  | integer value => toLex (1, toLex (value, []))
  | real value => toLex (1, toLex (value, []))
  | text value => toLex (2, toLex (0, octets (utf8Bytes value)))
  | malformedText value => toLex (2, toLex (0, octets value))
  | blob value => toLex (3, toLex (0, octets value))

/-- A column that reads as a text holds that text. -/
theorem getString_eq_ok {value : SqlValue} {s : String} : value.getString = .ok s ↔ value = text s := by
  cases value <;> simp [getString]

/-- A column that reads as an integer holds that integer. -/
theorem getI64_eq_ok {value : SqlValue} {n : Int} : value.getI64 = .ok n ↔ value = integer n := by
  cases value <;> simp [getI64]

/-- A column that reads as no text is `NULL`, and one that reads as a text holds it. -/
theorem getOptionString_eq_ok {value : SqlValue} {o : Option String} :
    value.getOptionString = .ok o ↔ value = o.elim null text := by
  cases value <;> cases o <;> simp [getOptionString, getString, Except.map]

/-- A byte string is determined by its numeric values. -/
theorem octets_injective : Function.Injective octets := by
  intro a b h
  exact List.map_injective_iff.mpr (fun _ _ => UInt8.toNat_inj.mp) h

/-- The order of texts is the order of their bytes. -/
theorem sortKey_text_inj {s t : String} (h : (text s).sortKey = (text t).sortKey) : s = t := by
  simp only [sortKey, EmbeddingLike.apply_eq_iff_eq, Prod.mk.injEq, true_and] at h
  exact utf8Bytes_injective (octets_injective h)

/-- Texts are ordered by their bytes. -/
theorem sortKey_text_le {s t : String} :
    (text s).sortKey ≤ (text t).sortKey ↔ octets (utf8Bytes s) ≤ octets (utf8Bytes t) := by
  simp [sortKey, Prod.Lex.toLex_le_toLex]

/-- Texts are strictly ordered by their bytes. -/
theorem sortKey_text_lt {s t : String} :
    (text s).sortKey < (text t).sortKey ↔ octets (utf8Bytes s) < octets (utf8Bytes t) := by
  simp [sortKey, Prod.Lex.toLex_lt_toLex]

end SqlValue

/-- `corrupt_error`, `schema_error` and `corrupt`: a report of a damaged database. -/
def corruptError (message : String) : SqlError := .sqliteFailure .corrupt message

end AuditeDB
