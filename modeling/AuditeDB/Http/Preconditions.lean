import Mathlib
import AuditeDB.Library.ListFields
import AuditeDB.Engine.System

/-!
# Preconditions of HTTP requests

`If-Match` and `If-None-Match` list entity tags, over any number of field lines. The server turns them into the
preconditions of a call, from the first line of each and only when its bytes are visible ASCII. The lines that it
does not read are the ones whose preconditions may be dropped.
-/

namespace AuditeDB

open Utf8 Results Interleaving ListFields

/-- The bytes that `HeaderValue` accepts. -/
def isHeaderByte (byte : UInt8) : Bool := (32 ≤ byte && byte ≠ 127) || byte = 9

/-- `HeaderValue`: the content of a field line. -/
structure HeaderValue where
  bytes : Bytes
  allowed : bytes.all isHeaderByte = true
deriving DecidableEq

/-- `is_visible_ascii`: the bytes that `HeaderValue::to_str` accepts. -/
def isVisibleAscii (byte : UInt8) : Bool := (32 ≤ byte && byte < 127) || byte = 9

/-- The character of an ASCII byte. -/
def asciiChar (byte : UInt8) : Char := Char.ofNat byte.toNat

/-- `HeaderValue::to_str`. -/
def HeaderValue.toStr (value : HeaderValue) : Option String :=
  if value.bytes.all isVisibleAscii then some (String.ofList (value.bytes.map asciiChar))
  else none

/-- The two fields that carry preconditions; other fields may stand between their lines. -/
inductive HeaderName where
  | ifMatch | ifNoneMatch | other (name : String)
deriving DecidableEq

/-- `HeaderMap`: the field lines of a request in their order. -/
abbrev HeaderMap : Type := List (HeaderName × HeaderValue)

/-- All lines of a field. -/
def HeaderMap.lines (headers : HeaderMap) (name : HeaderName) : List HeaderValue :=
  (headers.filter (·.1 = name)).map Prod.snd

/-- `HeaderMap::get`: the first line of a field. -/
def HeaderMap.get (headers : HeaderMap) (name : HeaderName) : Option HeaderValue := (headers.lines name).head?

/-- `quoted_etag`. -/
def quotedEtag (candidate : List Char) : Option String :=
  match trim isWhitespace candidate with
  | '"' :: rest =>
    if rest.getLast? = some '"' ∧ '"' ∉ rest.dropLast then some (String.ofList rest.dropLast) else none
  | _ => none

/-- `parse_etag_matcher`. -/
def parseEtagMatcher (candidate : List Char) : EtagMatcher :=
  match candidate with
  | ['*'] => .any
  | 'W' :: '/' :: rest | 'w' :: '/' :: rest => ((quotedEtag rest).map EtagMatcher.weak).getD .invalid
  | _ => ((quotedEtag candidate).map EtagMatcher.strong).getD .invalid

/-- `parse_etag_matchers`. -/
def parseEtagMatchers (raw : String) : List EtagMatcher :=
  (members ',' isWhitespace raw.toList).map parseEtagMatcher

/-- The matchers that a request has for a field. -/
def HeaderMap.matchers (headers : HeaderMap) (name : HeaderName) : List EtagMatcher :=
  (((headers.get name).bind HeaderValue.toStr).map parseEtagMatchers).getD []

/-- The members of a field line. -/
def HeaderValue.members (value : HeaderValue) : List Bytes :=
  ListFields.members 44 (fun byte => byte = 32 || byte = 9) value.bytes

/-- The matchers that match a tag. -/
theorem weakMatches_iff {tag : String} {matcher : EtagMatcher} :
    matcher.weakMatches tag = true ↔ matcher.strongMatches tag = true ∨ matcher = .weak tag := by
  cases matcher <;> simp [EtagMatcher.strongMatches, EtagMatcher.weakMatches]

section

variable [HashSuite] {config : Config} {world : ValidatedWorldPath} {core : Core}
  {current : Option (Stage × String)}

end

end AuditeDB
