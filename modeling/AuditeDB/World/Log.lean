import Mathlib
import AuditeDB.Audit.Accepts
import AuditeDB.Audit.Gate

/-!
# The history of a world

What a world database is for: a generation and a list of events, each with the body that it left behind. The
rendered chain of a history is linked and signed.
-/

namespace AuditeDB

open Utf8 Results HashChain

/-- One event of a history. A body event has the body that is current after it. -/
structure LogEntry where
  timestamp : AuditTimestamp
  kind : AuditEventKind
  target : ValidatedWorldPath
  bodySha256 : BodySha256
  size : Int
  contentType : String
  headers : Headers
  sorted : headers.Pairwise fun a b => headerKey a ≤ headerKey b
  content : Option Bytes

/-- The body that is current after a list of events. -/
def bodyAfter (entries : List LogEntry) : Bytes := ((entries.filterMap LogEntry.content).getLast?).getD []

/-- Canonical headers are sorted. -/
theorem canonicalHeaders_sorted (headers : Headers) :
    (canonicalHeaders headers).Pairwise fun a b => headerKey a ≤ headerKey b := by
  have htotal : Std.Total fun a b : String × String => headerKey a ≤ headerKey b :=
    ⟨fun a b => le_total (headerKey a) (headerKey b)⟩
  have htrans : IsTrans (String × String) fun a b => headerKey a ≤ headerKey b := ⟨fun _ _ _ => le_trans⟩
  exact List.pairwise_insertionSort _ _

section

variable [HashSuite] (key : AuditHmacKey) (world : ValidatedWorldPath) (generation : WorldGeneration)

/-- The signed row of an event at an id after a given HMAC. -/
def LogEntry.row (e : LogEntry) (id : Int) (prev : String) : EventRow where
  id := id
  timestamp := e.timestamp.text
  eventType := e.kind.asStr
  target := e.target.name
  bodySha256 := e.bodySha256.text
  size := e.size
  contentType := e.contentType
  metaSha256 := metaSha256Canonical e.contentType e.headers
  hmac := eventHmac key ⟨prev, world, e.timestamp, e.kind.asStr, e.target.name, generation, e.bodySha256.text,
    e.size, e.contentType, metaSha256Canonical e.contentType e.headers⟩
  prevHmac := prev

/-- The rendered chain of a list of events from an id and an HMAC on. -/
def renderFrom : Int → String → List LogEntry → List (EventRow × Headers)
  | _, _, [] => []
  | id, prev, e :: rest =>
    let row := e.row key world generation id prev
    (row, e.headers) :: renderFrom (id + 1) row.hmac rest

/-- The rendered chain of a history. -/
def render (entries : List LogEntry) : List (EventRow × Headers) := renderFrom key world generation 1 "" entries

/-- The newest HMAC after a list of events. -/
def headFrom (prev : String) (chain : List (EventRow × Headers)) : String :=
  (chain.getLast?.map eventTag).getD prev

/-- The newest HMAC of a history. -/
def chainHead (entries : List LogEntry) : String := headFrom "" (render key world generation entries)

variable {key world generation}

/-- Every event has one row. -/
@[simp] theorem length_renderFrom (id : Int) (prev : String) (entries : List LogEntry) :
    (renderFrom key world generation id prev entries).length = entries.length := by
  induction entries generalizing id prev with
  | nil => rfl
  | cons e rest ih => simp [renderFrom, ih]

/-- Every event of a history has one row. -/
@[simp] theorem length_render (entries : List LogEntry) :
    (render key world generation entries).length = entries.length := length_renderFrom ..

/-- A new event is rendered behind the rows of the others. -/
theorem renderFrom_append (id : Int) (prev : String) (entries : List LogEntry) (e : LogEntry) :
    renderFrom key world generation id prev (entries ++ [e]) =
      renderFrom key world generation id prev entries ++
        [(e.row key world generation (id + entries.length)
          (headFrom prev (renderFrom key world generation id prev entries)), e.headers)] := by
  induction entries generalizing id prev with
  | nil => simp [renderFrom, headFrom]
  | cons first rest ih =>
    have hhead (row : EventRow × Headers) (chain : List (EventRow × Headers)) :
        headFrom prev (row :: chain) = headFrom (eventTag row) chain := by
      cases chain with
      | nil => rfl
      | cons second chain =>
        rw [headFrom, headFrom, List.getLast?_cons_cons, List.getLast?_eq_some_getLast (by simp)]
        rfl
    rw [List.cons_append, renderFrom, ih, renderFrom, List.cons_append, hhead]
    simp only [List.length_cons, Nat.cast_add, Nat.cast_one, eventTag]
    rw [show id + ((rest.length : Int) + 1) = id + 1 + rest.length by omega]

/-- A new event of a history is rendered behind the rows of the others. -/
theorem render_append (entries : List LogEntry) (e : LogEntry) :
    render key world generation (entries ++ [e]) =
      render key world generation entries ++
        [(e.row key world generation (entries.length + 1) (chainHead key world generation entries),
          e.headers)] := by
  rw [render, renderFrom_append, add_comm]
  rfl

/-- The newest HMAC of a history that ends in an event is the HMAC of its row. -/
theorem chainHead_append (entries : List LogEntry) (e : LogEntry) :
    chainHead key world generation (entries ++ [e]) =
      (e.row key world generation (entries.length + 1) (chainHead key world generation entries)).hmac := by
  rw [chainHead, render_append, headFrom, List.getLast?_append]
  rfl

/-- The rows of a history are those of its events, with ascending ids. -/
theorem render_get (entries : List LogEntry) {i : Nat} (hi : i < entries.length) :
    ∃ prev, (render key world generation entries)[i]? =
      some (entries[i].row key world generation (i + 1) prev, entries[i].headers) := by
  suffices h : ∀ (id : Int) (prev : String), ∃ prev',
      (renderFrom key world generation id prev entries)[i]? =
        some (entries[i].row key world generation (id + i) prev', entries[i].headers) by
    obtain ⟨prev, h⟩ := h 1 ""
    exact ⟨prev, by rw [render, h, add_comm]⟩
  intro id prev
  induction entries generalizing i id prev with
  | nil => cases hi
  | cons e rest ih =>
    cases i with
    | zero => exact ⟨prev, by simp [renderFrom]⟩
    | succ i =>
      obtain ⟨prev', h⟩ := ih (by simpa using hi) (id + 1) _
      refine ⟨prev', ?_⟩
      rw [renderFrom, List.getElem?_cons_succ, h, List.getElem_cons_succ]
      congr 3
      push_cast
      omega

/-- A row of a history is the row of an event at its position. -/
theorem mem_render {entries : List LogEntry} {event : EventRow × Headers}
    (h : event ∈ render key world generation entries) :
    ∃ i, ∃ hi : i < entries.length, ∃ prev,
      event = (entries[i].row key world generation (i + 1) prev, entries[i].headers) := by
  obtain ⟨i, hi⟩ := List.mem_iff_getElem?.mp h
  have hlt : i < entries.length := by
    have hlength : (render key world generation entries).length = entries.length := length_render entries
    exact hlength ▸ (List.getElem?_eq_some_iff.mp hi).1
  obtain ⟨prev, hget⟩ := render_get entries hlt
  exact ⟨i, hlt, prev, Option.some.inj (hi.symm.trans hget)⟩

/-- A row that is rendered from an id on is the row of an event. -/
theorem mem_renderFrom {id : Int} {prev : String} {entries : List LogEntry} {event : EventRow × Headers}
    (h : event ∈ renderFrom key world generation id prev entries) :
    ∃ e ∈ entries, ∃ id' prev', event = (e.row key world generation id' prev', e.headers) := by
  induction entries generalizing id prev with
  | nil => cases h
  | cons e rest ih =>
    rcases List.mem_cons.mp h with rfl | h
    · exact ⟨e, List.mem_cons_self .., id, prev, rfl⟩
    · obtain ⟨e', he', hrow⟩ := ih h
      exact ⟨e', List.mem_cons_of_mem _ he', hrow⟩

/-- Rows that are rendered from an id on are linked. -/
theorem linked_renderFrom (id : Int) (prev : String) (entries : List LogEntry) :
    Linked eventTag eventPrev prev (renderFrom key world generation id prev entries) := by
  induction entries generalizing id prev with
  | nil => trivial
  | cons e rest ih => exact ⟨rfl, ih _ _⟩

/-- The rendered chain is linked. -/
theorem linked_render (entries : List LogEntry) :
    Linked eventTag eventPrev "" (render key world generation entries) := linked_renderFrom 1 "" entries

/-- An event that the engine may record in the chain of a world. -/
structure LogEntry.Valid (world : ValidatedWorldPath) (e : LogEntry) : Prop where
  target : e.kind.bodyBearing = true ∨ e.kind = .format → e.target = world
  version : e.kind = .format → hasFormatVersion e.headers = true
  bearing : e.kind.bodyBearing = true ↔ e.content.isSome = true
  body : ∀ body ∈ e.content, e.bodySha256 = .forBody body ∧ e.size = body.length ∧ body.length ≤ i64Max
  subject : e.kind.isDelete = true →
    ∃ proof, deleteSubjectProofFromHeaders e.target e.bodySha256 e.headers = .ok proof

/-- The row of a valid event is signed. -/
theorem LogEntry.Valid.signed {e : LogEntry} (h : e.Valid world) (id : Int) (prev : String) :
    SignedEvent key world generation (e.row key world generation id prev, e.headers) e.kind e.timestamp where
  known := AuditEventKind.fromStorage_asStr e.kind
  target hkind := congrArg ValidatedWorldPath.name (h.target hkind).symm
  version := h.version
  subject idx := by
    unfold verifyDeleteSubjectProof
    cases hdelete : e.kind.isDelete with
    | false => rfl
    | true =>
      obtain ⟨proof, hproof⟩ := h.subject hdelete
      simp [LogEntry.row, hproof, Except.mapError, bind, Except.bind, pure, Except.pure]
  metadata := rfl
  time := AuditTimestamp.fromStorage_text e.timestamp
  signature := rfl

/-- The rows of a history of valid events are signed. -/
theorem signed_render {entries : List LogEntry} (hvalid : ∀ e ∈ entries, e.Valid world) :
    ∀ event ∈ render key world generation entries,
      ∃ kind timestamp, SignedEvent key world generation event kind timestamp := by
  intro event hevent
  obtain ⟨i, hi, prev, rfl⟩ := mem_render hevent
  exact ⟨_, _, (hvalid _ (List.getElem_mem hi)).signed _ prev⟩

end

end AuditeDB
