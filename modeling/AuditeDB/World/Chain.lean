import Mathlib
import AuditeDB.World.Log

/-!
# The tables of a rendered history

A database whose `events` and `event_headers` hold the rendered rows of a history, as the audit statements
read it.
-/

namespace AuditeDB

open Utf8 Results HashChain Sorting

/-- The stored headers of a rendered chain. -/
def headerRows (chain : List (EventRow × Headers)) : List EventHeaderRow :=
  chain.flatMap fun event => event.2.map fun h => ⟨.integer event.1.id, .text h.1, .text h.2⟩

/-- The audit tables hold the rendered rows of a history. -/
structure Database.HasChain [HashSuite] (db : Database) (key : AuditHmacKey) (world : ValidatedWorldPath)
    (generation : WorldGeneration) (entries : List LogEntry) : Prop where
  events : db.events = (render key world generation entries).map fun event => event.1.record
  headers : db.eventHeaders = headerRows (render key world generation entries)
  sequence : db.eventSequence = entries.length
  bounded : entries.length ≤ i64Max

/-- Rows with ascending ids. -/
def AscendingIds (chain : List (EventRow × Headers)) : Prop := chain.Pairwise fun a b => a.1.id < b.1.id

/-- Rows that are rendered from an id on have ascending ids. -/
theorem ascendingIds_renderFrom [HashSuite] {key : AuditHmacKey} {world : ValidatedWorldPath}
    {generation : WorldGeneration} (id : Int) (prev : String) (entries : List LogEntry) :
    (∀ event ∈ renderFrom key world generation id prev entries, id ≤ event.1.id) ∧
      AscendingIds (renderFrom key world generation id prev entries) := by
  induction entries generalizing id prev with
  | nil => exact ⟨fun _ h => (by cases h), .nil⟩
  | cons e rest ih =>
    obtain ⟨hle, hasc⟩ := ih (id + 1) (e.row key world generation id prev).hmac
    constructor
    · intro event hevent
      rcases List.mem_cons.mp hevent with rfl | hevent
      · exact le_rfl
      · exact (Int.le_add_one le_rfl).trans (hle event hevent)
    · exact List.pairwise_cons.mpr ⟨fun event hevent => Int.lt_of_add_one_le (hle event hevent), hasc⟩

/-- The rows of a history have ascending ids. -/
theorem ascendingIds_render [HashSuite] {key : AuditHmacKey} {world : ValidatedWorldPath}
    {generation : WorldGeneration} (entries : List LogEntry) :
    AscendingIds (render key world generation entries) := (ascendingIds_renderFrom 1 "" entries).2

/-- The stored headers of one event among those of a chain. -/
theorem filter_headerRows {chain : List (EventRow × Headers)} (hasc : AscendingIds chain)
    {event : EventRow × Headers} (hevent : event ∈ chain) :
    (headerRows chain).filter (·.eventId = .integer event.1.id) = headerRows [event] := by
  have hkeep (e : EventRow × Headers) :
      (headerRows [e]).filter (·.eventId = .integer e.1.id) = headerRows [e] := by
    rw [List.filter_eq_self]
    intro row hrow
    simp only [headerRows, List.flatMap_cons, List.flatMap_nil, List.append_nil, List.mem_map] at hrow
    obtain ⟨h, -, rfl⟩ := hrow
    simp
  have hdrop (l : List (EventRow × Headers)) (id : Int) (hne : ∀ e ∈ l, e.1.id ≠ id) :
      (headerRows l).filter (·.eventId = .integer id) = [] := by
    rw [List.filter_eq_nil_iff]
    intro row hrow
    obtain ⟨e, he, hrow⟩ := List.mem_flatMap.mp hrow
    obtain ⟨h, -, rfl⟩ := List.mem_map.mp hrow
    simpa using hne e he
  induction chain with
  | nil => cases hevent
  | cons first rest ih =>
    obtain ⟨hhead, htail⟩ := List.pairwise_cons.mp hasc
    rw [show headerRows (first :: rest) = headerRows [first] ++ headerRows rest by simp [headerRows],
      List.filter_append]
    rcases List.mem_cons.mp hevent with rfl | hevent
    · rw [hkeep, hdrop rest _ (fun e he => (hhead e he).ne'), List.append_nil]
    · rw [hdrop [first] _ (by simpa using (hhead event hevent).ne), ih htail hevent, List.nil_append]

/-- Joined rows of sorted text headers are in the order of the audit statement. -/
theorem joinedRows_sorted (e : EventRecord) {headers : Headers}
    (hsorted : headers.Pairwise fun a b => headerKey a ≤ headerKey b) :
    (headers.map fun h => (⟨e, .text h.1, .text h.2⟩ : JoinedRow)).Pairwise
      fun a b => a.headerKey ≤ b.headerKey := by
  rw [List.pairwise_map]
  refine hsorted.imp fun {a b} hab => ?_
  rw [headerKey, headerKey, Prod.Lex.toLex_le_toLex] at hab
  rw [JoinedRow.headerKey, JoinedRow.headerKey, Prod.Lex.toLex_le_toLex]
  refine hab.imp SqlValue.sortKey_text_lt.mpr fun ⟨hname, hvalue⟩ => ⟨?_, SqlValue.sortKey_text_le.mpr hvalue⟩
  rw [utf8Bytes_injective (SqlValue.octets_injective hname)]

/-- Text headers decode to themselves. -/
theorem decodeHeaders_text (e : EventRecord) (before headers : Headers) :
    decodeHeaders before (headers.map fun h => ⟨e, .text h.1, .text h.2⟩) = .ok (before ++ headers) := by
  induction headers generalizing before with
  | nil => simp [decodeHeaders, pure, Except.pure]
  | cons h rest ih =>
    rw [List.map_cons, decodeHeaders, List.foldlM_cons]
    have hrest := ih (before ++ [(h.1, h.2)])
    rw [decodeHeaders] at hrest
    simpa [SqlValue.getOptionString, SqlValue.getString, Except.map, pushHeader, bind, Except.bind, pure,
      Except.pure] using hrest

/-- The audit tables hold the rows of a chain with ascending ids and sorted headers. -/
structure Database.StoresChain (db : Database) (chain : List (EventRow × Headers)) : Prop where
  events : db.events = chain.map fun event => event.1.record
  headers : db.eventHeaders = headerRows chain
  ascending : AscendingIds chain
  sorted : ∀ event ∈ chain, event.2.Pairwise fun a b => headerKey a ≤ headerKey b

namespace Database.StoresChain

variable {db : Database} {chain : List (EventRow × Headers)}

/-- The stored rows have ascending ids. -/
theorem eventsAscending (h : db.StoresChain chain) : db.events.Pairwise fun a b => a.id < b.id := by
  rw [h.events, List.pairwise_map]
  exact h.ascending

/-- Row ids are unique. -/
theorem uniqueIds (h : db.StoresChain chain) : db.UniqueIds := by
  rw [Database.UniqueIds, List.Nodup, List.pairwise_map]
  exact h.eventsAscending.imp fun hlt => hlt.ne

/-- The rows are stored in ascending order. -/
theorem eventsAsc_eq (h : db.StoresChain chain) : db.eventsAsc = db.events :=
  (h.eventsAscending.imp fun hlt => hlt.le).insertionSort_eq

/-- The descending order is the reverse of the stored one. -/
theorem eventsDesc_eq (h : db.StoresChain chain) : db.eventsDesc = db.events.reverse :=
  insertionSort_eq_reverse (h.eventsAscending.imp fun hlt => not_le.mpr hlt)

/-- The joined rows of a stored event decode to it. -/
theorem decodeEvent_eq (h : db.StoresChain chain) {event : EventRow × Headers} (hevent : event ∈ chain) :
    db.decodeEvent event.1.record = .ok event := by
  have hsorted := h.sorted event hevent
  have hfilter : db.eventHeaders.filter (·.eventId = .integer event.1.id) = headerRows [event] := by
    rw [h.headers, filter_headerRows h.ascending hevent]
  refine Database.decodeEvent_eq_ok.mpr ⟨rfl, ?_⟩
  have hrecord : event.1.record.id = event.1.id := rfl
  unfold Database.sortedHeaders Database.joinHeaders
  rw [hrecord, hfilter]
  cases hheaders : event.2 with
  | nil => simp [headerRows, hheaders, decodeHeaders, SqlValue.getOptionString, pushHeader, bind, Except.bind,
      pure, Except.pure]
  | cons first rest =>
    rw [hheaders] at hsorted
    have hjoined := joinedRows_sorted event.1.record hsorted
    have hdecode := decodeHeaders_text event.1.record [] (first :: rest)
    simp only [headerRows, List.flatMap_cons, List.flatMap_nil, List.append_nil, hheaders, List.map_cons,
      List.map_map]
    rw [List.map_cons] at hjoined hdecode
    rw [show (fun h : EventHeaderRow => (⟨event.1.record, h.name, h.value⟩ : JoinedRow)) ∘
      (fun h : String × String => (⟨.integer event.1.id, .text h.1, .text h.2⟩ : EventHeaderRow)) =
      fun h => ⟨event.1.record, .text h.1, .text h.2⟩ from rfl, hjoined.insertionSort_eq]
    exact hdecode

/-- The stored rows decode to the chain. -/
theorem decode (h : db.StoresChain chain) :
    List.Forall₂ (fun e d => db.decodeEvent e = .ok d) db.eventsAsc chain := by
  rw [h.eventsAsc_eq, h.events, List.forall₂_map_left_iff, List.forall₂_same]
  exact fun event hevent => h.decodeEvent_eq hevent

/-- The newest stored HMAC is the newest one of the chain. -/
theorem latestHmac_eq (h : db.StoresChain chain) : latestHmac db = .ok (chain.getLast?.map eventTag) := by
  unfold latestHmac
  rw [h.eventsDesc_eq, List.head?_reverse, h.events, List.getLast?_map]
  cases chain.getLast? <;> rfl

end Database.StoresChain

namespace Database.HasChain

variable [HashSuite] {db : Database} {key : AuditHmacKey} {world : ValidatedWorldPath}
  {generation : WorldGeneration} {entries : List LogEntry}

/-- A stored history is a stored chain. -/
theorem stores (h : db.HasChain key world generation entries) :
    db.StoresChain (render key world generation entries) := by
  refine ⟨h.events, h.headers, ascendingIds_render entries, fun event hevent => ?_⟩
  obtain ⟨i, hi, prev, rfl⟩ := mem_render hevent
  exact entries[i].sorted

/-- The stored rows have ascending ids. -/
theorem ascending (h : db.HasChain key world generation entries) :
    db.events.Pairwise fun a b => a.id < b.id := h.stores.eventsAscending

/-- Row ids are unique. -/
theorem uniqueIds (h : db.HasChain key world generation entries) : db.UniqueIds := h.stores.uniqueIds

/-- The rows are stored in ascending order. -/
theorem eventsAsc_eq (h : db.HasChain key world generation entries) : db.eventsAsc = db.events :=
  h.stores.eventsAsc_eq

/-- The descending order is the reverse of the stored one. -/
theorem eventsDesc_eq (h : db.HasChain key world generation entries) : db.eventsDesc = db.events.reverse :=
  h.stores.eventsDesc_eq

/-- The joined rows of a rendered event decode to it. -/
theorem decodeEvent_eq (h : db.HasChain key world generation entries) {event : EventRow × Headers}
    (hevent : event ∈ render key world generation entries) :
    db.decodeEvent event.1.record = .ok event := h.stores.decodeEvent_eq hevent

/-- The stored rows decode to the rendered chain. -/
theorem decode (h : db.HasChain key world generation entries) :
    List.Forall₂ (fun e d => db.decodeEvent e = .ok d) db.eventsAsc (render key world generation entries) :=
  h.stores.decode

/-- The newest stored HMAC is the newest one of the history. -/
theorem latestHmac_eq (h : db.HasChain key world generation entries) :
    latestHmac db = .ok ((render key world generation entries).getLast?.map eventTag) := h.stores.latestHmac_eq

/-- The next row id is one above the number of events. -/
theorem nextEventId_eq (h : db.HasChain key world generation entries) :
    db.nextEventId = entries.length + 1 := by
  unfold Database.nextEventId Database.maxEventId
  rw [h.eventsDesc_eq, List.head?_reverse, h.events, List.getLast?_map, h.sequence]
  cases hlast : (render key world generation entries).getLast? with
  | none => simp
  | some event =>
    obtain ⟨i, hi, prev, rfl⟩ := mem_render (List.mem_of_getLast? hlast)
    simp only [Option.map_some, EventRow.record, LogEntry.row]
    omega

end Database.HasChain

/-- The event that `append_tx_inner` records. -/
def newEntry (timestamp : AuditTimestamp) (kind : AuditEventKind) (target : ValidatedWorldPath)
    (bodySha256 : BodySha256) (size : Int) (contentType : String) (headers : Headers)
    (content : Option Bytes) : LogEntry :=
  ⟨timestamp, kind, target, bodySha256, size, contentType, canonicalHeaders headers,
    canonicalHeaders_sorted headers, content⟩

/-- Two databases that differ at most in their audit tables. -/
def Database.SameOutsideChain (db db' : Database) : Prop :=
  db' = { db with
    events := db'.events, eventHeaders := db'.eventHeaders, eventSequence := db'.eventSequence }

/-- A signed row extends the history by one event and changes nothing else. -/
theorem appendTxInner_spec [HashSuite] {audit : VerifiedAuditTx} {clock : String} {kind : AuditEventKind}
    {target : ValidatedWorldPath} {bodySha256 : BodySha256} {size : Int} {contentType : String}
    {headers : Headers} {db db' : Database} {row : AppendedAuditRow} {entries : List LogEntry}
    (hchain : db.HasChain audit.key audit.world audit.generation entries)
    (h : appendTxInner audit clock kind target bodySha256 size contentType headers db = .ok (row, db'))
    (content : Option Bytes) :
    ∃ timestamp, let e := newEntry timestamp kind target bodySha256 size contentType headers content
      db'.HasChain audit.key audit.world audit.generation (entries ++ [e]) ∧ db.SameOutsideChain db' ∧
        row.id.get = entries.length + 1 ∧
        row = ⟨audit.world, row.id, chainHead audit.key audit.world audit.generation (entries ++ [e]),
          audit.generation, kind, target, bodySha256, size, contentType⟩ := by
  have hprev : ((render audit.key audit.world audit.generation entries).getLast?.map eventTag).getD "" =
      chainHead audit.key audit.world audit.generation entries := rfl
  unfold appendTxInner at h
  simp only [bind_eq_ok, mapError_eq_ok, pure_eq_ok, hchain.latestHmac_eq, Except.ok.injEq, exists_eq_left',
    Database.insertEvent, rejectIf_eq_ok, hchain.nextEventId_eq, hprev] at h
  obtain ⟨timestamp, -, ⟨id, inserted⟩, ⟨-, hbound, hinserted⟩, seq, hseq, hresult⟩ := h
  cases hinserted
  cases hresult
  have hrendered : render audit.key audit.world audit.generation
      (entries ++ [newEntry timestamp kind target bodySha256 size contentType headers content]) = _ :=
    render_append entries _
  refine ⟨timestamp, ⟨?_, ?_, ?_, ?_⟩, rfl, TimelineSeq.new_eq_ok hseq, ?_⟩
  · rw [hrendered, List.map_append, ← hchain.events]
    rfl
  · rw [hrendered, headerRows, List.flatMap_append, ← headerRows, ← hchain.headers]
    simp [Database.insertEventHeaders, newEntry, LogEntry.row]
  · simp [Database.insertEventHeaders]
  · rw [List.length_append, List.length_singleton]
    omega
  · rw [chainHead_append]
    rfl

end AuditeDB
