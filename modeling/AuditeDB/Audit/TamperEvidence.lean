import Mathlib
import AuditeDB.Audit.Signed

/-!
# Tamper evidence

Two audit tables that the verifier accepts and that share one HMAC agree on everything up to it. A chain head
or stamp that was remembered earlier therefore fixes the whole prefix before it.
-/

namespace AuditeDB

open Utf8 Results HashChain

/-- The headers of an event that have a name and a value, in the order of the audit statement. -/
def Database.namedHeaders (db : Database) (e : EventRecord) : List (SqlValue × SqlValue) :=
  ((db.sortedHeaders e).map fun row => (row.name, row.value)).filter fun h => h.1 ≠ .null && h.2 ≠ .null

/-- Two stored events of two tables that agree on all columns but the id and on their headers. -/
structure SameEvent (db₁ db₂ : Database) (e₁ e₂ : EventRecord) : Prop where
  timestamp : e₁.timestamp = e₂.timestamp
  eventType : e₁.eventType = e₂.eventType
  target : e₁.target = e₂.target
  bodySha256 : e₁.bodySha256 = e₂.bodySha256
  size : e₁.size = e₂.size
  contentType : e₁.contentType = e₂.contentType
  metaSha256 : e₁.metaSha256 = e₂.metaSha256
  prevHmac : e₁.prevHmac = e₂.prevHmac
  hmac : e₁.hmac = e₂.hmac
  headers : db₁.namedHeaders e₁ = db₂.namedHeaders e₂

/-- The byte strings that a walk over a table feeds to the HMAC. -/
def Database.hmacFed (db : Database) (world : ValidatedWorldPath) (generation : WorldGeneration) : Set Bytes :=
  {bytes | ∃ e ∈ db.eventsAsc, ∃ row timestamp, e.read = .ok row ∧
    AuditTimestamp.fromStorage row.timestamp = .ok timestamp ∧
    bytes = (row.hmacInput world generation row.prevHmac timestamp).bytes}

/-- The byte strings that a walk over a table feeds to the metadata digest. -/
def Database.sha256Fed (db : Database) : Set Bytes :=
  {bytes | ∃ e ∈ db.eventsAsc, ∃ event, db.decodeEvent e = .ok event ∧
    bytes = metaBytes event.1.contentType event.2}

/-- Decoded headers are the headers with a name and a value. -/
theorem decodeHeaders_named {headers decoded : Headers} {rows : List JoinedRow}
    (h : decodeHeaders headers rows = .ok decoded) :
    headers.map (Prod.map SqlValue.text SqlValue.text) ++
        (rows.map fun row => (row.name, row.value)).filter (fun h => h.1 ≠ .null && h.2 ≠ .null) =
      decoded.map (Prod.map SqlValue.text SqlValue.text) := by
  induction rows generalizing headers with
  | nil =>
    cases h
    simp
  | cons row rest ih =>
    rw [decodeHeaders, List.foldlM_cons] at h
    simp only [bind_eq_ok, pure_eq_ok, SqlValue.getOptionString_eq_ok] at h
    obtain ⟨_, ⟨name, hname, value, hvalue, rfl⟩, hrest⟩ := h
    rw [← ih hrest, List.map_cons, hname, hvalue]
    cases name <;> cases value <;> simp [pushHeader]

/-- The headers of a decoded event are its headers with a name and a value. -/
theorem Database.namedHeaders_of_decodeEvent {db : Database} {e : EventRecord} {event : EventRow × Headers}
    (h : db.decodeEvent e = .ok event) :
    db.namedHeaders e = event.2.map (Prod.map SqlValue.text SqlValue.text) := by
  simpa [Database.namedHeaders] using decodeHeaders_named (Database.decodeEvent_eq_ok.mp h).2

variable [HashSuite] {key : AuditHmacKey} {db₁ db₂ : Database} {world₁ world₂ : ValidatedWorldPath}
  {generation₁ generation₂ : WorldGeneration}

/-- Decoded events of two tables, and the worlds and generations of the tables, agree. -/
def SameDecoded (world₁ world₂ : ValidatedWorldPath) (generation₁ generation₂ : WorldGeneration)
    (a b : EventRow × Headers) : Prop :=
  world₁ = world₂ ∧ generation₁ = generation₂ ∧ a.1 = { b.1 with id := a.1.id } ∧ a.2 = b.2

/-- Without collisions, two signed events with one HMAC agree. -/
theorem SignedEvent.same {hmacs digests : Set Bytes}
    (hhmac : Set.InjOn (HashSuite.hmacSha256 key.bytes) hmacs) (hsha : Set.InjOn HashSuite.sha256 digests)
    {a b : EventRow × Headers} {kind₁ kind₂ : AuditEventKind} {t₁ t₂ : AuditTimestamp}
    (ha : SignedEvent key world₁ generation₁ a kind₁ t₁) (hb : SignedEvent key world₂ generation₂ b kind₂ t₂)
    (hfed₁ : (a.1.hmacInput world₁ generation₁ a.1.prevHmac t₁).bytes ∈ hmacs)
    (hfed₂ : (b.1.hmacInput world₂ generation₂ b.1.prevHmac t₂).bytes ∈ hmacs)
    (hmeta₁ : metaBytes a.1.contentType a.2 ∈ digests) (hmeta₂ : metaBytes b.1.contentType b.2 ∈ digests)
    (htag : eventTag a = eventTag b) : SameDecoded world₁ world₂ generation₁ generation₂ a b := by
  have hinput := eventHmac_inj hhmac hfed₁ hfed₂ (ha.signature.trans (htag.trans hb.signature.symm))
  have htime₁ := AuditTimestamp.fromStorage_eq_ok ha.time
  have htime₂ := AuditTimestamp.fromStorage_eq_ok hb.time
  simp only [EventRow.hmacInput, EventHmacInput.mk.injEq] at hinput
  obtain ⟨hprev, hworld, htime, htype, htarget, hgeneration, hbody, hsize, hcontent, hmeta⟩ := hinput
  have hdigest : metaSha256Canonical a.1.contentType a.2 = metaSha256Canonical b.1.contentType b.2 :=
    ha.metadata.trans (hmeta.trans hb.metadata.symm)
  refine ⟨hworld, hgeneration, ?_, (metaSha256Canonical_inj hsha hmeta₁ hmeta₂ hdigest).2⟩
  have htimestamp : a.1.timestamp = b.1.timestamp := by rw [← htime₁, ← htime₂, htime]
  cases a with | mk row headers => cases b with | mk row' headers' =>
    cases row
    cases row'
    simp_all [eventTag]

/-- Two tables have at least a number of events and agree on those. -/
def AgreeUpTo (db₁ db₂ : Database) (n : Nat) : Prop :=
  n ≤ db₁.eventsAsc.length ∧ n ≤ db₂.eventsAsc.length ∧
    ∀ i (h₁ : i < db₁.eventsAsc.length) (h₂ : i < db₂.eventsAsc.length), i < n →
      SameEvent db₁ db₂ (db₁.eventsAsc.get ⟨i, h₁⟩) (db₂.eventsAsc.get ⟨i, h₂⟩)

omit [HashSuite] in
/-- Stored events whose decoded forms agree agree. -/
theorem SameDecoded.sameEvent {e₁ e₂ : EventRecord} {a b : EventRow × Headers}
    (h : SameDecoded world₁ world₂ generation₁ generation₂ a b) (ha : db₁.decodeEvent e₁ = .ok a)
    (hb : db₂.decodeEvent e₂ = .ok b) : SameEvent db₁ db₂ e₁ e₂ := by
  obtain ⟨-, -, hrow, hheaders⟩ := h
  have hnamed : db₁.namedHeaders e₁ = db₂.namedHeaders e₂ := by
    rw [Database.namedHeaders_of_decodeEvent ha, Database.namedHeaders_of_decodeEvent hb, hheaders]
  rw [EventRecord.read_eq_ok.mp (Database.decodeEvent_eq_ok.mp ha).1, hrow] at hnamed ⊢
  rw [EventRecord.read_eq_ok.mp (Database.decodeEvent_eq_ok.mp hb).1] at hnamed ⊢
  exact ⟨rfl, rfl, rfl, rfl, rfl, rfl, rfl, rfl, rfl, hnamed⟩

/-- The byte strings of a decoded event are among those fed by the walk. -/
theorem SignedEvent.fed {db : Database} {world : ValidatedWorldPath} {generation : WorldGeneration}
    {decoded : List (EventRow × Headers)}
    (hdecoded : List.Forall₂ (fun e d => db.decodeEvent e = .ok d) db.eventsAsc decoded)
    {event : EventRow × Headers} (hevent : event ∈ decoded) {kind : AuditEventKind}
    {timestamp : AuditTimestamp} (h : SignedEvent key world generation event kind timestamp) :
    (event.1.hmacInput world generation event.1.prevHmac timestamp).bytes ∈ db.hmacFed world generation ∧
      metaBytes event.1.contentType event.2 ∈ db.sha256Fed := by
  obtain ⟨i, rfl⟩ := List.get_of_mem hevent
  have hi : i.val < db.eventsAsc.length := by rw [hdecoded.length_eq]; exact i.isLt
  have hread := hdecoded.get hi i.isLt
  exact ⟨⟨_, List.get_mem _ _, _, timestamp, (Database.decodeEvent_eq_ok.mp hread).1, h.time, rfl⟩,
    ⟨_, List.get_mem _ _, _, hread, rfl⟩⟩

/-- A table that decodes to a linked chain of signed events. -/
structure Database.DecodesTo (db : Database) (key : AuditHmacKey) (world : ValidatedWorldPath)
    (generation : WorldGeneration) (chain : List (EventRow × Headers)) : Prop where
  decoded : List.Forall₂ (fun e d => db.decodeEvent e = .ok d) db.eventsAsc chain
  linked : Linked eventTag eventPrev "" chain
  signed : ∀ event ∈ chain, ∃ kind timestamp, SignedEvent key world generation event kind timestamp

/-- The HMACs of a decoded chain are not empty. -/
theorem Database.DecodesTo.tag_ne {db : Database} {world : ValidatedWorldPath} {generation : WorldGeneration}
    {l : List (EventRow × Headers)} (h : db.DecodesTo key world generation l) :
    ∀ event ∈ l, eventTag event ≠ "" := by
  intro event hevent hempty
  obtain ⟨kind, timestamp, hsigned⟩ := h.signed event hevent
  exact eventHmac_ne_empty key _ (hsigned.signature.trans hempty)

/-- Without collisions, decoded chains that share an HMAC agree up to it. -/
theorem Database.DecodesTo.agree {l₁ l₂ : List (EventRow × Headers)}
    (h₁ : db₁.DecodesTo key world₁ generation₁ l₁) (h₂ : db₂.DecodesTo key world₂ generation₂ l₂)
    (hhmac : Set.InjOn (HashSuite.hmacSha256 key.bytes)
      (db₁.hmacFed world₁ generation₁ ∪ db₂.hmacFed world₂ generation₂))
    (hsha : Set.InjOn HashSuite.sha256 (db₁.sha256Fed ∪ db₂.sha256Fed)) {n m : Nat} (hn : n < l₁.length)
    (hm : m < l₂.length) (htag : eventTag l₁[n] = eventTag l₂[m]) :
    n = m ∧ world₁ = world₂ ∧ generation₁ = generation₂ ∧ AgreeUpTo db₁ db₂ (n + 1) := by
  have hlen₁ := h₁.decoded.length_eq
  have hlen₂ := h₂.decoded.length_eq
  have hsame : ∀ a ∈ l₁, ∀ b ∈ l₂, eventTag a = eventTag b →
      SameDecoded world₁ world₂ generation₁ generation₂ a b ∧ eventPrev a = eventPrev b := by
    intro a ha b hb htag
    obtain ⟨kind₁, t₁, hs₁⟩ := h₁.signed a ha
    obtain ⟨kind₂, t₂, hs₂⟩ := h₂.signed b hb
    obtain ⟨hhmac₁, hmeta₁⟩ := hs₁.fed h₁.decoded ha
    obtain ⟨hhmac₂, hmeta₂⟩ := hs₂.fed h₂.decoded hb
    have h := hs₁.same hhmac hsha hs₂ (.inl hhmac₁) (.inr hhmac₂) (.inl hmeta₁) (.inr hmeta₂) htag
    refine ⟨h, ?_⟩
    rw [eventPrev, h.2.2.1]
    rfl
  obtain ⟨rfl, hbefore⟩ := h₁.linked.agree h₂.linked h₁.tag_ne h₂.tag_ne hsame hn hm htag
  obtain ⟨hworld, hgeneration, -⟩ := hbefore n hn hm le_rfl
  refine ⟨rfl, hworld, hgeneration, by omega, by omega, fun i hi₁ hi₂ hi => ?_⟩
  exact (hbefore i (by omega) (by omega) (by omega)).sameEvent (h₁.decoded.get hi₁ (by omega))
    (h₂.decoded.get hi₂ (by omega))

end AuditeDB
