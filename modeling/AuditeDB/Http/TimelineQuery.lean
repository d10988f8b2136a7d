import Mathlib
import AuditeDB.WorldPath
import AuditeDB.World.Dereference

/-!
# Timeline queries

A read is a read of the current state or of a timeline coordinate, decided by the query of its URL. The query is
classified in one pass that keeps the timeline fields it saw and a few flags. A query that names any timeline field
is either the four fields of a coordinate or an error.
-/

namespace AuditeDB

open Utf8 Results Percent Lexemes

/-- `InvalidTimelineCoordinate`. -/
inductive InvalidTimelineCoordinate where
  | worldPath (reason : String) | memoryWorld | generationWrongLength | generationNotLowerHex | seqNonPositive
  | bodySha256WrongLength | bodySha256NotLowerHex
deriving DecidableEq

/-- `TimelineCoordinate::from_wire_parts`. -/
def TimelineCoordinate.fromWireParts (world generation : String) (seq : Int) (bodySha256 : String) :
    Except InvalidTimelineCoordinate TimelineCoordinate := do
  let world ← (ValidatedWorldPath.fromCanonical world).mapError .worldPath
  rejectIf (isMemoryWorld world) .memoryWorld
  let gen ← (WorldGeneration.new generation).mapError fun reason =>
    if reason = "WrongLength" then .generationWrongLength else .generationNotLowerHex
  let seq ← (TimelineSeq.new seq).mapError fun _ => .seqNonPositive
  let bodySha256 ← (BodySha256.new bodySha256).mapError fun reason =>
    if reason = "WrongLength" then .bodySha256WrongLength else .bodySha256NotLowerHex
  return ⟨world, gen, seq, bodySha256⟩

/-- `MAX_RAW_QUERY_BYTES`. -/
def maxRawQueryBytes : Nat := 8192

/-- `TIMELINE_NAMESPACE_PAIR_LIMIT`. -/
def timelineNamespacePairLimit : Nat := 8

/-- `TimelineRequestMode`. -/
inductive TimelineRequestMode where
  | current
  | timeline (coordinate : TimelineCoordinate)
deriving DecidableEq

/-- `TimelineQueryError`. -/
inductive TimelineQueryError where
  | rawQueryTooLong | malformedPercentEncoding | malformedUtf8 | tooManyTimelineFields
  | timelineCoordinateRequiresMode | invalidTimelineMode | duplicateTimelineMode | missingTimelineCoordinateField
  | duplicateTimelineCoordinateField | unknownTimelineCoordinateField | unsupportedTimelineQueryField
  | timelineWorldComesFromPath | timelineSeqNotInteger | timelineSeqOutOfRange
  | invalidTimelineCoordinate (reason : InvalidTimelineCoordinate)
deriving DecidableEq

/-- `TimelineFields`: what the pass over the pairs has seen. -/
structure TimelineFields where
  mode : Option String
  generation : Option String
  seq : Option String
  bodySha256 : Option String
  sawTimelineField : Bool
  sawUnknownTimelineField : Bool
  sawTimelineWorld : Bool
  sawUnsupportedField : Bool
  sawPreTimelineOrdinaryField : Bool
  timelineNamespacePairs : Nat
deriving DecidableEq

/-- `TimelineFields::default`. -/
def TimelineFields.default : TimelineFields := ⟨none, none, none, none, false, false, false, false, false, 0⟩

/-- `hex_value`. -/
def queryHexValue (byte : UInt8) : Except TimelineQueryError UInt8 :=
  requireSome .malformedPercentEncoding (hexValue byte)

/-- The loop of `decode_query_component`. -/
def decodeQueryBytes : Bytes → Except TimelineQueryError Bytes
  | byte :: high :: low :: rest =>
    if byte = 37 then do
      let hi ← queryHexValue high
      let lo ← queryHexValue low
      let out ← decodeQueryBytes rest
      return (hi * 16 + lo) :: out
    else do
      let out ← decodeQueryBytes (high :: low :: rest)
      return byte :: out
  | byte :: rest =>
    if byte = 37 then .error .malformedPercentEncoding
    else do
      let out ← decodeQueryBytes rest
      return byte :: out
  | [] => .ok []

/-- `decode_query_component`. -/
def decodeQueryComponent (raw : List Char) : Except TimelineQueryError String := do
  let out ← decodeQueryBytes (utf8Bytes (String.ofList raw))
  requireSome .malformedUtf8 (fromUtf8 out)

/-- `set_once`. -/
def setOnce (slot : Option String) (value : String) (duplicateError : TimelineQueryError) :
    Except TimelineQueryError (Option String) :=
  if slot.isSome then .error duplicateError else .ok (some value)

/-- The keys of the timeline namespace. -/
def isTimelineKey (key : String) : Bool := key = "timeline" || startsWith key "timeline-"

/-- The flags and the count that a pair sets in `classify_raw_query`. -/
def TimelineFields.flag (fields : TimelineFields) (key : String) : Except TimelineQueryError TimelineFields := do
  let timelineKey := isTimelineKey key
  let inTimelineNamespace := fields.sawTimelineField || timelineKey
  let fields := { fields with
    sawPreTimelineOrdinaryField := fields.sawPreTimelineOrdinaryField || (!fields.sawTimelineField && !timelineKey) }
  let fields := if inTimelineNamespace then
    { fields with timelineNamespacePairs := fields.timelineNamespacePairs + 1 } else fields
  rejectIf (inTimelineNamespace && timelineNamespacePairLimit < fields.timelineNamespacePairs)
    .tooManyTimelineFields
  return if timelineKey then { fields with sawTimelineField := true }
    else if fields.sawTimelineField then { fields with sawUnsupportedField := true }
    else fields

/-- The slot that a pair fills in `classify_raw_query`. -/
def TimelineFields.store (fields : TimelineFields) (key value : String) :
    Except TimelineQueryError TimelineFields :=
  if key = "timeline" then do
    let mode ← setOnce fields.mode value .duplicateTimelineMode
    return { fields with mode }
  else if key = "timeline-generation" then do
    let generation ← setOnce fields.generation value .duplicateTimelineCoordinateField
    return { fields with generation }
  else if key = "timeline-seq" then do
    let seq ← setOnce fields.seq value .duplicateTimelineCoordinateField
    return { fields with seq }
  else if key = "timeline-body-sha256" then do
    let bodySha256 ← setOnce fields.bodySha256 value .duplicateTimelineCoordinateField
    return { fields with bodySha256 }
  else if key = "timeline-world" then .ok { fields with sawTimelineWorld := true }
  else if startsWith key "timeline-" then .ok { fields with sawUnknownTimelineField := true }
  else .ok fields

/-- The key and the value of a raw pair. -/
def splitPair (rawPair : List Char) : List Char × List Char := (splitOnce '=' rawPair).getD (rawPair, [])

/-- The decoded key and value of a raw pair. -/
def decodePair (rawPair : List Char) : Except TimelineQueryError (String × String) := do
  let (rawKey, rawValue) := splitPair rawPair
  let key ← decodeQueryComponent rawKey
  let value ← decodeQueryComponent rawValue
  return (key, value)

/-- One round of the loop of `classify_raw_query`. -/
def TimelineFields.take (fields : TimelineFields) (rawPair : List Char) :
    Except TimelineQueryError TimelineFields := do
  let (key, value) ← decodePair rawPair
  let fields ← fields.flag key
  fields.store key value

/-- `parse_timeline_seq`. -/
def parseTimelineSeq (raw : String) : Except TimelineQueryError Int :=
  (parseInt i64Range raw.toList).mapError fun
    | .posOverflow | .negOverflow => .timelineSeqOutOfRange
    | .empty | .invalidDigit => .timelineSeqNotInteger

/-- `finish_classification`. -/
def finishClassification (fields : TimelineFields) (world : ValidatedWorldPath) :
    Except TimelineQueryError TimelineRequestMode :=
  if fields.sawTimelineField = false then .ok .current
  else do
    let mode ← requireSome .timelineCoordinateRequiresMode fields.mode
    rejectIf (mode ≠ "1") .invalidTimelineMode
    rejectIf fields.sawTimelineWorld .timelineWorldComesFromPath
    rejectIf fields.sawUnknownTimelineField .unknownTimelineCoordinateField
    rejectIf (fields.sawUnsupportedField || fields.sawPreTimelineOrdinaryField) .unsupportedTimelineQueryField
    let generation ← requireSome .missingTimelineCoordinateField fields.generation
    let seq ← requireSome .missingTimelineCoordinateField fields.seq
    let bodySha256 ← requireSome .missingTimelineCoordinateField fields.bodySha256
    let seq ← parseTimelineSeq seq
    let coordinate ← (TimelineCoordinate.fromWireParts world.name generation seq bodySha256).mapError
      .invalidTimelineCoordinate
    return .timeline coordinate

/-- `classify_raw_query`. -/
def classifyRawQuery (raw : Option String) (world : ValidatedWorldPath) :
    Except TimelineQueryError TimelineRequestMode :=
  match raw with
  | none => .ok .current
  | some raw => do
    rejectIf (maxRawQueryBytes < (utf8Bytes raw).length) .rawQueryTooLong
    let fields ← (raw.toList.splitOn '&').foldlM TimelineFields.take TimelineFields.default
    finishClassification fields world

/-- A component of a query stands for a text: its escapes are well formed and decode to the bytes of the text. -/
def ComponentDecodes (raw : List Char) (text : String) : Prop :=
  WellEscaped (utf8Bytes (String.ofList raw)) ∧ decode (String.ofList raw) = some text

/-- A raw pair stands for a key and a value. -/
def PairDecodes (rawPair : List Char) (pair : String × String) : Prop :=
  ComponentDecodes (splitPair rawPair).1 pair.1 ∧ ComponentDecodes (splitPair rawPair).2 pair.2

/-- A query within the length limit stands for a list of keys and values. -/
structure QueryPairs (query : String) (pairs : List (String × String)) : Prop where
  short : (utf8Bytes query).length ≤ maxRawQueryBytes
  decodes : List.Forall₂ PairDecodes (query.toList.splitOn '&') pairs

/-- A request without a query, or with one that names no timeline field. -/
def CurrentQuery (raw : Option String) : Prop :=
  ∀ query ∈ raw, ∃ pairs, QueryPairs query pairs ∧ ∀ pair ∈ pairs, isTimelineKey pair.1 = false

/-- The four fields of a coordinate. -/
def coordinatePairs (generation seq bodySha256 : String) : List (String × String) :=
  [("timeline", "1"), ("timeline-generation", generation), ("timeline-seq", seq), ("timeline-body-sha256", bodySha256)]

/-- A request whose query has exactly the four fields of a coordinate, in any order. -/
def TimelineQuery (raw : Option String) (world : ValidatedWorldPath) (coordinate : TimelineCoordinate) : Prop :=
  ∃ query ∈ raw, ∃ pairs generation seq bodySha256 value, QueryPairs query pairs ∧
    pairs.Perm (coordinatePairs generation seq bodySha256) ∧ parseInt i64Range seq.toList = .ok value ∧
    TimelineCoordinate.fromWireParts world.name generation value bodySha256 = .ok coordinate

/-- A byte that is no `%` passes. -/
theorem decodeQueryBytes_cons_of_ne {byte : UInt8} (hbyte : byte ≠ 37) (rest : Bytes) :
    decodeQueryBytes (byte :: rest) = (do
      let out ← decodeQueryBytes rest
      return byte :: out) := by
  match rest with
  | [] => rw [decodeQueryBytes, if_neg hbyte]; simp
  | [_] => rw [decodeQueryBytes, if_neg hbyte]; simp
  | high :: low :: rest => rw [decodeQueryBytes, if_neg hbyte]

/-- The strict decoder accepts exactly the well-formed escapes and decodes them as the tolerant one does. -/
theorem decodeQueryBytes_eq_ok {bytes out : Bytes} :
    decodeQueryBytes bytes = .ok out ↔ WellEscaped bytes ∧ decodeBytes bytes = out := by
  have hplain : ∀ {byte : UInt8} {rest out : Bytes}, byte ≠ 37 →
      (∀ {out : Bytes}, decodeQueryBytes rest = .ok out ↔ WellEscaped rest ∧ decodeBytes rest = out) →
      (decodeQueryBytes (byte :: rest) = .ok out ↔ WellEscaped (byte :: rest) ∧ decodeBytes (byte :: rest) = out) := by
    intro byte rest out hbyte ih
    simp only [decodeQueryBytes_cons_of_ne hbyte, bind_eq_ok, pure_eq_ok, ih, decodeBytes_cons_of_ne hbyte]
    constructor
    · rintro ⟨decoded, ⟨hrest, rfl⟩, rfl⟩
      exact ⟨.plain hbyte hrest, rfl⟩
    · rintro ⟨hescaped, rfl⟩
      cases hescaped with
      | plain _ hrest => exact ⟨_, ⟨hrest, rfl⟩, rfl⟩
      | escape => exact absurd rfl hbyte
  induction bytes using decodeQueryBytes.induct generalizing out with
  | case1 high low rest ih =>
    simp only [decodeQueryBytes, if_true, bind_eq_ok, queryHexValue, requireSome_eq_ok, pure_eq_ok, ih]
    constructor
    · rintro ⟨h, hhigh, l, hlow, decoded, ⟨hrest, rfl⟩, rfl⟩
      exact ⟨.escape hhigh hlow hrest, decodeBytes_escape hhigh hlow rest⟩
    · rintro ⟨hescaped, rfl⟩
      cases hescaped with
      | plain hbyte _ => exact absurd rfl hbyte
      | escape hhigh hlow hrest =>
        exact ⟨_, hhigh, _, hlow, _, ⟨hrest, rfl⟩, (decodeBytes_escape hhigh hlow rest).symm⟩
  | case2 byte high low rest hbyte ih => exact hplain hbyte ih
  | case3 rest hrest =>
    -- Fewer than two bytes follow the last escape.
    refine iff_of_false (fun h => ?_) fun h => ?_
    · rw [decodeQueryBytes.eq_2 _ _ hrest, if_pos rfl] at h
      cases h
    · cases h.1 with
      | plain hbyte _ => exact absurd rfl hbyte
      | escape => exact hrest _ _ _ rfl
  | case4 byte rest hrest hbyte ih => exact hplain hbyte ih
  | case5 => exact ⟨fun h => by cases h; exact ⟨.nil, rfl⟩, fun h => by cases h.2; rfl⟩

/-- Decoding a component agrees with its meaning. -/
theorem decodeQueryComponent_eq_ok {raw : List Char} {text : String} :
    decodeQueryComponent raw = .ok text ↔ ComponentDecodes raw text := by
  simp only [decodeQueryComponent, bind_eq_ok, decodeQueryBytes_eq_ok, requireSome_eq_ok, ComponentDecodes, decode]
  constructor
  · rintro ⟨_, ⟨hescaped, rfl⟩, htext⟩
    exact ⟨hescaped, htext⟩
  · rintro ⟨hescaped, htext⟩
    exact ⟨_, ⟨hescaped, rfl⟩, htext⟩

/-- Decoding a pair agrees with its meaning. -/
theorem decodePair_eq_ok {rawPair : List Char} {pair : String × String} :
    decodePair rawPair = .ok pair ↔ PairDecodes rawPair pair := by
  simp only [decodePair, bind_eq_ok, pure_eq_ok, decodeQueryComponent_eq_ok, PairDecodes]
  constructor
  · rintro ⟨_, hkey, _, hvalue, rfl⟩
    exact ⟨hkey, hvalue⟩
  · rintro ⟨hkey, hvalue⟩
    exact ⟨_, hkey, _, hvalue, rfl⟩

/-- The keys of the timeline namespace that are neither fields of a coordinate nor the world. -/
def isUnknownKey (key : String) : Bool :=
  startsWith key "timeline-" &&
    key ∉ ["timeline-generation", "timeline-seq", "timeline-body-sha256", "timeline-world"]

/-- The pairs with a given key. -/
def pairsOf (key : String) (pairs : List (String × String)) : List (String × String) :=
  pairs.filter fun pair => pair.1 = key

/-- The slots of the pass hold the pairs with their keys. -/
structure SlotsSeen (done : List (String × String)) (fields : TimelineFields) : Prop where
  mode : pairsOf "timeline" done = fields.mode.toList.map (Prod.mk "timeline")
  generation : pairsOf "timeline-generation" done = fields.generation.toList.map (Prod.mk "timeline-generation")
  seq : pairsOf "timeline-seq" done = fields.seq.toList.map (Prod.mk "timeline-seq")
  bodySha256 : pairsOf "timeline-body-sha256" done = fields.bodySha256.toList.map (Prod.mk "timeline-body-sha256")
  world : fields.sawTimelineWorld = done.any fun pair => pair.1 = "timeline-world"
  unknown : fields.sawUnknownTimelineField = done.any fun pair => isUnknownKey pair.1

/-- The flags of the pass say which kinds of keys it met. -/
structure FlagsSeen (done : List (String × String)) (fields : TimelineFields) : Prop where
  timeline : fields.sawTimelineField = done.any fun pair => isTimelineKey pair.1
  ordinary : (fields.sawUnsupportedField || fields.sawPreTimelineOrdinaryField) =
    done.any fun pair => !isTimelineKey pair.1
  pairs : fields.timelineNamespacePairs ≤ done.length

/-- The fields after the flags of a key are set. -/
def TimelineFields.flagged (fields : TimelineFields) (key : String) : TimelineFields :=
  { fields with
    sawTimelineField := fields.sawTimelineField || isTimelineKey key
    sawUnsupportedField := fields.sawUnsupportedField || (fields.sawTimelineField && !isTimelineKey key)
    sawPreTimelineOrdinaryField := fields.sawPreTimelineOrdinaryField ||
      (!fields.sawTimelineField && !isTimelineKey key)
    timelineNamespacePairs := fields.timelineNamespacePairs +
      if fields.sawTimelineField || isTimelineKey key then 1 else 0 }

/-- Setting the flags of a key fails only at the limit of pairs. -/
theorem TimelineFields.flag_eq (fields : TimelineFields) (key : String) :
    fields.flag key =
      if (fields.sawTimelineField || isTimelineKey key) = true ∧
        timelineNamespacePairLimit < fields.timelineNamespacePairs + 1
      then .error .tooManyTimelineFields else .ok (fields.flagged key) := by
  obtain ⟨mode, generation, seq, body, timeline, unknown, world, unsupported, pre, count⟩ := fields
  cases timeline <;> cases htimeline : isTimelineKey key <;>
    simp [flag, flagged, htimeline, rejectIf] <;> split <;> rfl

/-- The flags of a key extend what was seen. -/
theorem FlagsSeen.flagged {done : List (String × String)} {fields : TimelineFields} (h : FlagsSeen done fields)
    (pair : String × String) : FlagsSeen (done ++ [pair]) (fields.flagged pair.1) := by
  refine ⟨?_, ?_, ?_⟩
  · simp only [TimelineFields.flagged, h.timeline, List.any_append, List.any_cons, List.any_nil, Bool.or_false]
  · rw [List.any_append, ← h.ordinary]
    simp only [TimelineFields.flagged, List.any_cons, List.any_nil, Bool.or_false]
    cases fields.sawTimelineField <;> cases isTimelineKey pair.1 <;> simp
  · have hpairs := h.pairs
    simp only [TimelineFields.flagged, List.length_append, List.length_singleton]
    split <;> omega

/-- A slot is set when it was empty. -/
theorem setOnce_eq_ok {slot slot' : Option String} {value : String} {error : TimelineQueryError} :
    setOnce slot value error = .ok slot' ↔ slot = none ∧ slot' = some value := by
  cases slot with
  | none => simp [setOnce, eq_comm]
  | some stored => simp [setOnce]

/-- Storing a pair changes no flag. -/
theorem FlagsSeen.store {done : List (String × String)} {fields fields' : TimelineFields} {key value : String}
    (h : FlagsSeen done fields) (hstore : fields.store key value = .ok fields') : FlagsSeen done fields' := by
  unfold TimelineFields.store at hstore
  split_ifs at hstore
  all_goals
    first
    | cases hstore
      exact ⟨h.timeline, h.ordinary, h.pairs⟩
    | obtain ⟨slot, -, hstore⟩ := bind_eq_ok.mp hstore
      cases hstore
      exact ⟨h.timeline, h.ordinary, h.pairs⟩

/-- The pairs with a key after one more pair. -/
theorem pairsOf_append (key : String) (done : List (String × String)) (pair : String × String) :
    pairsOf key (done ++ [pair]) = pairsOf key done ++ if pair.1 = key then [pair] else [] := by
  rw [pairsOf, List.filter_append, List.filter_singleton]
  simp [pairsOf]

/-- Storing a pair extends the slots. -/
theorem SlotsSeen.store {done : List (String × String)} {fields fields' : TimelineFields} {key value : String}
    (h : SlotsSeen done fields) (hstore : fields.store key value = .ok fields') :
    SlotsSeen (done ++ [(key, value)]) fields' := by
  have hknown : isUnknownKey "timeline" = false ∧ isUnknownKey "timeline-generation" = false ∧
      isUnknownKey "timeline-seq" = false ∧ isUnknownKey "timeline-body-sha256" = false ∧
      isUnknownKey "timeline-world" = false := by
    decide
  unfold TimelineFields.store at hstore
  split_ifs at hstore with hmode hgeneration hseq hbody hworld htimeline
  -- The four slots are filled alike; the last three branches only set or keep a flag.
  iterate 4
    · obtain ⟨slot, hslot, hstore⟩ := bind_eq_ok.mp hstore
      obtain ⟨hnone, rfl⟩ := setOnce_eq_ok.mp hslot
      cases hstore
      subst key
      constructor <;>
        simp [pairsOf_append, h.mode, h.generation, h.seq, h.bodySha256, h.world, h.unknown, hnone, hknown]
  · cases hstore
    subst hworld
    constructor <;> simp [pairsOf_append, h.mode, h.generation, h.seq, h.bodySha256, h.unknown, hknown]
  · cases hstore
    have hunknown : isUnknownKey key = true := by simp [isUnknownKey, htimeline, hgeneration, hseq, hbody, hworld]
    constructor <;>
      simp [pairsOf_append, h.mode, h.generation, h.seq, h.bodySha256, h.world, hunknown, hmode, hgeneration, hseq,
        hbody, hworld]
  · cases hstore
    have hunknown : isUnknownKey key = false := by simp [isUnknownKey, htimeline]
    constructor <;>
      simp [pairsOf_append, h.mode, h.generation, h.seq, h.bodySha256, h.world, h.unknown, hunknown, hmode,
        hgeneration, hseq, hbody, hworld]

/-- One round of the pass extends what was seen by the pair it decodes. -/
theorem TimelineFields.take_seen {done : List (String × String)} {fields fields' : TimelineFields}
    {rawPair : List Char} (hslots : SlotsSeen done fields) (hflags : FlagsSeen done fields)
    (htake : fields.take rawPair = .ok fields') :
    ∃ pair, PairDecodes rawPair pair ∧ SlotsSeen (done ++ [pair]) fields' ∧ FlagsSeen (done ++ [pair]) fields' := by
  obtain ⟨⟨key, value⟩, hpair, htake⟩ := bind_eq_ok.mp htake
  obtain ⟨flagged, hflag, hstore⟩ := bind_eq_ok.mp htake
  rw [flag_eq] at hflag
  split at hflag
  · cases hflag
  · cases hflag
    have hslots : SlotsSeen done (fields.flagged key) :=
      ⟨hslots.mode, hslots.generation, hslots.seq, hslots.bodySha256, hslots.world, hslots.unknown⟩
    exact ⟨(key, value), decodePair_eq_ok.mp hpair, hslots.store hstore,
      (hflags.flagged (key, value)).store hstore⟩

/-- The whole pass has seen exactly the pairs of the query. -/
theorem foldlM_take_seen {rawPairs : List (List Char)} {done : List (String × String)}
    {fields fields' : TimelineFields} (hslots : SlotsSeen done fields) (hflags : FlagsSeen done fields)
    (hpass : rawPairs.foldlM TimelineFields.take fields = .ok fields') :
    ∃ pairs, List.Forall₂ PairDecodes rawPairs pairs ∧ SlotsSeen (done ++ pairs) fields' ∧
      FlagsSeen (done ++ pairs) fields' := by
  induction rawPairs generalizing done fields with
  | nil =>
    cases hpass
    exact ⟨[], .nil, by simpa using hslots, by simpa using hflags⟩
  | cons rawPair rest ih =>
    rw [List.foldlM_cons] at hpass
    obtain ⟨next, htake, hrest⟩ := bind_eq_ok.mp hpass
    obtain ⟨pair, hpair, hslots, hflags⟩ := TimelineFields.take_seen hslots hflags htake
    obtain ⟨pairs, hpairs, hslots, hflags⟩ := ih hslots hflags hrest
    rw [List.append_assoc] at hslots hflags
    exact ⟨pair :: pairs, .cons hpair hpairs, hslots, hflags⟩

/-- The keys that fill a slot. -/
def slotKeys : List String := ["timeline", "timeline-generation", "timeline-seq", "timeline-body-sha256"]

/-- The lists of pairs on which the pass does not fail: no slot is filled twice, and the limit is not reached. -/
structure Passes (pairs : List (String × String)) : Prop where
  once : ∀ key ∈ slotKeys, (pairsOf key pairs).length ≤ 1
  few : pairs.length ≤ timelineNamespacePairLimit ∨ ∀ pair ∈ pairs, isTimelineKey pair.1 = false

/-- A pair is stored when no pair with its key was. -/
theorem SlotsSeen.exists_store {done : List (String × String)} {fields : TimelineFields} {key : String}
    (h : SlotsSeen done fields) (hfresh : key ∈ slotKeys → pairsOf key done = []) (value : String) :
    ∃ fields', fields.store key value = .ok fields' := by
  have hset : ∀ {slot : Option String} {name : String} {error : TimelineQueryError}
      (update : Option String → TimelineFields), pairsOf name done = slot.toList.map (Prod.mk name) → key = name →
      name ∈ slotKeys → ∃ fields', (do
        let slot ← setOnce slot value error
        return update slot) = Except.ok fields' := by
    intro slot name error update hslot hname hkey
    have hempty := hname ▸ hfresh (hname ▸ hkey)
    rw [hslot] at hempty
    have hnone : slot = none := by simpa using hempty
    exact ⟨_, bind_eq_ok.mpr ⟨some value, setOnce_eq_ok.mpr ⟨hnone, rfl⟩, rfl⟩⟩
  unfold TimelineFields.store
  split_ifs with hmode hgeneration hseq hbody hworld htimeline
  · exact hset (fun mode => { fields with mode }) h.mode hmode (by decide)
  · exact hset (fun generation => { fields with generation }) h.generation hgeneration (by decide)
  · exact hset (fun seq => { fields with seq }) h.seq hseq (by decide)
  · exact hset (fun bodySha256 => { fields with bodySha256 }) h.bodySha256 hbody (by decide)
  · exact ⟨_, rfl⟩
  · exact ⟨_, rfl⟩
  · exact ⟨_, rfl⟩

/-- The pass succeeds on such pairs and has then seen all of them. -/
theorem exists_foldlM_take {rawPairs : List (List Char)} {pairs done : List (String × String)}
    {fields : TimelineFields} (hpairs : List.Forall₂ PairDecodes rawPairs pairs) (hslots : SlotsSeen done fields)
    (hflags : FlagsSeen done fields) (hpasses : Passes (done ++ pairs)) :
    ∃ fields', rawPairs.foldlM TimelineFields.take fields = .ok fields' ∧ SlotsSeen (done ++ pairs) fields' ∧
      FlagsSeen (done ++ pairs) fields' := by
  induction hpairs generalizing done fields with
  | nil => exact ⟨fields, rfl, by simpa using hslots, by simpa using hflags⟩
  | @cons rawPair pair rawRest rest hpair hrest ih =>
    obtain ⟨key, value⟩ := pair
    have hflag : fields.flag key = .ok (fields.flagged key) := by
      rw [TimelineFields.flag_eq, if_neg]
      rintro ⟨hnamespace, hlimit⟩
      rcases hpasses.few with hfew | hordinary
      · have hcount := hflags.pairs
        rw [List.length_append, List.length_cons] at hfew
        omega
      · -- Without timeline keys no pair is counted.
        have hseen : fields.sawTimelineField = false := by
          rw [hflags.timeline, List.any_eq_false]
          exact fun pair hpair => by simp [hordinary pair (List.mem_append_left _ hpair)]
        rw [hseen, hordinary (key, value) (by simp)] at hnamespace
        cases hnamespace
    have hslots' : SlotsSeen done (fields.flagged key) :=
      ⟨hslots.mode, hslots.generation, hslots.seq, hslots.bodySha256, hslots.world, hslots.unknown⟩
    have hfresh : key ∈ slotKeys → pairsOf key done = [] := by
      intro hkey
      have honce := hpasses.once key hkey
      rw [pairsOf, List.filter_append, List.length_append, List.filter_cons_of_pos (by simp), List.length_cons] at honce
      exact List.length_eq_zero_iff.mp (by rw [pairsOf]; omega)
    obtain ⟨next, hstore⟩ := hslots'.exists_store hfresh value
    have hslots := hslots'.store hstore
    have hflags := (hflags.flagged (key, value)).store hstore
    obtain ⟨fields', hfields, hall⟩ := ih hslots hflags (by rwa [List.append_assoc])
    rw [List.append_assoc] at hall
    refine ⟨fields', ?_, hall⟩
    rw [List.foldlM_cons]
    refine bind_eq_ok.mpr ⟨next, ?_, hfields⟩
    exact bind_eq_ok.mpr ⟨_, decodePair_eq_ok.mpr hpair, bind_eq_ok.mpr ⟨_, hflag, hstore⟩⟩

/-- Pairs whose keys are listed are, up to order, the pairs of each listed key. -/
theorem perm_flatMap_pairsOf {keys : List String} (hkeys : keys.Nodup) {pairs : List (String × String)}
    (hpairs : ∀ pair ∈ pairs, pair.1 ∈ keys) : pairs.Perm (keys.flatMap fun key => pairsOf key pairs) := by
  induction keys generalizing pairs with
  | nil =>
    obtain rfl : pairs = [] := List.eq_nil_iff_forall_not_mem.mpr fun pair hpair => by simpa using hpairs pair hpair
    exact .nil
  | cons key keys ih =>
    obtain ⟨hkey, hkeys⟩ := List.nodup_cons.mp hkeys
    have hrest : ∀ pair ∈ pairs.filter (fun pair => !decide (pair.1 = key)), pair.1 ∈ keys := by
      intro pair hpair
      obtain ⟨hmem, hne⟩ := List.mem_filter.mp hpair
      exact (List.mem_cons.mp (hpairs pair hmem)).resolve_left (by simpa using hne)
    have hsame : (keys.flatMap fun other => pairsOf other (pairs.filter fun pair => !decide (pair.1 = key))) =
        keys.flatMap fun other => pairsOf other pairs := by
      refine List.flatMap_congr fun other hother => ?_
      rw [pairsOf, List.filter_filter]
      refine List.filter_congr fun pair _ => ?_
      have hne : other ≠ key := fun h => hkey (h ▸ hother)
      by_cases hpair : pair.1 = other
      · simp [hpair, hne]
      · simp [hpair]
    have hsplit := (List.filter_append_perm (fun pair : String × String => decide (pair.1 = key)) pairs).symm
    have htail := ih hkeys hrest
    rw [hsame] at htail
    rw [List.flatMap_cons]
    exact hsplit.trans (htail.append_left _)

/-- Timeline keys that are neither unknown nor the world are the keys of the slots. -/
theorem mem_slotKeys {key : String} (htimeline : isTimelineKey key = true) (hunknown : isUnknownKey key = false)
    (hworld : key ≠ "timeline-world") : key ∈ slotKeys := by
  simp only [isTimelineKey, Bool.or_eq_true, decide_eq_true_eq] at htimeline
  rcases htimeline with rfl | hstarts
  · decide
  · simp only [isUnknownKey, hstarts, Bool.true_and, decide_eq_false_iff_not, not_not] at hunknown
    simp only [slotKeys, List.mem_cons, List.not_mem_nil, or_false] at hunknown ⊢
    tauto

/-- The pass ends in a read of the current state exactly when it saw no timeline key. -/
theorem finishClassification_current {pairs : List (String × String)} {fields : TimelineFields}
    (hflags : FlagsSeen pairs fields) (world : ValidatedWorldPath) :
    finishClassification fields world = .ok .current ↔ ∀ pair ∈ pairs, isTimelineKey pair.1 = false := by
  have hseen : fields.sawTimelineField = false ↔ ∀ pair ∈ pairs, isTimelineKey pair.1 = false := by
    rw [hflags.timeline, List.any_eq_false]
    simp
  rw [← hseen]
  constructor
  · intro h
    by_contra htimeline
    rw [finishClassification, if_neg htimeline] at h
    simp only [bind_eq_ok, pure_eq_ok] at h
    obtain ⟨_, -, _, -, _, -, _, -, _, -, _, -, _, -, _, -, _, -, _, -, hmode⟩ := h
    cases hmode
  · intro h
    rw [finishClassification, if_pos h]

/-- The pass ends in a timeline read exactly when it saw the four fields of the coordinate. -/
theorem finishClassification_timeline {pairs : List (String × String)} {fields : TimelineFields}
    (hslots : SlotsSeen pairs fields) (hflags : FlagsSeen pairs fields) (world : ValidatedWorldPath)
    (coordinate : TimelineCoordinate) :
    finishClassification fields world = .ok (.timeline coordinate) ↔
      ∃ generation seq bodySha256 value, pairs.Perm (coordinatePairs generation seq bodySha256) ∧
        parseInt i64Range seq.toList = .ok value ∧
        TimelineCoordinate.fromWireParts world.name generation value bodySha256 = .ok coordinate := by
  constructor
  · intro h
    have htimeline : ¬ fields.sawTimelineField = false := by
      intro hnone
      rw [finishClassification, if_pos hnone] at h
      cases h
    rw [finishClassification, if_neg htimeline] at h
    simp only [bind_eq_ok, pure_eq_ok, requireSome_eq_ok, rejectIf_eq_ok, mapError_eq_ok, parseTimelineSeq,
      TimelineRequestMode.timeline.injEq, not_not] at h
    obtain ⟨mode, hmode, -, rfl, -, hworld, -, hunknown, -, hordinary, generation, hgeneration, seq, hseq, bodySha256,
      hbody, value, hvalue, read, hread, rfl⟩ := h
    rw [hslots.world, Bool.not_eq_true, List.any_eq_false] at hworld
    rw [hslots.unknown, Bool.not_eq_true, List.any_eq_false] at hunknown
    rw [hflags.ordinary, Bool.not_eq_true, List.any_eq_false] at hordinary
    have hkeys : ∀ pair ∈ pairs, pair.1 ∈ slotKeys := fun pair hpair =>
      mem_slotKeys (by simpa using hordinary pair hpair) (by simpa using hunknown pair hpair)
        (by simpa using hworld pair hpair)
    refine ⟨generation, seq, bodySha256, value, ?_, hvalue, hread⟩
    have hperm := perm_flatMap_pairsOf (by decide) hkeys
    simpa [slotKeys, coordinatePairs, hslots.mode, hslots.generation, hslots.seq, hslots.bodySha256, hmode, hgeneration,
      hseq, hbody] using hperm
  · rintro ⟨generation, seq, bodySha256, value, hperm, hvalue, hread⟩
    have hslot : ∀ {key stored : String} {slot : Option String},
        pairsOf key (coordinatePairs generation seq bodySha256) = [(key, stored)] →
        pairsOf key pairs = slot.toList.map (Prod.mk key) → slot = some stored := by
      intro key stored slot hone hslot
      have hfilter := hperm.filter fun pair => decide (pair.1 = key)
      change (pairsOf key pairs).Perm (pairsOf key (coordinatePairs generation seq bodySha256)) at hfilter
      rw [hone, List.perm_singleton, hslot] at hfilter
      cases slot with
      | none => simp at hfilter
      | some value => simpa using hfilter
    have hany : ∀ {test : String → Bool}, (∀ key ∈ slotKeys, test key = false) →
        (pairs.any fun pair => test pair.1) = false := by
      intro test htest
      rw [List.any_eq_false]
      intro pair hpair
      have hmem := hperm.mem_iff.mp hpair
      have hkey : pair.1 ∈ (coordinatePairs generation seq bodySha256).map Prod.fst := List.mem_map_of_mem hmem
      simpa using htest pair.1 hkey
    have hmode : fields.mode = some "1" := hslot (by simp [pairsOf, coordinatePairs]) hslots.mode
    have hgeneration : fields.generation = some generation := hslot (by simp [pairsOf, coordinatePairs]) hslots.generation
    have hseq : fields.seq = some seq := hslot (by simp [pairsOf, coordinatePairs]) hslots.seq
    have hbody : fields.bodySha256 = some bodySha256 := hslot (by simp [pairsOf, coordinatePairs]) hslots.bodySha256
    have hworld := hslots.world.trans (@hany (fun key => decide (key = "timeline-world")) (by decide))
    have hunknown := hslots.unknown.trans (hany (by decide))
    have hordinary := hflags.ordinary.trans (@hany (fun key => !isTimelineKey key) (by decide))
    have htimeline : ¬ fields.sawTimelineField = false := by
      rw [hflags.timeline, List.any_eq_false]
      intro hnone
      exact hnone ("timeline", "1") (hperm.mem_iff.mpr (by simp [coordinatePairs])) (by decide)
    rw [finishClassification, if_neg htimeline]
    simp only [hmode, hgeneration, hseq, hbody, hworld, hunknown, hordinary, requireSome, ok_bind, ne_eq,
      not_true_eq_false, Bool.false_eq_true, rejectIf_false, parseTimelineSeq, hvalue, hread, Except.mapError]
    rfl

/-- Nothing was seen before the first pair. -/
theorem TimelineFields.default_seen : SlotsSeen [] TimelineFields.default ∧ FlagsSeen [] TimelineFields.default :=
  ⟨⟨rfl, rfl, rfl, rfl, rfl, rfl⟩, ⟨rfl, rfl, le_rfl⟩⟩

/-- A classified query stands for pairs that the pass has seen. -/
theorem classifyRawQuery_eq_ok {query : String} {world : ValidatedWorldPath} {mode : TimelineRequestMode}
    (h : classifyRawQuery (some query) world = .ok mode) :
    ∃ pairs fields, QueryPairs query pairs ∧ SlotsSeen pairs fields ∧ FlagsSeen pairs fields ∧
      finishClassification fields world = .ok mode := by
  simp only [classifyRawQuery, bind_eq_ok, rejectIf_eq_ok, not_lt] at h
  obtain ⟨-, hshort, fields, hpass, hfinish⟩ := h
  obtain ⟨pairs, hpairs, hslots, hflags⟩ :=
    foldlM_take_seen TimelineFields.default_seen.1 TimelineFields.default_seen.2 hpass
  exact ⟨pairs, fields, ⟨hshort, hpairs⟩, hslots, hflags, hfinish⟩

/-- A query whose pairs pass is classified by what the pass has seen. -/
theorem classifyRawQuery_of_passes {query : String} {pairs : List (String × String)}
    (hpairs : QueryPairs query pairs) (hpasses : Passes pairs) (world : ValidatedWorldPath) :
    ∃ fields, SlotsSeen pairs fields ∧ FlagsSeen pairs fields ∧
      classifyRawQuery (some query) world = finishClassification fields world := by
  obtain ⟨fields, hpass, hslots, hflags⟩ :=
    exists_foldlM_take hpairs.decodes TimelineFields.default_seen.1 TimelineFields.default_seen.2 hpasses
  refine ⟨fields, hslots, hflags, ?_⟩
  have hshort : ¬ maxRawQueryBytes < (utf8Bytes query).length := not_lt.mpr hpairs.short
  simp only [classifyRawQuery, rejectIf, if_neg hshort, ok_bind, hpass]

/-- A read of the current state is exactly a query without timeline fields. -/
theorem classifyRawQuery_current {raw : Option String} {world : ValidatedWorldPath} :
    classifyRawQuery raw world = .ok .current ↔ CurrentQuery raw := by
  cases raw with
  | none => exact ⟨fun _ query hquery => (by cases hquery), fun _ => rfl⟩
  | some query =>
    constructor
    · intro h stored hstored
      cases hstored
      obtain ⟨pairs, fields, hpairs, -, hflags, hfinish⟩ := classifyRawQuery_eq_ok h
      exact ⟨pairs, hpairs, (finishClassification_current hflags world).mp hfinish⟩
    · intro h
      obtain ⟨pairs, hpairs, hordinary⟩ := h query rfl
      have hpasses : Passes pairs := by
        refine ⟨fun key hkey => ?_, .inr hordinary⟩
        have htimeline : ∀ key ∈ slotKeys, isTimelineKey key = true := by decide
        have hnone : pairsOf key pairs = [] := by
          refine List.filter_eq_nil_iff.mpr fun pair hpair hsame => ?_
          have hsame : pair.1 = key := by simpa using hsame
          have hno := hordinary pair hpair
          rw [hsame, htimeline key hkey] at hno
          cases hno
        simp [hnone]
      obtain ⟨fields, -, hflags, hclassify⟩ := classifyRawQuery_of_passes hpairs hpasses world
      rw [hclassify]
      exact (finishClassification_current hflags world).mpr hordinary

/-- A timeline read is exactly a query with the four fields of its coordinate. -/
theorem classifyRawQuery_timeline {raw : Option String} {world : ValidatedWorldPath}
    {coordinate : TimelineCoordinate} :
    classifyRawQuery raw world = .ok (.timeline coordinate) ↔ TimelineQuery raw world coordinate := by
  cases raw with
  | none => exact ⟨fun h => (by cases h), fun ⟨query, hquery, _⟩ => (by cases hquery)⟩
  | some query =>
    constructor
    · intro h
      obtain ⟨pairs, fields, hpairs, hslots, hflags, hfinish⟩ := classifyRawQuery_eq_ok h
      obtain ⟨generation, seq, bodySha256, value, hperm, hvalue, hread⟩ :=
        (finishClassification_timeline hslots hflags world coordinate).mp hfinish
      exact ⟨query, rfl, pairs, generation, seq, bodySha256, value, hpairs, hperm, hvalue, hread⟩
    · rintro ⟨stored, hstored, pairs, generation, seq, bodySha256, value, hpairs, hperm, hvalue, hread⟩
      cases hstored
      have hpasses : Passes pairs := by
        refine ⟨fun key hkey => ?_, .inl ?_⟩
        · have hlength := (hperm.filter fun pair => decide (pair.1 = key)).length_eq
          change (pairsOf key pairs).length = _ at hlength
          rw [hlength]
          have hcases : key = "timeline" ∨ key = "timeline-generation" ∨ key = "timeline-seq" ∨
              key = "timeline-body-sha256" := by simpa [slotKeys] using hkey
          rcases hcases with rfl | rfl | rfl | rfl <;> simp [coordinatePairs]
        · rw [hperm.length_eq]
          exact (by decide : 4 ≤ 8)
      obtain ⟨fields, hslots, hflags, hclassify⟩ := classifyRawQuery_of_passes hpairs hpasses world
      rw [hclassify]
      exact (finishClassification_timeline hslots hflags world coordinate).mpr
        ⟨generation, seq, bodySha256, value, hperm, hvalue, hread⟩

/-- Every query is classified by its decoded pairs alone: it is a read of the current state exactly when it names no
timeline field, a timeline read exactly when it has the four fields of the coordinate, and an error otherwise. -/
theorem classifyRawQuery_spec (raw : Option String) (world : ValidatedWorldPath) :
    (classifyRawQuery raw world = .ok .current ↔ CurrentQuery raw) ∧
      (∀ coordinate, classifyRawQuery raw world = .ok (.timeline coordinate) ↔
        TimelineQuery raw world coordinate) ∧
      ((∃ error, classifyRawQuery raw world = .error error) ↔
        ¬ CurrentQuery raw ∧ ∀ coordinate, ¬ TimelineQuery raw world coordinate) := by
  refine ⟨classifyRawQuery_current, fun _ => classifyRawQuery_timeline, ?_⟩
  rw [← @classifyRawQuery_current raw world]
  simp only [← classifyRawQuery_timeline]
  cases classifyRawQuery raw world with
  | error error => simp
  | ok mode => cases mode <;> simp

end AuditeDB
