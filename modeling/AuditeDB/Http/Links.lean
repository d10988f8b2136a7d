import Mathlib
import AuditeDB.WorldPath
import AuditeDB.Http.Preconditions

/-!
# World URLs and monitor links

The URL of a world is its percent-encoded path, and its `monitor` link points to the event stream of that URL. A URL
leads back to its world. A link leads to a subscription to its world unless the name ends in whitespace, since a
pattern is trimmed before it is matched.
-/

namespace AuditeDB

open Utf8 Results ListFields Percent Lexemes

/-- `URL_PATH_ENCODE`. -/
def urlPathEncode : EscapeSet := asciiSet " \"#%<>?[\\]^`\x7b|\x7d" (by decide)

/-- `world_url`. -/
def worldUrl (worldName : String) : String := "/" ++ encode urlPathEncode worldName

/-- `canonicalize_path`. -/
def canonicalizePath (p : String) : String :=
  let stripped := p.toList.dropWhile (· = '/')
  let first := String.ofList ((stripped.splitOn '/').headD [])
  if first ∈ namespacePrefixes ∨ first = "proc" then String.ofList stripped
  else "home/" ++ String.ofList stripped

/-- `HeaderValue::from_str`. -/
def HeaderValue.fromStr (text : String) : Option HeaderValue :=
  if h : (utf8Bytes text).all isHeaderByte = true then some ⟨utf8Bytes text, h⟩ else none

/-- `header::LINK`. -/
def linkField : HeaderName := .other "link"

/-- The text of the `monitor` link of a world. -/
def monitorLink (worldName : String) : String := "</listen" ++ worldUrl worldName ++ ">; rel=\"monitor\""

/-- The link to the list of worlds. -/
def collectionLink : HeaderValue := ⟨utf8Bytes "</proc/worlds>; rel=\"collection\"", by decide +kernel⟩

/-- `apply_world_links`: the links of a world behind the other fields of a response. -/
def applyWorldLinks (worldName : String) (out : HeaderMap) : HeaderMap :=
  let out := match HeaderValue.fromStr (monitorLink worldName) with
    | some value => out ++ [(linkField, value)]
    | none => out
  out ++ [(linkField, collectionLink)]

/-- The target of a link with the given relation. -/
def linkTarget (rel : String) (value : HeaderValue) : Option (List Char) := do
  let text ← value.toStr
  let rest ← text.toList.dropPrefix? ['<']
  let parts ← splitOnce '>' rest
  if parts.2 = "; rel=\"".toList ++ rel.toList ++ ['"'] then some parts.1 else none

/-- The path of a target: what stands before a query or a fragment. -/
def targetPath (target : List Char) : List Char := target.takeWhile fun c => c ≠ '?' && c ≠ '#'

/-- The pattern that following a target subscribes to: the decoded path behind `/listen`. -/
def listenPattern (target : List Char) : Option SubscribePattern := do
  let rest ← (targetPath target).dropPrefix? "/listen".toList
  let raw ← decode (String.ofList rest)
  return SubscribePattern.new raw

/-- The pattern that following the `monitor` link of a response subscribes to. -/
def followMonitor (headers : HeaderMap) : Option SubscribePattern :=
  ((headers.lines linkField).findSome? (linkTarget "monitor")).bind listenPattern

/-- A pattern stands for one world: it asks for exactly that world and matches no other. -/
structure SubscribePattern.Watches (pattern : SubscribePattern) (world : ValidatedWorldPath) : Prop where
  exact : pattern.exactWorld = .ok (some world)
  matchesOnly : ∀ path, pattern.matchesWorld path = true ↔ path = world

/-- A text of printable characters and spaces is a header value and is read back from it. -/
theorem HeaderValue.fromStr_visible {text : String} (hvisible : ∀ c ∈ text.toList, 32 ≤ c.val ∧ c.val < 127) :
    ∃ value, HeaderValue.fromStr text = some value ∧ value.toStr = some text := by
  have hbytes : utf8Bytes text = text.toList.map fun c => c.val.toUInt8 := by
    have hascii := utf8Bytes_ofList_ascii fun c hc => UInt32.le_of_lt (hvisible c hc).2
    rwa [String.ofList_toList] at hascii
  have hbyte : ∀ n < 127, 32 ≤ n → isHeaderByte (UInt8.ofNat n) = true ∧ isVisibleAscii (UInt8.ofNat n) = true ∧
      asciiChar (UInt8.ofNat n) = Char.ofNat n := by
    decide +kernel
  have hchar : ∀ c ∈ text.toList, isHeaderByte c.val.toUInt8 = true ∧ isVisibleAscii c.val.toUInt8 = true ∧
      asciiChar c.val.toUInt8 = c := by
    intro c hc
    have h := hbyte c.toNat (hvisible c hc).2 (hvisible c hc).1
    rwa [Char.ofNat_toNat] at h
  have hallowed : (utf8Bytes text).all isHeaderByte = true := by
    rw [hbytes, List.all_map, List.all_eq_true]
    exact fun c hc => (hchar c hc).1
  have hall : (utf8Bytes text).all isVisibleAscii = true := by
    rw [hbytes, List.all_map, List.all_eq_true]
    exact fun c hc => (hchar c hc).2.1
  have hback : (utf8Bytes text).map asciiChar = text.toList := by
    rw [hbytes, List.map_map]
    exact (List.map_congr_left fun c hc => (hchar c hc).2.2).trans (List.map_id _)
  refine ⟨⟨utf8Bytes text, hallowed⟩, dif_pos hallowed, ?_⟩
  rw [HeaderValue.toStr, if_pos hall, hback, String.ofList_toList]

/-- The characters of a link target: printable, and no delimiter of links, queries and fragments. -/
def isTargetChar (c : Char) : Bool := 32 ≤ c.val && c.val < 127 && c ≠ '>' && c ≠ '?' && c ≠ '#'

/-- The URL of a world is made of such characters. -/
theorem isTargetChar_of_mem_worldUrl {worldName : String} :
    ∀ c ∈ (worldUrl worldName).toList, isTargetChar c = true := by
  have hplain : ∀ n < 256, urlPathEncode.escapes (UInt8.ofNat n) = false → isTargetChar (Char.ofNat n) = true := by
    decide +kernel
  have hencoded := @forall_mem_encode urlPathEncode (fun c => isTargetChar c = true) (by decide) (by decide)
    (fun byte hbyte => hplain byte.toNat byte.toNat_lt (by rwa [UInt8.ofNat_toNat])) worldName
  intro c hc
  rw [worldUrl, String.toList_append, List.mem_append] at hc
  rcases hc with hslash | hc
  · obtain rfl : c = '/' := List.mem_singleton.mp hslash
    decide
  · exact hencoded c hc

/-- Percent-decoding the URL of a world yields its path. -/
theorem decode_worldUrl (worldName : String) : decode (worldUrl worldName) = some ("/" ++ worldName) :=
  decode_append_encode urlPathEncode (by decide) worldName

/-- A target is read back from a link. -/
theorem linkTarget_eq {rel text : String} {value : HeaderValue} {target : List Char} (htext : value.toStr = some text)
    (hlist : text.toList = '<' :: (target ++ '>' :: ("; rel=\"".toList ++ rel.toList ++ ['"'])))
    (htarget : '>' ∉ target) : linkTarget rel value = some target := by
  have hdrop : text.toList.dropPrefix? ['<'] =
      some (target ++ '>' :: ("; rel=\"".toList ++ rel.toList ++ ['"'])) := by
    rw [hlist]
    exact List.dropPrefix?_eq_some_iff.mpr ⟨['<'], rfl, beq_self_eq_true _⟩
  rw [linkTarget, htext, Option.bind_eq_bind, Option.bind_some, hdrop, Option.bind_eq_bind, Option.bind_some,
    splitOnce_eq_some.mpr ⟨rfl, htarget⟩, Option.bind_eq_bind, Option.bind_some, if_pos rfl]

/-- A target below `/listen` passes its decoded rest to the pattern. -/
theorem listenPattern_append {rest : List Char} {raw : String} (hrest : ∀ c ∈ rest, isTargetChar c = true)
    (hraw : decode (String.ofList rest) = some raw) :
    listenPattern ("/listen".toList ++ rest) = some (SubscribePattern.new raw) := by
  have hlead : ∀ c ∈ "/listen".toList, isTargetChar c = true := List.all_eq_true.mp (by decide +kernel)
  have hpath : targetPath ("/listen".toList ++ rest) = "/listen".toList ++ rest := by
    refine List.takeWhile_eq_self_iff.mpr fun c hc => ?_
    have hc : isTargetChar c = true := (List.mem_append.mp hc).elim (hlead c) (hrest c)
    simp only [isTargetChar, Bool.and_eq_true] at hc
    exact Bool.and_eq_true_iff.mpr ⟨hc.1.2, hc.2⟩
  have hdrop : ("/listen".toList ++ rest).dropPrefix? "/listen".toList = some rest :=
    List.dropPrefix?_eq_some_iff.mpr ⟨_, rfl, beq_self_eq_true _⟩
  rw [listenPattern, hpath, hdrop, Option.bind_eq_bind, Option.bind_some, hraw]
  rfl

/-- Following the `monitor` link of a world passes its path to the pattern. -/
theorem followMonitor_applyWorldLinks (worldName : String) :
    followMonitor (applyWorldLinks worldName []) = some (SubscribePattern.new ("/" ++ worldName)) := by
  have hlist : (monitorLink worldName).toList = '<' :: (("/listen".toList ++ (worldUrl worldName).toList) ++
      '>' :: ("; rel=\"".toList ++ "monitor".toList ++ ['"'])) := by
    have hopen : "</listen".toList = '<' :: "/listen".toList := by decide +kernel
    have hclose : ">; rel=\"monitor\"".toList = '>' :: ("; rel=\"".toList ++ "monitor".toList ++ ['"']) := by
      decide +kernel
    rw [monitorLink, String.toList_append, String.toList_append, hopen, hclose]
    rfl
  have htarget : ∀ c ∈ "/listen".toList ++ (worldUrl worldName).toList, isTargetChar c = true := fun c hc =>
    (List.mem_append.mp hc).elim (List.all_eq_true.mp (by decide +kernel) c) (isTargetChar_of_mem_worldUrl c)
  have hvisible : ∀ c ∈ (monitorLink worldName).toList, 32 ≤ c.val ∧ c.val < 127 := by
    have hrel : ∀ c ∈ '>' :: ("; rel=\"".toList ++ "monitor".toList ++ ['"']),
        (decide (32 ≤ c.val) && decide (c.val < 127)) = true := List.all_eq_true.mp (by decide +kernel)
    intro c hc
    rw [hlist, List.mem_cons, List.mem_append] at hc
    rcases hc with rfl | hc | hc
    · decide
    · have hc := htarget c hc
      simp only [isTargetChar, Bool.and_eq_true, decide_eq_true_eq] at hc
      exact hc.1.1.1
    · simpa only [Bool.and_eq_true, decide_eq_true_eq] using hrel c hc
  obtain ⟨value, hvalue, htext⟩ := HeaderValue.fromStr_visible hvisible
  have hlink : linkTarget "monitor" value = some ("/listen".toList ++ (worldUrl worldName).toList) :=
    linkTarget_eq htext hlist fun h => absurd (htarget _ h) (by decide)
  have hlines : (applyWorldLinks worldName []).lines linkField = [value, collectionLink] := by
    rw [applyWorldLinks, hvalue]
    rfl
  rw [followMonitor, hlines, List.findSome?_cons, hlink]
  refine listenPattern_append isTargetChar_of_mem_worldUrl ?_
  rw [String.ofList_toList, decode_worldUrl]

/-- The name of a world starts with a letter. -/
theorem ValidName.head {name : String} (h : ValidName name) :
    ∃ c rest, name.toList = c :: rest ∧ c ≠ '/' ∧ c ≠ '*' ∧ isWhitespaceChar c = false := by
  have hroots : ∀ root ∈ namespacePrefixes,
      (root.toList.head?.any fun c => c ≠ '/' && c ≠ '*' && !isWhitespaceChar c) = true :=
    List.all_eq_true.mp (by decide +kernel)
  obtain ⟨root, hroot, rest, hname⟩ := h.below_namespace
  obtain ⟨c, hc, hletter⟩ := (Option.any_eq_true _ _).mp (hroots root hroot)
  obtain ⟨tail, htail⟩ := List.head?_eq_some_iff.mp hc
  refine ⟨c, tail ++ '/' :: rest, by rw [hname, htail]; rfl, ?_⟩
  simpa [and_assoc] using hletter

/-- A pattern that starts with a letter gets a slash. -/
theorem SubscribePattern.new_of_letter {raw : String} {c : Char} {rest : List Char}
    (htrim : trimChars raw.toList = c :: rest) (hslash : c ≠ '/') (hstar : c ≠ '*') :
    SubscribePattern.new raw = ⟨'/' :: c :: rest⟩ := by
  unfold SubscribePattern.new
  rw [htrim]
  split
  · next h => cases h
  · next h => cases h; exact absurd rfl hstar
  · next h => cases h; exact absurd rfl hslash
  · next h => cases h; exact absurd rfl hslash
  · next h => cases h; exact absurd rfl hslash
  · rfl

/-- A pattern that starts with a slash and a letter is kept. -/
theorem SubscribePattern.new_of_slash {raw : String} {c : Char} {rest : List Char}
    (htrim : trimChars raw.toList = '/' :: c :: rest) (hstar : c ≠ '*') :
    SubscribePattern.new raw = ⟨'/' :: c :: rest⟩ := by
  unfold SubscribePattern.new
  rw [htrim]
  split
  · next h => cases h
  · next h => cases h
  · next h => cases h; exact absurd rfl hstar
  · next h => cases h
  · next h => cases h; rfl
  · next h => exact absurd rfl (h (c :: rest))

/-- The path of a world as a pattern watches that world. -/
theorem SubscribePattern.watches_path {world : ValidatedWorldPath} (hstar : world.name.toList.getLast? ≠ some '*') :
    (⟨'/' :: world.name.toList⟩ : SubscribePattern).Watches world := by
  have hlast : ('/' :: world.name.toList).getLast? ≠ some '*' := by
    obtain ⟨c, rest, hname, -⟩ := world.valid.head
    rwa [hname, List.getLast?_cons_cons, ← hname]
  have hnotAll : '/' :: world.name.toList ≠ ['*'] := fun h => absurd (List.cons.inj h).1 (by decide)
  constructor
  · simp only [exactWorld, if_neg hlast, stripSlash, String.ofList_toList, ValidatedWorldPath.fromCanonical_name]
    rfl
  · intro path
    simp only [matchesWorld, if_neg hnotAll, if_neg hlast, stripSlash, decide_eq_true_eq]
    rw [String.toList_inj, ← ValidatedWorldPath.ext_iff]

/-- The pattern of a name asks for exactly its world only when the name has no whitespace at its end. -/
theorem SubscribePattern.last_of_exactWorld {world : ValidatedWorldPath}
    (h : (SubscribePattern.new world.name).exactWorld = .ok (some world)) :
    ∀ c ∈ world.name.toList.getLast?, isWhitespaceChar c = false := by
  obtain ⟨c, rest, hname, hslash, hstar, hblank⟩ := world.valid.head
  have hdrop : world.name.toList.dropWhile isWhitespaceChar = world.name.toList := by
    rw [hname, List.dropWhile_cons_of_neg (by simp [hblank])]
  have hlead : trimChars world.name.toList <+: world.name.toList := by
    change (world.name.toList.dropWhile isWhitespaceChar).rdropWhile isWhitespaceChar <+: _
    rw [hdrop]
    exact List.rdropWhile_prefix isWhitespaceChar _
  have hne : trimChars world.name.toList ≠ [] := by
    change (world.name.toList.dropWhile isWhitespaceChar).rdropWhile isWhitespaceChar ≠ []
    rw [hdrop, Ne, List.rdropWhile_eq_nil_iff]
    exact fun hall => by simp [hall c (by simp [hname])] at hblank
  obtain ⟨d, kept, hkept⟩ := List.exists_cons_of_ne_nil hne
  obtain rfl : d = c := by
    obtain ⟨tail, htail⟩ := hlead
    rw [hkept, hname] at htail
    exact (List.cons.inj htail).1
  rw [SubscribePattern.new_of_letter hkept hslash hstar, exactWorld] at h
  split at h
  · cases h
  · simp only [stripSlash, ← hkept] at h
    cases hread : ValidatedWorldPath.fromCanonical (String.ofList (trimChars world.name.toList)) with
    | error reason => rw [hread] at h; cases h
    | ok read =>
      rw [hread] at h
      cases h
      have hsame : trimChars world.name.toList = world.name.toList := by
        have htext := congrArg String.toList (ValidatedWorldPath.fromCanonical_eq_ok.mp hread)
        rwa [String.toList_ofList] at htext
      intro last hlast
      have hne : world.name.toList.rdropWhile isWhitespaceChar ≠ [] := by
        rw [← hdrop]
        exact hne
      have hkeep : world.name.toList.rdropWhile isWhitespaceChar = world.name.toList := by
        conv_rhs => rw [← hsame]
        conv_lhs => rw [← hdrop]
        rfl
      have hlastNot := List.rdropWhile_last_not isWhitespaceChar world.name.toList hne
      simp only [hkeep] at hlastNot
      rw [List.getLast?_eq_some_getLast (by simp [hname]), Option.mem_some_iff] at hlast
      rw [← hlast]
      simpa using hlastNot

/-- Exactly the worlds whose names do not end in whitespace can be watched exactly, by name and through their
`monitor` link. -/
theorem watches_iff {world : ValidatedWorldPath} (hstar : world.name.toList.getLast? ≠ some '*') :
    ((SubscribePattern.new world.name).Watches world ∧
      ∃ pattern, followMonitor (applyWorldLinks world.name []) = some pattern ∧ pattern.Watches world) ↔
    ∀ c ∈ world.name.toList.getLast?, isWhitespaceChar c = false := by
  constructor
  · rintro ⟨hwatches, -⟩
    exact SubscribePattern.last_of_exactWorld hwatches.exact
  · intro hlast
    obtain ⟨c, rest, hname, hslash, hletter, hblank⟩ := world.valid.head
    have htrim : trimChars world.name.toList = c :: rest := by
      rw [← hname]
      exact trim_eq_self (fun d hd => by rw [hname] at hd; cases hd; exact hblank) hlast
    have htrimSlash : trimChars ("/" ++ world.name).toList = '/' :: c :: rest := by
      rw [String.toList_append, hname]
      refine trim_eq_self (fun d hd => by cases hd; decide) fun d hd => hlast d ?_
      rwa [show "/".toList ++ c :: rest = '/' :: c :: rest from rfl, List.getLast?_cons_cons, ← hname] at hd
    have hwatches := SubscribePattern.watches_path hstar
    rw [hname] at hwatches
    rw [followMonitor_applyWorldLinks, SubscribePattern.new_of_letter htrim hslash hletter,
      SubscribePattern.new_of_slash htrimSlash hletter]
    exact ⟨hwatches, _, rfl, hwatches⟩

/-- A world whose name has an inner space, a reserved byte and a letter outside ASCII. -/
def Sample.spaced : ValidatedWorldPath := ⟨"home/a b?é", by decide +kernel⟩

/-- That world can be watched. -/
theorem watches_iff_spaced : (SubscribePattern.new Sample.spaced.name).Watches Sample.spaced := by
  have hlast : Sample.spaced.name.toList.getLast? = some 'é' := by decide +kernel
  refine ((watches_iff (by rw [hlast]; decide)).mpr fun c hc => ?_).1
  rw [hlast, Option.mem_some_iff] at hc
  subst hc
  decide

/-- A world whose name ends in a space. -/
def Sample.trailing : ValidatedWorldPath := ⟨"home/a ", by decide +kernel⟩

/-- The name without that space is canonical. -/
theorem Sample.canonical_trimmed : checkCanonical "home/a" = .ok () := by decide +kernel

/-- The world without that space. -/
def Sample.trimmed : ValidatedWorldPath := ⟨"home/a", Sample.canonical_trimmed⟩

/-- The pattern and the link of a world that ends in a space watch another world. -/
theorem watches_other_world :
    (SubscribePattern.new Sample.trailing.name).exactWorld = .ok (some Sample.trimmed) ∧
      (SubscribePattern.new Sample.trailing.name).matchesWorld Sample.trailing = false ∧
      followMonitor (applyWorldLinks Sample.trailing.name []) = some (SubscribePattern.new Sample.trimmed.name) := by
  decide +kernel

end AuditeDB
