import Mathlib
import AuditeDB.WorldPath
import AuditeDB.Engine.System

/-!
# Listing the worlds below a prefix

A listing scans the data root and the worlds in memory, sorts the names it found and drops the repeated ones. The
bounded listing stops a scan that finds more names than its limit, and answers only when few enough worlds match. The
order in which the directory and the map are scanned is not fixed, and need not be the same in two calls.
-/

namespace AuditeDB

open Utf8 Results

/-- A file name of the operating system. -/
inductive FileName where
  | unicode (text : String)
  | other (bytes : Bytes)
deriving DecidableEq

/-- `into_string`. -/
def FileName.intoString : FileName → Option String
  | unicode text => some text
  | other _ => none

/-- What `read_dir` yields for an entry of the data root: its name, and whether there is a `universe.db` below it. -/
structure DirEntry where
  fileName : FileName
  hasDatabase : Bool
deriving DecidableEq

/-- The failures of a scan; their rendering into an SQLite error is left out. -/
inductive ScanError where
  | io
  | notUnicode
  | diskName (error : DiskNameError)
deriving DecidableEq

/-- An entry of a scan, or the failure to read it; a directory that cannot be opened fails at its first entry. -/
abbrev ScannedEntry : Type := Except ScanError DirEntry

/-- What a scan takes from an entry: nothing when it has no database, and its world otherwise. -/
def readEntry (entry : ScannedEntry) : Except ScanError (Option ValidatedWorldPath) := do
  let entry ← entry
  if !entry.hasDatabase then return none
  let name ← requireSome .notUnicode entry.fileName.intoString
  let world ← (decodeDiskWorldName name).mapError .diskName
  return some world

/-- The loop of `list_matching`. -/
def scanMatching (keep : ValidatedWorldPath → Bool) :
    List ScannedEntry → List ValidatedWorldPath → Except ScanError (List ValidatedWorldPath)
  | [], out => pure out
  | entry :: rest, out => do
    match ← readEntry entry with
    | none => scanMatching keep rest out
    | some world => if keep world then scanMatching keep rest (out ++ [world]) else scanMatching keep rest out

/-- The loop of `list_matching_bounded`. -/
def scanMatchingBounded (keep : ValidatedWorldPath → Bool) (max : Nat) :
    List ScannedEntry → List ValidatedWorldPath → Except ScanError (Option (List ValidatedWorldPath))
  | [], out => pure (some out)
  | entry :: rest, out => do
    match ← readEntry entry with
    | none => scanMatchingBounded keep max rest out
    | some world =>
      if keep world then
        if max ≤ out.length then pure none else scanMatchingBounded keep max rest (out ++ [world])
      else scanMatchingBounded keep max rest out

/-- What `as_str().cmp` compares: the bytes of the name. -/
def ValidatedWorldPath.key (world : ValidatedWorldPath) : List Nat := SqlValue.octets (utf8Bytes world.name)

/-- `sort_by` on the names. -/
def sortByName (worlds : List ValidatedWorldPath) : List ValidatedWorldPath :=
  worlds.insertionSort fun a b => a.key ≤ b.key

/-- `list_matching`. -/
def listMatching (scan : List ScannedEntry) (keep : ValidatedWorldPath → Bool) :
    Except ScanError (List ValidatedWorldPath) := do
  let out ← scanMatching keep scan []
  return sortByName out

/-- `list_matching_bounded`. -/
def listMatchingBounded (scan : List ScannedEntry) (keep : ValidatedWorldPath → Bool) (max : Nat) :
    Except ScanError (Option (List ValidatedWorldPath)) := do
  let out ← scanMatchingBounded keep max scan []
  return out.map sortByName

/-- `is_prefix_dot_like`. -/
def isPrefixDotLike : List Char → Bool
  | '.' :: _ => true
  | '%' :: '2' :: 'e' :: _ => true
  | '%' :: '2' :: 'E' :: _ => true
  | _ => false

/-- The loop of `validate_world_prefix` over the segments; the last one may be empty behind a slash. -/
def validSegments (endsWithSlash : Bool) : List (List Char) → Bool
  | [] => true
  | segment :: rest =>
    if segment.isEmpty then rest.isEmpty && endsWithSlash
    else !isPrefixDotLike segment && validSegments endsWithSlash rest

/-- `validate_world_prefix`. -/
def validateWorldPrefix (text : String) : Bool :=
  text.isEmpty ||
    !(text.toList.contains '\\' || text.toList.any isControlChar) && hasCanonicalNamespace text &&
      validSegments (text.toList.getLast? == some '/') (text.toList.splitOn '/')

/-- The world that `ValidatedWorldPrefix::new` validates in place of a prefix. -/
def prefixCandidate (text : String) : String :=
  if text.isEmpty then "home/_"
  else if namespacePrefixes.contains text then text ++ "/_"
  else text ++ "_"

/-- `ValidatedWorldPrefix`: a prefix that `ValidatedWorldPrefix::new` accepts. -/
structure ValidatedWorldPrefix where
  text : String
  valid : validateWorldPrefix text = true
  candidate : (ValidatedWorldPath.new (prefixCandidate text)).isSome = true

/-- `starts_with` on the name of a world. -/
def ValidatedWorldPrefix.matches (lead : ValidatedWorldPrefix) (world : ValidatedWorldPath) : Bool :=
  startsWith world.name lead.text

namespace MemoryStore

/-- `MemoryStore::list_with_prefix`, on the keys of the map in the order of its iterator. -/
def listWithPrefix (keys : List ValidatedWorldPath) (lead : ValidatedWorldPrefix) : List ValidatedWorldPath :=
  sortByName (keys.filter lead.matches)

/-- The loop of `MemoryStore::list_with_prefix_bounded`. -/
def collectBounded (max : Nat) : List ValidatedWorldPath → List ValidatedWorldPath → Option (List ValidatedWorldPath)
  | [], out => some out
  | world :: rest, out => if max ≤ out.length then none else collectBounded max rest (out ++ [world])

/-- `MemoryStore::list_with_prefix_bounded`. -/
def listWithPrefixBounded (keys : List ValidatedWorldPath) (lead : ValidatedWorldPrefix) (max : Nat) :
    Option (List ValidatedWorldPath) :=
  (collectBounded max (keys.filter lead.matches) []).map sortByName

end MemoryStore

/-- `sort_dedup_worlds`. -/
def sortDedupWorlds (worlds : List ValidatedWorldPath) : List ValidatedWorldPath :=
  (sortByName worlds).destutter (· ≠ ·)

/-- The errors of a listing; the classification of storage failures is left out. -/
inductive ListError where
  | auth (gate : AuthGate)
  | shuttingDown
  | storage (error : ScanError)
deriving DecidableEq

/-- `EngineOps::list_worlds_with_prefix`. -/
def listWorldsWithPrefix (config : Config) (core : Core) (scan : List ScannedEntry) (keys : List ValidatedWorldPath)
    (lead : ValidatedWorldPrefix) (tier : Tier) : Except ListError (List ValidatedWorldPath) := do
  rejectIf (!canRead config tier) (.auth .read)
  rejectIf core.shuttingDown .shuttingDown
  let names ← (listMatching scan lead.matches).mapError .storage
  return sortDedupWorlds (names ++ MemoryStore.listWithPrefix keys lead)

/-- `EngineOps::list_worlds_with_prefix_bounded`. -/
def listWorldsWithPrefixBounded (config : Config) (core : Core) (scan : List ScannedEntry)
    (keys : List ValidatedWorldPath) (lead : ValidatedWorldPrefix) (tier : Tier) (max : Nat) :
    Except ListError (Option (List ValidatedWorldPath)) := do
  rejectIf (!canRead config tier) (.auth .read)
  rejectIf core.shuttingDown .shuttingDown
  let limit := min (max + 1) usizeMax
  match ← (listMatchingBounded scan lead.matches limit).mapError .storage with
  | none => return none
  | some names =>
    match MemoryStore.listWithPrefixBounded keys lead limit with
    | none => return none
    | some memNames =>
      let names := sortDedupWorlds (names ++ memNames)
      return if max < names.length then none else some names

/-- The worlds below a prefix, on disk or in memory. -/
def Core.listed (core : Core) (lead : ValidatedWorldPrefix) : Finset ValidatedWorldPath :=
  (core.data.keys.toFinset.filter (fun world => (core.database world).isSome) ∪ core.mem.map.keys.toFinset).filter
    fun world => lead.matches world

/-- A scan finds the directories with a database, each under the name of its world and once, among other entries. -/
structure Core.Scanned (core : Core) (entries : List DirEntry) : Prop where
  distinct : (entries.map DirEntry.fileName).Nodup
  sound : ∀ entry ∈ entries, entry.hasDatabase = true →
    ∃ world, (core.database world).isSome = true ∧ entry.fileName = .unicode (diskName world.name)
  complete : ∀ world, (core.database world).isSome = true → ⟨.unicode (diskName world.name), true⟩ ∈ entries

/-- The order by name tells worlds apart. -/
theorem ValidatedWorldPath.key_injective : Function.Injective ValidatedWorldPath.key := by
  intro a b h
  exact ValidatedWorldPath.ext (utf8Bytes_injective (SqlValue.octets_injective h))

section

variable {keep : ValidatedWorldPath → Bool} {max : Nat} {scan : List ScannedEntry}
  {found : ScannedEntry → Option ValidatedWorldPath}

/-- A scan that can read every entry collects the worlds it keeps. -/
theorem scanMatching_eq (h : ∀ entry ∈ scan, readEntry entry = .ok (found entry)) (out : List ValidatedWorldPath) :
    scanMatching keep scan out = .ok (out ++ (scan.filterMap found).filter keep) := by
  induction scan generalizing out with
  | nil => simp [scanMatching, pure, Except.pure]
  | cons entry rest ih =>
    have hrest := ih fun e he => h e (List.mem_cons_of_mem _ he)
    rw [scanMatching, h entry (List.mem_cons_self ..), ok_bind]
    cases hfound : found entry with
    | none => rw [List.filterMap_cons_none hfound, hrest]
    | some world =>
      rw [List.filterMap_cons_some hfound]
      by_cases hkeep : keep world = true
      · simp [hkeep, hrest]
      · simp [hkeep, hrest]

/-- The bounded scan gives up exactly when there are more of them than its bound. -/
theorem scanMatchingBounded_eq (h : ∀ entry ∈ scan, readEntry entry = .ok (found entry))
    {out : List ValidatedWorldPath} (hout : out.length ≤ max) :
    scanMatchingBounded keep max scan out =
      .ok (if (out ++ (scan.filterMap found).filter keep).length ≤ max
        then some (out ++ (scan.filterMap found).filter keep) else none) := by
  induction scan generalizing out with
  | nil => simp [scanMatchingBounded, pure, Except.pure, hout]
  | cons entry rest ih =>
    have hrest := fun out hout => @ih (fun e he => h e (List.mem_cons_of_mem _ he)) out hout
    rw [scanMatchingBounded, h entry (List.mem_cons_self ..), ok_bind]
    cases hfound : found entry with
    | none => rw [List.filterMap_cons_none hfound, hrest out hout]
    | some world =>
      rw [List.filterMap_cons_some hfound]
      by_cases hkeep : keep world = true
      · by_cases hfull : max ≤ out.length
        · have hmore : ¬ (out ++ world :: (rest.filterMap found).filter keep).length ≤ max := by
            rw [List.length_append, List.length_cons]
            omega
          simp only [hkeep, if_true, hfull, List.filter_cons_of_pos, if_neg hmore]
          rfl
        · have hmore : (out ++ [world]).length ≤ max := by
            rw [List.length_append, List.length_singleton]
            omega
          simp only [hkeep, if_true, hfull, if_false, List.filter_cons_of_pos, hrest _ hmore]
          simp
      · simp only [hkeep, if_false, Bool.false_eq_true, List.filter_cons_of_neg hkeep, hrest out hout]

/-- The bounded scan of the map gives up exactly when there are more names than its bound. -/
theorem MemoryStore.collectBounded_eq {worlds out : List ValidatedWorldPath} (hout : out.length ≤ max) :
    collectBounded max worlds out = if (out ++ worlds).length ≤ max then some (out ++ worlds) else none := by
  induction worlds generalizing out with
  | nil => simp [collectBounded, hout]
  | cons world rest ih =>
    rw [collectBounded]
    split_ifs with hfull hmore hmore
    · rw [List.length_append, List.length_cons] at hmore
      omega
    · rfl
    · rw [ih (by rw [List.length_append, List.length_singleton]; omega), List.append_assoc, List.singleton_append,
        if_pos hmore]
    · rw [ih (by rw [List.length_append, List.length_singleton]; omega), List.append_assoc, List.singleton_append,
        if_neg hmore]

end

/-- Sorting keeps the worlds and puts them in order. -/
theorem sortByName_perm (worlds : List ValidatedWorldPath) : (sortByName worlds).Perm worlds :=
  List.perm_insertionSort _ _

/-- The sorted list without repetitions has the same worlds, in strict order. -/
theorem sortDedupWorlds_spec (worlds : List ValidatedWorldPath) :
    (sortDedupWorlds worlds).Pairwise (fun a b => a.key < b.key) ∧
      ∀ world, world ∈ sortDedupWorlds worlds ↔ world ∈ worlds := by
  have hantisymm : Std.Antisymm fun a b : ValidatedWorldPath => a.key ≤ b.key :=
    ⟨fun a b hab hba => ValidatedWorldPath.key_injective (le_antisymm hab hba)⟩
  have htotal : Std.Total fun a b : ValidatedWorldPath => a.key ≤ b.key := ⟨fun a b => le_total a.key b.key⟩
  have htrans : IsTrans ValidatedWorldPath fun a b => a.key ≤ b.key := ⟨fun _ _ _ => le_trans⟩
  have hsorted : (sortByName worlds).Pairwise fun a b => a.key ≤ b.key := List.pairwise_insertionSort _ _
  rw [sortDedupWorlds, hsorted.destutter_eq_dedup]
  constructor
  · have hle := hsorted.sublist (List.dedup_sublist _)
    refine (hle.and (List.nodup_dedup _)).imp ?_
    intro a b hab
    exact lt_of_le_of_ne hab.1 fun hkey => hab.2 (ValidatedWorldPath.key_injective hkey)
  · intro world
    rw [List.mem_dedup, (sortByName_perm worlds).mem_iff]

/-- Lists with the same worlds are listed the same. -/
theorem sortDedupWorlds_congr {a b : List ValidatedWorldPath} (h : ∀ world, world ∈ a ↔ world ∈ b) :
    sortDedupWorlds a = sortDedupWorlds b := by
  obtain ⟨hasorted, hamem⟩ := sortDedupWorlds_spec a
  obtain ⟨hbsorted, hbmem⟩ := sortDedupWorlds_spec b
  have hne : ∀ {l : List ValidatedWorldPath}, l.Pairwise (fun a b => a.key < b.key) → l.Nodup :=
    fun hl => hl.imp fun hlt heq => absurd (congrArg ValidatedWorldPath.key heq) hlt.ne
  have hperm : (sortDedupWorlds a).Perm (sortDedupWorlds b) :=
    (List.perm_ext_iff_of_nodup (hne hasorted) (hne hbsorted)).mpr fun world => by rw [hamem, hbmem, h]
  refine hperm.eq_of_pairwise ?_ hasorted hbsorted
  intro x y _ _ hxy hyx
  exact absurd hyx hxy.asymm

/-- The length of the list is the number of distinct worlds in it. -/
theorem length_sortDedupWorlds (worlds : List ValidatedWorldPath) :
    (sortDedupWorlds worlds).length = worlds.toFinset.card := by
  obtain ⟨hsorted, hmem⟩ := sortDedupWorlds_spec worlds
  have hnodup : (sortDedupWorlds worlds).Nodup :=
    hsorted.imp fun hlt heq => absurd (congrArg ValidatedWorldPath.key heq) hlt.ne
  rw [← List.toFinset_card_of_nodup hnodup]
  congr 1
  ext world
  rw [List.mem_toFinset, List.mem_toFinset, hmem]

/-- The world that a scan takes from an entry it can read. -/
def foundWorld (entry : ScannedEntry) : Option ValidatedWorldPath := (readEntry entry).toOption.join

/-- The directory of a world is read as that world. -/
theorem readEntry_diskName (world : ValidatedWorldPath) :
    readEntry (.ok ⟨.unicode (diskName world.name), true⟩) = .ok (some world) := by
  simp [readEntry, FileName.intoString, requireSome, decodeDiskWorldName_diskName, ok_bind, Except.mapError, pure,
    Except.pure]

/-- Only the directory of a world is found as that world. -/
theorem foundWorld_eq_some {entry : DirEntry} {world : ValidatedWorldPath} :
    foundWorld (.ok entry) = some world ↔ entry = ⟨.unicode (diskName world.name), true⟩ := by
  constructor
  · intro h
    have hread : readEntry (.ok entry) = .ok (some world) := by
      unfold foundWorld at h
      cases hresult : readEntry (.ok entry) with
      | error error => simp [hresult, Except.toOption] at h
      | ok found =>
        rw [hresult] at h
        rw [show found = some world from h]
    obtain ⟨fileName, hasDatabase⟩ := entry
    cases hasDatabase with
    | false => cases hread
    | true =>
      simp only [readEntry, ok_bind, Bool.not_true, Bool.false_eq_true, if_false, bind_eq_ok, requireSome_eq_ok,
        mapError_eq_ok, pure_eq_ok, Option.some.injEq] at hread
      obtain ⟨name, hname, decoded, hdecoded, rfl⟩ := hread
      cases fileName with
      | other bytes => cases hname
      | unicode text =>
        obtain rfl := Option.some.inj hname
        rw [decodeDiskWorldName_eq_ok hdecoded]
  · rintro rfl
    simp [foundWorld, readEntry_diskName, Except.toOption]

namespace Core.Scanned

variable {core : Core} {entries : List DirEntry}

/-- The scan can read every entry. -/
theorem reads (h : core.Scanned entries) :
    ∀ entry ∈ entries.map Except.ok, readEntry entry = .ok (foundWorld entry) := by
  intro entry hentry
  obtain ⟨⟨fileName, hasDatabase⟩, he, rfl⟩ := List.mem_map.mp hentry
  cases hasDatabase with
  | false => rfl
  | true =>
    obtain ⟨world, -, hname⟩ := h.sound _ he rfl
    rw [show fileName = _ from hname, readEntry_diskName, foundWorld_eq_some.mpr rfl]

/-- The worlds that a scan finds are those with a database. -/
theorem mem_found (h : core.Scanned entries) (world : ValidatedWorldPath) :
    world ∈ (entries.map Except.ok).filterMap foundWorld ↔ (core.database world).isSome = true := by
  rw [List.mem_filterMap]
  constructor
  · rintro ⟨entry, hentry, hfound⟩
    obtain ⟨entry, he, rfl⟩ := List.mem_map.mp hentry
    obtain rfl := foundWorld_eq_some.mp hfound
    obtain ⟨other, hother, hname⟩ := h.sound _ he rfl
    rwa [ValidatedWorldPath.ext (Percent.encode_injective diskEncode (FileName.unicode.inj hname))]
  · intro hworld
    exact ⟨_, List.mem_map_of_mem (h.complete world hworld), foundWorld_eq_some.mpr rfl⟩

/-- A scan finds a world once. -/
theorem nodup_found (h : core.Scanned entries) : ((entries.map Except.ok).filterMap foundWorld).Nodup := by
  rw [List.filterMap_map]
  refine List.Nodup.filterMap ?_ (h.distinct.of_map _)
  intro a b world ha hb
  rw [foundWorld_eq_some.mp ha, foundWorld_eq_some.mp hb]

end Core.Scanned

section

variable {core : Core} {entries : List DirEntry} {keys : List ValidatedWorldPath} {lead : ValidatedWorldPrefix}

/-- The worlds below a prefix that a scan of the data root finds. -/
def scannedWorlds (entries : List DirEntry) (lead : ValidatedWorldPrefix) : List ValidatedWorldPath :=
  ((entries.map Except.ok).filterMap foundWorld).filter lead.matches

/-- The two scans together find the worlds below the prefix. -/
theorem mem_listed (hscan : core.Scanned entries) (hkeys : keys.Perm core.mem.map.keys) (lead : ValidatedWorldPrefix)
    (world : ValidatedWorldPath) :
    world ∈ scannedWorlds entries lead ++ keys.filter lead.matches ↔ world ∈ core.listed lead := by
  have hdata : (core.database world).isSome = true → world ∈ core.data.keys := by
    intro hworld
    rw [← AList.mem_keys, ← AList.lookup_isSome]
    unfold Core.database at hworld
    split at hworld
    · next h => rw [h]; rfl
    · cases hworld
  simp only [scannedWorlds, Core.listed, List.mem_append, List.mem_filter, hscan.mem_found, hkeys.mem_iff,
    Finset.mem_filter, Finset.mem_union, List.mem_toFinset]
  tauto

/-- The number of distinct worlds that the two scans find. -/
theorem card_listed (hscan : core.Scanned entries) (hkeys : keys.Perm core.mem.map.keys)
    (lead : ValidatedWorldPrefix) :
    (sortDedupWorlds (scannedWorlds entries lead ++ keys.filter lead.matches)).length = (core.listed lead).card := by
  rw [length_sortDedupWorlds]
  congr 1
  ext world
  rw [List.mem_toFinset, mem_listed hscan hkeys]

/-- Sorting the two parts first does not change the listing. -/
theorem sortDedupWorlds_append (a b : List ValidatedWorldPath) :
    sortDedupWorlds (sortByName a ++ sortByName b) = sortDedupWorlds (a ++ b) :=
  sortDedupWorlds_congr fun world => by
    rw [List.mem_append, List.mem_append, (sortByName_perm a).mem_iff, (sortByName_perm b).mem_iff]

variable {config : Config} {tier : Tier} {max : Nat}

/-- What the listing returns. -/
theorem listWorldsWithPrefix_eq (hread : canRead config tier = true) (hopen : core.shuttingDown = false)
    (hscan : core.Scanned entries) :
    listWorldsWithPrefix config core (entries.map .ok) keys lead tier =
      .ok (sortDedupWorlds (scannedWorlds entries lead ++ keys.filter lead.matches)) := by
  have hdurable : listMatching (entries.map .ok) lead.matches = .ok (sortByName (scannedWorlds entries lead)) := by
    rw [listMatching, scanMatching_eq hscan.reads, ok_bind, List.nil_append]
    rfl
  rw [listWorldsWithPrefix, hread, hopen, hdurable, MemoryStore.listWithPrefix]
  exact congrArg Except.ok (sortDedupWorlds_append _ _)

/-- The bounded scan of the directory gives up exactly when more worlds than the limit match. -/
theorem listMatchingBounded_eq (hscan : core.Scanned entries) (limit : Nat) :
    listMatchingBounded (entries.map .ok) lead.matches limit =
      .ok (if (scannedWorlds entries lead).length ≤ limit
        then some (sortByName (scannedWorlds entries lead)) else none) := by
  rw [listMatchingBounded, scanMatchingBounded_eq hscan.reads (Nat.zero_le _), ok_bind, List.nil_append]
  unfold scannedWorlds
  split <;> rfl

/-- So does the bounded scan of the memory worlds. -/
theorem MemoryStore.listWithPrefixBounded_eq (limit : Nat) :
    MemoryStore.listWithPrefixBounded keys lead limit =
      if (keys.filter lead.matches).length ≤ limit then some (sortByName (keys.filter lead.matches)) else none := by
  rw [MemoryStore.listWithPrefixBounded, MemoryStore.collectBounded_eq (Nat.zero_le _), List.nil_append]
  split <;> rfl

/-- A list without repetitions of worlds below the prefix is no longer than their number. -/
theorem length_le_card_listed {worlds : List ValidatedWorldPath} (hnodup : worlds.Nodup)
    (hworlds : ∀ world ∈ worlds, world ∈ core.listed lead) : worlds.length ≤ (core.listed lead).card := by
  rw [← List.toFinset_card_of_nodup hnodup]
  exact Finset.card_le_card fun world hworld => hworlds world (List.mem_toFinset.mp hworld)

/-- What the bounded listing returns: a scan that is cut short has found too many worlds already. -/
theorem listWorldsWithPrefixBounded_eq (hread : canRead config tier = true) (hopen : core.shuttingDown = false)
    (hscan : core.Scanned entries) (hkeys : keys.Perm core.mem.map.keys) (hmax : max ≤ usizeMax) :
    listWorldsWithPrefixBounded config core (entries.map .ok) keys lead tier max =
      .ok (if (core.listed lead).card ≤ max
        then some (sortDedupWorlds (scannedWorlds entries lead ++ keys.filter lead.matches)) else none) := by
  have hmem := mem_listed hscan hkeys lead
  have hcard := card_listed hscan hkeys lead
  have hdurable : (scannedWorlds entries lead).length ≤ (core.listed lead).card :=
    length_le_card_listed (hscan.nodup_found.filter _) fun world hworld =>
      (hmem world).mp (List.mem_append_left _ hworld)
  have hmemory : (keys.filter lead.matches).length ≤ (core.listed lead).card :=
    length_le_card_listed ((hkeys.nodup_iff.mpr core.mem.map.keys_nodup).filter _) fun world hworld =>
      (hmem world).mp (List.mem_append_right _ hworld)
  have hlimit : max ≤ min (max + 1) usizeMax := le_min (Nat.le_succ _) hmax
  rw [listWorldsWithPrefixBounded, hread, hopen]
  dsimp only
  rw [listMatchingBounded_eq hscan, MemoryStore.listWithPrefixBounded_eq]
  by_cases hall : (scannedWorlds entries lead).length ≤ min (max + 1) usizeMax ∧
      (keys.filter lead.matches).length ≤ min (max + 1) usizeMax
  · rw [if_pos hall.1, if_pos hall.2]
    show Except.ok (if max < (sortDedupWorlds (sortByName (scannedWorlds entries lead) ++
      sortByName (keys.filter lead.matches))).length then none else some _) = _
    rw [sortDedupWorlds_append, hcard]
    by_cases hfew : (core.listed lead).card ≤ max
    · rw [if_pos hfew, if_neg (Nat.not_lt.mpr hfew)]
    · rw [if_neg hfew, if_pos (Nat.not_le.mp hfew)]
  · have hmany : ¬ (core.listed lead).card ≤ max := fun hfew =>
      hall ⟨(hdurable.trans hfew).trans hlimit, (hmemory.trans hfew).trans hlimit⟩
    rw [if_neg hmany]
    by_cases hcut : (scannedWorlds entries lead).length ≤ min (max + 1) usizeMax
    · rw [if_pos hcut, if_neg fun hlen => hall ⟨hcut, hlen⟩]
      rfl
    · rw [if_neg hcut]
      rfl

variable {entries' : List DirEntry} {keys' : List ValidatedWorldPath}

/-- When nothing changes the worlds below a prefix between the two calls, whatever order each of them meets the
directory entries and the memory worlds in: the listing names every such world once, in the byte order of the names,
and the bounded listing gives up when there are more than `max` of them and otherwise returns the same. -/
theorem listWorldsWithPrefixBounded_agrees (hread : canRead config tier = true) (hopen : core.shuttingDown = false)
    (hscan : core.Scanned entries) (hscan' : core.Scanned entries') (hkeys : keys.Perm core.mem.map.keys)
    (hkeys' : keys'.Perm core.mem.map.keys) (hmax : max ≤ usizeMax) :
    ∃ all, listWorldsWithPrefix config core (entries.map .ok) keys lead tier = .ok all ∧
      all.Pairwise (fun a b => a.key < b.key) ∧
      (∀ world, world ∈ all ↔ world ∈ core.listed lead) ∧
      listWorldsWithPrefixBounded config core (entries'.map .ok) keys' lead tier max =
        .ok (if max < (core.listed lead).card then none else some all) := by
  have hmem := mem_listed hscan hkeys lead
  have hmem' := mem_listed hscan' hkeys' lead
  obtain ⟨hsorted, hspec⟩ := sortDedupWorlds_spec (scannedWorlds entries lead ++ keys.filter lead.matches)
  refine ⟨_, listWorldsWithPrefix_eq hread hopen hscan, hsorted, fun world => (hspec world).trans (hmem world), ?_⟩
  have horder : sortDedupWorlds (scannedWorlds entries' lead ++ keys'.filter lead.matches) =
      sortDedupWorlds (scannedWorlds entries lead ++ keys.filter lead.matches) :=
    sortDedupWorlds_congr fun world => (hmem' world).trans (hmem world).symm
  rw [listWorldsWithPrefixBounded_eq hread hopen hscan' hkeys' hmax, horder]
  simp only [← Nat.not_le, ite_not]

end

namespace Sample

/-- The names of two listed worlds are canonical. -/
theorem canonical_listed : checkCanonical "tmp/list/both" = .ok () ∧ checkCanonical "tmp/list/memory" = .ok () := by
  decide +kernel

/-- A world that is on disk and in memory, and one only in memory. -/
def both : ValidatedWorldPath := ⟨"tmp/list/both", canonical_listed.1⟩

/-- The second of them. -/
def memoryOnly : ValidatedWorldPath := ⟨"tmp/list/memory", canonical_listed.2⟩

/-- The prefix is accepted. -/
theorem accepted_list : validateWorldPrefix "tmp/list/" = true ∧
    (ValidatedWorldPath.new (prefixCandidate "tmp/list/")).isSome = true := by
  decide +kernel

/-- What the two worlds are below. -/
def list : ValidatedWorldPrefix := ⟨"tmp/list/", accepted_list.1, accepted_list.2⟩

/-- An engine with the two worlds. -/
def listing : Core :=
  { Core.fresh with
    data := AList.singleton both (.database .empty)
    mem := ⟨(AList.singleton both ⟨[], "", "", []⟩).insert memoryOnly ⟨[], "", "", []⟩, 0⟩ }

/-- The entry of the durable world. -/
def bothEntry : DirEntry := ⟨.unicode (diskName both.name), true⟩

/-- An entry without a database. -/
def strayEntry : DirEntry := ⟨.other [255], false⟩

/-- A scan that meets the entries in either order. -/
theorem scanned_listing {entries : List DirEntry} (h : entries.Perm [bothEntry, strayEntry]) :
    listing.Scanned entries := by
  have hdatabase : ∀ world, (listing.database world).isSome = true → world = both := by
    intro world hworld
    by_contra hne
    have hnone : listing.data.lookup world = none := by
      rw [listing, ← AList.insert_empty, AList.lookup_insert_ne hne, AList.lookup_empty]
    rw [Core.database, hnone] at hworld
    cases hworld
  have hboth : (listing.database both).isSome = true := rfl
  refine ⟨(h.map _).nodup_iff.mpr (by decide), fun entry hentry hhas => ?_, fun world hworld => ?_⟩
  · rcases List.mem_pair.mp (h.mem_iff.mp hentry) with rfl | rfl
    · exact ⟨both, hboth, rfl⟩
    · cases hhas
  · rw [hdatabase world hworld]
    exact h.mem_iff.mpr (List.mem_cons_self ..)

end Sample

/-- Two worlds, one of them at both places: a limit of one is too small, whatever the orders of the scans. -/
theorem listWorldsWithPrefixBounded_agrees_both :
    ∃ all, listWorldsWithPrefix Sample.config Sample.listing ([Sample.bothEntry, Sample.strayEntry].map .ok)
        [Sample.both, Sample.memoryOnly] Sample.list .anon = .ok all ∧
      all.Pairwise (fun a b => a.key < b.key) ∧
      (∀ world, world ∈ all ↔ world ∈ Sample.listing.listed Sample.list) ∧
      listWorldsWithPrefixBounded Sample.config Sample.listing ([Sample.strayEntry, Sample.bothEntry].map .ok)
        [Sample.memoryOnly, Sample.both] Sample.list .anon 1 =
          .ok (if 1 < (Sample.listing.listed Sample.list).card then none else some all) :=
  listWorldsWithPrefixBounded_agrees rfl rfl (Sample.scanned_listing (.refl _))
    (Sample.scanned_listing (List.Perm.swap ..)) (by decide +kernel) (by decide +kernel) (by decide)

end AuditeDB
