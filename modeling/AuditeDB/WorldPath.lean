import Mathlib
import AuditeDB.Library.Lexemes
import AuditeDB.Library.Percent
import AuditeDB.Types

/-!
# World names and their directories

What validation says about the name of a world, and the directory name that a world is stored under. The directory
name is the percent-encoding of the world name, and reading a directory name back accepts only what the encoder
writes, so that worlds and directories correspond one to one.
-/

namespace AuditeDB

open Utf8 Results Percent Lexemes

/-- `ValidatedWorldPath::new`: validation without the reason for a rejection. -/
def ValidatedWorldPath.new (worldName : String) : Option ValidatedWorldPath :=
  (ValidatedWorldPath.fromCanonical worldName).toOption

/-- What the name of a world satisfies. -/
structure ValidName (name : String) : Prop where
  nonempty : name ≠ ""
  short : diskWorldNameLen name ≤ 200
  unreserved : isReservedWorldName name = false
  noBackslash : '\\' ∉ name.toList
  noControl : ∀ c ∈ name.toList, isControlChar c = false
  segments : ∀ segment ∈ name.toList.splitOn '/', segment ≠ [] ∧ isDotSegment segment = false
  namespaced : hasCanonicalNamespace name = true

/-- Validation accepts exactly the valid names. -/
theorem checkCanonical_eq_ok {name : String} : checkCanonical name = .ok () ↔ ValidName name := by
  simp only [checkCanonical, validateWorldName, bind_eq_ok, rejectIf_eq_ok, Unique.exists_iff,
    PUnit.default_eq_unit, forM_eq_ok]
  constructor
  · rintro ⟨⟨hnonempty, hshort, hreserved, hbackslash, hcontrol, hsegments⟩, hnamespace⟩
    exact ⟨by simpa using hnonempty, not_lt.mp hshort, by simpa using hreserved, by simpa using hbackslash,
      by simpa using hcontrol, by simpa using hsegments, by simpa using hnamespace⟩
  · intro h
    exact ⟨⟨by simpa using h.nonempty, not_lt.mpr h.short, by simpa using h.unreserved,
      by simpa using h.noBackslash, by simpa using h.noControl, by simpa using h.segments⟩,
      by simpa using h.namespaced⟩

/-- The name of a world is valid. -/
theorem ValidatedWorldPath.valid (world : ValidatedWorldPath) : ValidName world.name :=
  checkCanonical_eq_ok.mp world.canonical

/-- What an accepted name is. -/
theorem ValidatedWorldPath.fromCanonical_eq_ok {name : String} {world : ValidatedWorldPath} :
    fromCanonical name = .ok world ↔ name = world.name := by
  refine ⟨fun h => ?_, fun h => h ▸ world.fromCanonical_name⟩
  unfold fromCanonical at h
  split at h
  · cases h; rfl
  · cases h

/-- An empty segment stands before a leading slash, behind a trailing one and between two adjacent ones. -/
theorem ValidName.slashes {name : String} (h : ValidName name) :
    name.toList.head? ≠ some '/' ∧ name.toList.getLast? ≠ some '/' ∧
      ∀ left right, name.toList ≠ left ++ '/' :: '/' :: right := by
  have hsegment : [] ∉ name.toList.splitOn '/' := fun hnil => (h.segments [] hnil).1 rfl
  refine ⟨fun hhead => hsegment ?_, fun hlast => hsegment ?_, fun left right hline => hsegment ?_⟩
  · obtain ⟨rest, hrest⟩ := List.head?_eq_some_iff.mp hhead
    have hsplit := List.splitOn_append_cons_self (a := '/') [] rest
    rw [hrest, show '/' :: rest = [] ++ '/' :: rest from rfl, hsplit]
    simp
  · obtain ⟨left, hleft⟩ := List.getLast?_eq_some_iff.mp hlast
    have hsplit := List.splitOn_append_cons_self (a := '/') left []
    rw [hleft, hsplit]
    simp
  · have hsplit := List.splitOn_append_cons_self (a := '/') left ('/' :: right)
    have hinner := List.splitOn_append_cons_self (a := '/') [] right
    rw [hline, hsplit, show '/' :: right = [] ++ '/' :: right from rfl, hinner]
    simp

/-- A world lies below one of the namespaces. -/
theorem ValidName.below_namespace {name : String} (h : ValidName name) :
    ∃ root ∈ namespacePrefixes, ∃ rest, name.toList = root.toList ++ '/' :: rest := by
  obtain ⟨first, hfirst⟩ : ∃ first, first = (name.toList.splitOn '/').headD [] := ⟨_, rfl⟩
  have hroot : String.ofList first ∈ namespacePrefixes := by
    rw [hfirst]
    exact List.contains_iff_mem.mp h.namespaced
  cases hsplit : splitOnce '/' name.toList with
  | none =>
    -- Without a slash the name is the namespace itself, which is reserved.
    rw [List.splitOn_eq_singleton (splitOnce_eq_none.mp hsplit), List.headD_cons] at hfirst
    rw [hfirst, String.ofList_toList] at hroot
    have hreserved := h.unreserved
    simp only [isReservedWorldName, List.contains_iff_mem.mpr hroot, Bool.true_or] at hreserved
    cases hreserved
  | some parts =>
    obtain ⟨hline, hnot⟩ := splitOnce_eq_some.mp hsplit
    rw [hline, List.splitOn_append_cons_self_of_not_mem hnot, List.headD_cons] at hfirst
    exact ⟨String.ofList first, hroot, parts.2, by rw [String.toList_ofList, hfirst, hline]⟩

/-- The set of `percent_encoding` made of `CONTROLS` and some added bytes; bytes outside ASCII are always escaped. -/
def asciiSet (added : String) (hpercent : (utf8Bytes added).contains 37 = true) : EscapeSet where
  escapes byte := 0x80 ≤ byte || (byte ≤ 0x1F || byte = 0x7F) || (utf8Bytes added).contains byte
  percent := by simp only [hpercent, Bool.or_true]
  ascii byte h := by
    simp only [Bool.or_eq_false_iff, decide_eq_false_iff_not] at h
    exact UInt8.not_le.mp h.1.1

/-- `DISK_ENCODE`. -/
def diskEncode : EscapeSet := asciiSet "%./\\:*?\"<>| " (by decide)

/-- `disk_name`: the directory of a world. -/
def diskName (world : String) : String := encode diskEncode world

/-- What is wrong with a directory name; the rendering into an SQLite error is left out. -/
inductive DiskNameError where
  | invalidUtf8 (name : String)
  | invalidWorld (name : String)
  | nonCanonical (name world : String)
deriving DecidableEq

/-- `decode_disk_world_name`: the world of a directory. -/
def decodeDiskWorldName (name : String) : Except DiskNameError ValidatedWorldPath := do
  let decoded ← requireSome (.invalidUtf8 name) (decode name)
  let world ← requireSome (.invalidWorld name) (ValidatedWorldPath.new decoded)
  let canonical := diskName world.name
  rejectIf (canonical ≠ name) (.nonCanonical name world.name)
  return world

/-- The bytes that a directory name escapes are the ones that its length counts three times. -/
theorem diskEncode_escapes : ∀ byte, diskEncode.escapes byte = shouldDiskEncode byte := by
  have hall : ∀ n < 256, diskEncode.escapes (UInt8.ofNat n) = shouldDiskEncode (UInt8.ofNat n) := by
    decide +kernel
  intro byte
  rw [← UInt8.ofNat_toNat (x := byte)]
  exact hall _ byte.toNat_lt

/-- A name that stays one component below the directory it is joined to. -/
structure SingleComponent (name : String) : Prop where
  nonempty : name ≠ ""
  plain : ∀ c ∈ name.toList, c ≠ '/' ∧ c ≠ '\\' ∧ c ≠ '.' ∧ c ≠ ':' ∧ isControlChar c = false

/-- The length that validation bounds is the length of the directory name. -/
theorem length_diskName (world : String) : (utf8Bytes (diskName world)).length = diskWorldNameLen world := by
  simp only [diskName, length_utf8Bytes_encode, diskWorldNameLen, diskEncode_escapes]

/-- The directory name of a world is one component. -/
theorem diskName_singleComponent (world : ValidatedWorldPath) : SingleComponent (diskName world.name) := by
  constructor
  · intro hempty
    have hdecode := decode_encode diskEncode world.name
    rw [show encode diskEncode world.name = "" from hempty] at hdecode
    exact world.valid.nonempty (Option.some.inj hdecode).symm
  · have hplain : ∀ n < 256, diskEncode.escapes (UInt8.ofNat n) = false →
        Char.ofNat n ≠ '/' ∧ Char.ofNat n ≠ '\\' ∧ Char.ofNat n ≠ '.' ∧ Char.ofNat n ≠ ':' ∧
          isControlChar (Char.ofNat n) = false := by
      decide +kernel
    refine forall_mem_encode (fun c => c ≠ '/' ∧ c ≠ '\\' ∧ c ≠ '.' ∧ c ≠ ':' ∧ isControlChar c = false) (by decide)
      (by decide) (fun byte hbyte => ?_) world.name
    exact hplain byte.toNat byte.toNat_lt (by rwa [UInt8.ofNat_toNat])

/-- The world of a directory is read back. -/
theorem decodeDiskWorldName_diskName (world : ValidatedWorldPath) :
    decodeDiskWorldName (diskName world.name) = .ok world := by
  have hdecode : decode (diskName world.name) = some world.name := decode_encode diskEncode world.name
  have hnew : ValidatedWorldPath.new world.name = some world := by
    rw [ValidatedWorldPath.new, world.fromCanonical_name]
    rfl
  rw [decodeDiskWorldName, hdecode]
  simp only [requireSome, ok_bind, hnew, ne_eq, not_true_eq_false, rejectIf_false]
  rfl

/-- A directory name that is accepted is the one of its world. -/
theorem decodeDiskWorldName_eq_ok {name : String} {world : ValidatedWorldPath}
    (h : decodeDiskWorldName name = .ok world) : name = diskName world.name := by
  simp only [decodeDiskWorldName, bind_eq_ok, requireSome_eq_ok, rejectIf_eq_ok, pure_eq_ok, not_not] at h
  obtain ⟨decoded, -, accepted, -, -, hname, rfl⟩ := h
  exact hname.symm

/-- Disk names are a faithful encoding into single components: every world is read back from its directory, the
length that validation bounds is the real one, different worlds have different directories below the data root, and
only the directory of a world is read as one. -/
theorem diskName_faithful :
    (∀ world : ValidatedWorldPath, decodeDiskWorldName (diskName world.name) = .ok world ∧
      (utf8Bytes (diskName world.name)).length = diskWorldNameLen world.name ∧
      diskWorldNameLen world.name ≤ 200 ∧ SingleComponent (diskName world.name)) ∧
    (∀ world other : ValidatedWorldPath, diskName world.name = diskName other.name → world = other) ∧
    ∀ (name : String) (world : ValidatedWorldPath),
      decodeDiskWorldName name = .ok world → name = diskName world.name := by
  refine ⟨fun world => ?_, fun world other h => ?_, fun name world h => decodeDiskWorldName_eq_ok h⟩
  · exact ⟨decodeDiskWorldName_diskName world, length_diskName world.name, world.valid.short,
      diskName_singleComponent world⟩
  · exact ValidatedWorldPath.ext (encode_injective diskEncode h)

end AuditeDB
