import Mathlib
import AuditeDB.Http.Links
import AuditeDB.Audit.Verifier

/-!
# Introspection paths

The paths below `proc` name an endpoint and, for the audit endpoints, a world and an ordinal. Two parsers read them:
one for whole paths, one for the part behind `proc/audit/` that the router hands over. Both find the world between
the fixed parts whatever its name is.
-/

namespace AuditeDB

open Utf8 Results ListFields Percent Lexemes

/-- `ProcEndpoint`. -/
inductive ProcEndpoint where
  | version | worlds | du | df | pool | auditVerify | auditHead | auditStamp
deriving DecidableEq

/-- `ValidatedProcPath`. -/
structure ValidatedProcPath where
  endpoint : ProcEndpoint
  auditWorld : Option ValidatedWorldPath
  auditStampSeq : Option ChainSeq
deriving DecidableEq

/-- `InvalidProcPath`. -/
inductive InvalidProcPath where
  | invalid
deriving DecidableEq

/-- `ChainSeq::new`. -/
def ChainSeq.new (raw : Int) : Option ChainSeq := if h : 0 < raw then some ⟨raw, h⟩ else none

/-- `parse_proc_chain_seq` and `parse_audit_stamp_seq`: an ordinal in canonical decimal form. -/
def parseChainSeq {ε : Type} (error : ε) (raw : List Char) : Except ε ChainSeq := do
  rejectIf (raw.isEmpty || raw.head? = some '+' || raw.head? = some '-' ||
    (1 < raw.length && raw.head? = some '0') || !raw.all Char.isDigit) error
  let seq ← (parseInt i64Range raw).mapError fun _ => error
  requireSome error (ChainSeq.new seq)

/-- `contains("//")`. -/
def hasDoubleSlash (raw : List Char) : Bool := (rsplitOnce ['/', '/'] raw).isSome

/-- The world, endpoint and ordinal of an audit path. -/
def splitAuditPath (raw : List Char) : Except InvalidProcPath (List Char × ProcEndpoint × Option ChainSeq) :=
  match (raw.dropPrefix? "proc/audit/".toList).bind (·.dropSuffix? "/verify".toList) with
  | some world => .ok (world, .auditVerify, none)
  | none =>
    match (raw.dropPrefix? "proc/audit/".toList).bind (·.dropSuffix? "/head".toList) with
    | some world => .ok (world, .auditHead, none)
    | none =>
      match raw.dropPrefix? "proc/audit/".toList with
      | some value => do
        let parts ← requireSome .invalid (rsplitOnce "/stamp/".toList value)
        let stampSeq ← parseChainSeq .invalid parts.2
        return (parts.1, .auditStamp, some stampSeq)
      | none => .error .invalid

/-- `ValidatedProcPath::new`. -/
def ValidatedProcPath.new (raw : String) : Except InvalidProcPath ValidatedProcPath :=
  let raw := trim (· = '/') raw.toList
  if raw = "proc/version".toList then .ok ⟨.version, none, none⟩
  else if raw = "proc/worlds".toList then .ok ⟨.worlds, none, none⟩
  else if raw = "proc/du".toList then .ok ⟨.du, none, none⟩
  else if raw = "proc/df".toList then .ok ⟨.df, none, none⟩
  else if raw = "proc/pool".toList then .ok ⟨.pool, none, none⟩
  else do
    let (name, endpoint, stampSeq) ← splitAuditPath raw
    rejectIf ((trim (· = '/') name).isEmpty || name.head? = some '/' || name.getLast? = some '/' ||
      hasDoubleSlash name) .invalid
    let world ← (ValidatedWorldPath.fromCanonical (String.ofList name)).mapError fun _ => .invalid
    match endpoint with
    | .auditVerify => return ⟨.auditVerify, some world, none⟩
    | .auditHead => return ⟨.auditHead, some world, none⟩
    | .auditStamp => do
      let stampSeq ← requireSome .invalid stampSeq
      return ⟨.auditStamp, some world, some stampSeq⟩
    | _ => .error .invalid

/-- `AuditProcAction`. -/
inductive AuditProcAction where
  | verify | head | stamp (seq : ChainSeq)
deriving DecidableEq

/-- The responses with which `proc_audit_verify` rejects a path. -/
inductive AuditPathError where
  | badRequest (message : String)
  | notFound
deriving DecidableEq

/-- `missing_world_message`. -/
def AuditProcAction.missingWorldMessage : AuditProcAction → String
  | .verify => "audit verify requires a world path"
  | .head => "audit head requires a world path"
  | .stamp _ => "audit stamp requires a world path"

/-- `invalid_world_message`. -/
def AuditProcAction.invalidWorldMessage : AuditProcAction → String
  | .verify => "invalid audit verify world path"
  | .head => "invalid audit head world path"
  | .stamp _ => "invalid audit stamp world path"

/-- The world and the action in the part of a path behind `proc/audit/`. -/
def splitAuditAction (auditPath : List Char) : Except AuditPathError (List Char × AuditProcAction) :=
  match auditPath.dropSuffix? "/verify".toList with
  | some rawWorld => .ok (rawWorld, .verify)
  | none =>
    match auditPath.dropSuffix? "/head".toList with
    | some rawWorld => .ok (rawWorld, .head)
    | none =>
      match rsplitOnce "/stamp/".toList auditPath with
      | some (rawWorld, rawSeq) => do
        let seq ← parseChainSeq (.badRequest "invalid audit stamp sequence") rawSeq
        return (rawWorld, .stamp seq)
      | none => .error .notFound

/-- The part of `proc_audit_verify` that reads its path. -/
def procAuditVerifyPath (auditPath : String) : Except AuditPathError (ValidatedWorldPath × AuditProcAction) := do
  let (rawWorld, action) ← splitAuditAction auditPath.toList
  rejectIf rawWorld.isEmpty (.badRequest action.missingWorldMessage)
  rejectIf (rawWorld.head? = some '/' || rawWorld.getLast? = some '/' || hasDoubleSlash rawWorld)
    (.badRequest action.invalidWorldMessage)
  let world ← requireSome (.badRequest action.invalidWorldMessage)
    (ValidatedWorldPath.new (canonicalizePath (String.ofList rawWorld)))
  return (world, action)

/-- What stands behind the world in the path of an action. -/
def AuditProcAction.trail : AuditProcAction → List Char
  | .verify => "/verify".toList
  | .head => "/head".toList
  | .stamp seq => "/stamp/".toList ++ (toString seq.get).toList

/-- The ordinal of an action is a value of its type. -/
def AuditProcAction.InRange : AuditProcAction → Prop
  | .stamp seq => seq.get ≤ i64Max
  | _ => True

/-- The introspection path of an action on a world. -/
def AuditProcAction.procPath (world : ValidatedWorldPath) : AuditProcAction → ValidatedProcPath
  | .verify => ⟨.auditVerify, some world, none⟩
  | .head => ⟨.auditHead, some world, none⟩
  | .stamp seq => ⟨.auditStamp, some world, some seq⟩

/-- The endpoint of an action. -/
def AuditProcAction.endpoint : AuditProcAction → ProcEndpoint
  | .verify => .auditVerify
  | .head => .auditHead
  | .stamp _ => .auditStamp

/-- The ordinal of an action. -/
def AuditProcAction.stampSeq : AuditProcAction → Option ChainSeq
  | .stamp seq => some seq
  | _ => none

/-- An ordinal is read back from its decimal form. -/
theorem parseChainSeq_toString {ε : Type} (error : ε) {seq : ChainSeq} (hseq : seq.get ≤ i64Max) :
    parseChainSeq error (toString seq.get).toList = .ok seq := by
  have hcast : ((seq.get.toNat : Nat) : Int) = seq.get := Int.toNat_of_nonneg seq.positive.le
  have hpositive : 0 < seq.get.toNat := by have := seq.positive; omega
  rw [toList_toString_int seq.positive.le]
  have hne : Nat.toDigits 10 seq.get.toNat ≠ [] := Nat.toDigits_ne_nil
  have hhead : ∀ c, c.isDigit = false → (Nat.toDigits 10 seq.get.toNat).head? ≠ some c := by
    intro c hc hhead
    rw [isDigit_of_mem (List.mem_of_head? hhead)] at hc
    cases hc
  have hdigits : (Nat.toDigits 10 seq.get.toNat).all Char.isDigit = true :=
    List.all_eq_true.mpr fun c hc => isDigit_of_mem hc
  have hvalue : parseInt i64Range (Nat.toDigits 10 seq.get.toNat) = .ok seq.get := by
    rw [parseInt_toDigits (hcast ▸ hseq), hcast]
  have hnew : ChainSeq.new seq.get = some seq := dif_pos seq.positive
  simp only [parseChainSeq, hvalue, List.isEmpty_iff, hne, hhead '+' (by decide), hhead '-' (by decide),
    head?_toDigits_ne_zero hpositive, hdigits, decide_false, Bool.and_false, Bool.or_false, Bool.not_true,
    rejectIf_false, Except.mapError, ok_bind, hnew]
  rfl

/-- The path of a stamp ends in a digit. -/
theorem AuditProcAction.getLast?_stamp (left : List Char) (seq : ChainSeq) :
    ∃ c, (left ++ (AuditProcAction.stamp seq).trail).getLast? = some c ∧ c.isDigit = true := by
  have hdigits := toList_toString_int seq.positive.le
  have hne : (toString seq.get).toList ≠ [] := by
    rw [hdigits]
    exact Nat.toDigits_ne_nil
  have hassoc : left ++ (AuditProcAction.stamp seq).trail = (left ++ "/stamp/".toList) ++ (toString seq.get).toList :=
    (List.append_assoc ..).symm
  refine ⟨(toString seq.get).toList.getLast hne, ?_, ?_⟩
  · rw [hassoc, List.getLast?_append_of_ne_nil _ hne]
    exact List.getLast?_eq_some_getLast hne
  · have hmem := List.getLast_mem hne
    simp only [hdigits] at hmem ⊢
    exact isDigit_of_mem hmem

/-- A stamp is split off at the last `/stamp/`, whatever stands before it. -/
theorem rsplitOnce_stamp (left : List Char) (seq : ChainSeq) :
    rsplitOnce "/stamp/".toList (left ++ (AuditProcAction.stamp seq).trail) =
      some (left, (toString seq.get).toList) := by
  have hslash : '/' ∉ (toString seq.get).toList := by
    rw [toList_toString_int seq.positive.le]
    exact fun h => absurd (isDigit_of_mem h) (by decide)
  have hcount : ("/stamp/".toList.tail ++ (toString seq.get).toList).count '/' < "/stamp/".toList.count '/' := by
    rw [List.count_append, List.count_eq_zero_of_not_mem hslash]
    decide
  exact rsplitOnce_append left hcount

/-- Only the path of a verification ends in `/verify`. -/
theorem dropSuffix?_verify (left : List Char) (action : AuditProcAction) :
    (left ++ action.trail).dropSuffix? "/verify".toList = if action = .verify then some left else none := by
  cases action with
  | verify => exact dropSuffix?_append left "/verify".toList
  | head =>
    have hlast : (left ++ AuditProcAction.head.trail).getLast? = some 'd' :=
      List.getLast?_append_of_ne_nil left (by decide)
    exact dropSuffix?_eq_none (by decide) (by rw [hlast]; decide)
  | stamp seq =>
    obtain ⟨c, hlast, hdigit⟩ := AuditProcAction.getLast?_stamp left seq
    exact dropSuffix?_eq_none (by decide) (by rw [hlast]; rintro ⟨⟩; exact absurd hdigit (by decide))

/-- Only the path of a head request ends in `/head`. -/
theorem dropSuffix?_head (left : List Char) (action : AuditProcAction) :
    (left ++ action.trail).dropSuffix? "/head".toList = if action = .head then some left else none := by
  cases action with
  | verify =>
    have hlast : (left ++ AuditProcAction.verify.trail).getLast? = some 'y' :=
      List.getLast?_append_of_ne_nil left (by decide)
    exact dropSuffix?_eq_none (by decide) (by rw [hlast]; decide)
  | head => exact dropSuffix?_append left "/head".toList
  | stamp seq =>
    obtain ⟨c, hlast, hdigit⟩ := AuditProcAction.getLast?_stamp left seq
    exact dropSuffix?_eq_none (by decide) (by rw [hlast]; rintro ⟨⟩; exact absurd hdigit (by decide))

/-- The part behind `proc/audit/` is split into the world and the action. -/
theorem splitAuditAction_append (left : List Char) {action : AuditProcAction} (hrange : action.InRange) :
    splitAuditAction (left ++ action.trail) = .ok (left, action) := by
  rw [splitAuditAction, dropSuffix?_verify, dropSuffix?_head]
  cases action with
  | verify => rfl
  | head => rfl
  | stamp seq =>
    rw [rsplitOnce_stamp]
    change (do
      let seq ← parseChainSeq _ (toString seq.get).toList
      return (left, AuditProcAction.stamp seq)) = _
    rw [parseChainSeq_toString _ hrange]
    rfl

/-- A whole audit path is split into the world, the endpoint and the ordinal. -/
theorem splitAuditPath_append (left : List Char) {action : AuditProcAction} (hrange : action.InRange) :
    splitAuditPath ("proc/audit/".toList ++ (left ++ action.trail)) = .ok (left, action.endpoint, action.stampSeq) := by
  have hdrop : ("proc/audit/".toList ++ (left ++ action.trail)).dropPrefix? "proc/audit/".toList =
      some (left ++ action.trail) :=
    List.dropPrefix?_eq_some_iff.mpr ⟨_, rfl, beq_self_eq_true _⟩
  rw [splitAuditPath, hdrop, Option.bind_some, Option.bind_some, dropSuffix?_verify, dropSuffix?_head]
  cases action with
  | verify => rfl
  | head => rfl
  | stamp seq =>
    change (do
      let parts ← requireSome InvalidProcPath.invalid
        (rsplitOnce "/stamp/".toList (left ++ (AuditProcAction.stamp seq).trail))
      let stampSeq ← parseChainSeq InvalidProcPath.invalid parts.2
      return (parts.1, ProcEndpoint.auditStamp, some stampSeq)) = _
    rw [rsplitOnce_stamp]
    change (do
      let stampSeq ← parseChainSeq InvalidProcPath.invalid (toString seq.get).toList
      return (left, ProcEndpoint.auditStamp, some stampSeq)) = _
    rw [parseChainSeq_toString _ hrange]
    rfl

/-- The name of a world passes the checks on slashes. -/
theorem ValidName.plain {name : String} (h : ValidName name) :
    name.toList ≠ [] ∧ name.toList.head? ≠ some '/' ∧ name.toList.getLast? ≠ some '/' ∧
      hasDoubleSlash name.toList = false ∧ trim (· = '/') name.toList ≠ [] := by
  obtain ⟨hhead, hlast, hdouble⟩ := h.slashes
  have hne : name.toList ≠ [] := by
    obtain ⟨c, rest, hname, -⟩ := h.head
    simp [hname]
  refine ⟨hne, hhead, hlast, ?_, ?_⟩
  · rw [hasDoubleSlash, Option.isSome_eq_false_iff, Option.isNone_iff_eq_none, Option.eq_none_iff_forall_ne_some]
    rintro ⟨left, right⟩ hsplit
    exact hdouble left right (append_of_rsplitOnce hsplit)
  · rw [trim_eq_self]
    · exact hne
    · exact fun c hc => decide_eq_false fun h => hhead (h ▸ hc)
    · exact fun c hc => decide_eq_false fun h => hlast (h ▸ hc)

/-- A canonical name is kept, with or without slashes before it. -/
theorem canonicalizePath_name (world : ValidatedWorldPath) :
    canonicalizePath world.name = world.name ∧ canonicalizePath ("/" ++ world.name) = world.name := by
  have hslash := world.valid.slashes.1
  have hstrip : world.name.toList.dropWhile (fun c => decide (c = '/')) = world.name.toList := by
    obtain ⟨c, rest, hname, hc, -⟩ := world.valid.head
    rw [hname, List.dropWhile_cons_of_neg (by simp [hc])]
  have hroot : String.ofList ((world.name.toList.splitOn '/').headD []) ∈ namespacePrefixes :=
    List.contains_iff_mem.mp world.valid.namespaced
  constructor
  · simp only [canonicalizePath, hstrip, if_pos (Or.inl hroot), String.ofList_toList]
  · have hlead : ("/" ++ world.name).toList = '/' :: world.name.toList := by
      rw [String.toList_append]
      rfl
    simp only [canonicalizePath, hlead, List.dropWhile_cons_of_pos, decide_true, hstrip, if_pos (Or.inl hroot),
      String.ofList_toList]

/-- An audit path does not end in a slash. -/
theorem AuditProcAction.getLast?_trail (left : List Char) (action : AuditProcAction) :
    (left ++ action.trail).getLast? ≠ some '/' := by
  cases action with
  | verify =>
    have hlast : (left ++ AuditProcAction.verify.trail).getLast? = some 'y' :=
      List.getLast?_append_of_ne_nil left (by decide)
    rw [hlast]
    decide
  | head =>
    have hlast : (left ++ AuditProcAction.head.trail).getLast? = some 'd' :=
      List.getLast?_append_of_ne_nil left (by decide)
    rw [hlast]
    decide
  | stamp seq =>
    obtain ⟨c, hlast, hdigit⟩ := AuditProcAction.getLast?_stamp left seq
    rw [hlast]
    rintro ⟨⟩
    exact absurd hdigit (by decide)

/-- The path of an action on a world is read as that action on that world. -/
theorem ValidatedProcPath.new_audit (world : ValidatedWorldPath) {action : AuditProcAction}
    (hrange : action.InRange) :
    ValidatedProcPath.new ("proc/audit/" ++ world.name ++ String.ofList action.trail) =
      .ok (action.procPath world) := by
  have hlist : ("proc/audit/" ++ world.name ++ String.ofList action.trail).toList =
      "proc/audit/".toList ++ (world.name.toList ++ action.trail) := by
    have htrail : (String.ofList action.trail).toList = action.trail := String.toList_ofList
    rw [String.toList_append, String.toList_append, htrail, List.append_assoc]
  have hlast : ("proc/audit/".toList ++ (world.name.toList ++ action.trail)).getLast? ≠ some '/' := by
    rw [← List.append_assoc]
    exact AuditProcAction.getLast?_trail _ action
  have htrim : trim (fun c => decide (c = '/')) ("proc/audit/".toList ++ (world.name.toList ++ action.trail)) =
      "proc/audit/".toList ++ (world.name.toList ++ action.trail) := by
    refine trim_eq_self (fun c hc => ?_) fun c hc => decide_eq_false fun h => hlast (h ▸ hc)
    obtain rfl : 'p' = c := Option.some.inj hc
    decide
  have hfixed : ∀ fixed : List Char, fixed[5]? ≠ some 'a' →
      "proc/audit/".toList ++ (world.name.toList ++ action.trail) ≠ fixed := by
    rintro _ hfixed rfl
    exact hfixed rfl
  obtain ⟨hne, hhead, hlastName, hdouble, htrimName⟩ := world.valid.plain
  simp only [ValidatedProcPath.new, hlist, htrim, if_neg (hfixed "proc/version".toList (by decide)),
    if_neg (hfixed "proc/worlds".toList (by decide)), if_neg (hfixed "proc/du".toList (by decide)),
    if_neg (hfixed "proc/df".toList (by decide)), if_neg (hfixed "proc/pool".toList (by decide)),
    splitAuditPath_append _ hrange, ok_bind, List.isEmpty_eq_false_iff.mpr htrimName, hhead, hlastName, hdouble,
    decide_false, Bool.or_false, Bool.false_eq_true, rejectIf_false, String.ofList_toList,
    ValidatedWorldPath.fromCanonical_name, Except.mapError]
  cases action <;> rfl

/-- The part of a path behind `proc/audit/` is read as its action on its world. -/
theorem procAuditVerifyPath_append (world : ValidatedWorldPath) {action : AuditProcAction}
    (hrange : action.InRange) :
    procAuditVerifyPath (world.name ++ String.ofList action.trail) = .ok (world, action) := by
  have hlist : (world.name ++ String.ofList action.trail).toList = world.name.toList ++ action.trail := by
    rw [String.toList_append, String.toList_ofList]
  have hnew : ValidatedWorldPath.new world.name = some world := by
    rw [ValidatedWorldPath.new, world.fromCanonical_name]
    rfl
  obtain ⟨hne, hhead, hlastName, hdouble, -⟩ := world.valid.plain
  simp only [procAuditVerifyPath, hlist, splitAuditAction_append _ hrange, ok_bind,
    List.isEmpty_eq_false_iff.mpr hne, hhead, hlastName, hdouble, decide_false, Bool.or_false, Bool.false_eq_true,
    rejectIf_false, String.ofList_toList, (canonicalizePath_name world).1, hnew, requireSome]
  rfl

/-- World URLs lead back to their world, and both readers of audit paths find exactly the world and the action, for
every name of a world and every ordinal of an `i64`. -/
theorem paths_lead_back (world : ValidatedWorldPath) :
    (decode (worldUrl world.name)).map canonicalizePath = some world.name ∧
      ∀ action : AuditProcAction, action.InRange →
        ValidatedProcPath.new ("proc/audit/" ++ world.name ++ String.ofList action.trail) =
            .ok (action.procPath world) ∧
          procAuditVerifyPath (world.name ++ String.ofList action.trail) = .ok (world, action) := by
  refine ⟨?_, fun action hrange => ⟨ValidatedProcPath.new_audit world hrange, procAuditVerifyPath_append world hrange⟩⟩
  rw [decode_worldUrl, Option.map_some, (canonicalizePath_name world).2]

/-- A world whose name looks like an audit path itself. -/
def Sample.nested : ValidatedWorldPath := ⟨"home/verify/stamp/7", by decide +kernel⟩

/-- A stamp of that world is read at the right place. -/
theorem paths_lead_back_nested :
    procAuditVerifyPath (Sample.nested.name ++ String.ofList (AuditProcAction.stamp ⟨3, by decide⟩).trail) =
      .ok (Sample.nested, .stamp ⟨3, by decide⟩) :=
  ((paths_lead_back Sample.nested).2 (.stamp ⟨3, by decide⟩) (show (3 : Int) ≤ i64Max by decide)).2

end AuditeDB
