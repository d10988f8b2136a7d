import Mathlib
import AuditeDB.Engine.Runs

/-!
# Reads of an engine

A read returns the representation of a world with its tag. In every run the representation of a durable world is the
one that its history leaves, and that of a world in memory is its entry.
-/

namespace AuditeDB

open Results Interleaving

/-- `ReadError`, without the classification of storage failures, and the refusal of `begin_file_op`. -/
inductive ReadError where
  | auth (gate : AuthGate)
  | shuttingDown
  | read (error : AuditError)

variable [HashSuite]

/-- `EngineOps::read`. -/
def engineRead (config : Config) (core : Core) (world : ValidatedWorldPath) (tier : Tier) :
    Except ReadError (Option (Stage × String)) := do
  rejectIf (!canRead config tier) (.auth .read)
  rejectIf core.shuttingDown .shuttingDown
  (core.readWorldWithEtag config world).mapError .read

variable {config : Config} {core : Core} {world : ValidatedWorldPath} {tier : Tier}

/-- A read that is allowed reads the world. -/
theorem engineRead_eq_ok {result : Option (Stage × String)} : engineRead config core world tier = .ok result ↔
    canRead config tier = true ∧ core.shuttingDown = false ∧ core.readWorldWithEtag config world = .ok result := by
  simp [engineRead, bind_eq_ok, rejectIf_eq_ok, mapError_eq_ok]

/-- The representation of an entry in memory. -/
def MemEntry.stage (entry : MemEntry) : Stage := ⟨entry.body, entry.contentType, entry.headers⟩

/-- A read of a world in memory returns its entry. -/
theorem Core.readWorldWithEtag_memory (hmemory : isMemoryWorld world = true) :
    core.readWorldWithEtag config world =
      .ok ((core.view.entry world).map fun entry => (entry.stage, "sha256-" ++ entry.bodyHash)) := by
  simp only [Core.readWorldWithEtag, hmemory, if_true, MemoryStore.readWithHash, Option.map_map]
  rfl

/-- A read of a world in memory returns what the store holds. -/
theorem engineRead_memory (hmemory : isMemoryWorld world = true) (hallowed : canRead config tier = true)
    (hopen : core.shuttingDown = false) {stage : Stage} {hash : String}
    (h : core.mem.readWithHash world = some (stage, hash)) :
    engineRead config core world tier = .ok (some (stage, "sha256-" ++ hash)) := by
  refine engineRead_eq_ok.mpr ⟨hallowed, hopen, ?_⟩
  simp only [Core.readWorldWithEtag, hmemory, if_true, h]
  rfl

/-- A read of a durable world returns what its history leaves. -/
theorem Shows.engineRead {state : Option WorldLog} {stage : Stage} {tag : String} (hdurable : isMemoryWorld world = false)
    (h : Shows config.hmacKey world state (core.view.dir world))
    (hread : engineRead config core world tier = .ok (some (stage, tag))) :
    ∃ log, state = some log ∧ log.entries ≠ [] ∧ stage = log.stage ∧
      tag = hmacEtag (chainHead config.hmacKey world log.generation log.entries) := by
  obtain ⟨db, hmac, hdir, hshape, hhmac, rfl⟩ := Core.database_of_read hdurable (engineRead_eq_ok.mp hread).2.2
  rw [hdir] at h
  obtain ⟨log, rfl, hne, rfl, rfl⟩ := h.read hshape hhmac
  exact ⟨log, rfl, hne, rfl, rfl⟩

namespace Sample

/-- A polynomial checksum of 32 bytes. -/
def checksum (bytes : Bytes) : Sha2.Digest :=
  let sum := bytes.foldl (fun sum b => (sum * 257 + b.toNat + 1) % 2 ^ 256) 0
  ⟨(List.range 32).map fun i => (sum / 256 ^ i).toUInt8, by simp⟩

/-- Checksums in place of the hash functions, for runs that are evaluated as a whole. -/
@[reducible] def checksumSuite : HashSuite := ⟨checksum, fun key bytes => checksum (key ++ bytes)⟩

end Sample

end AuditeDB
