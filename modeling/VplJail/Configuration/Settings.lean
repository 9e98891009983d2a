import VplJail.Util.Paths

/-!
# The settings of the server

What `Configuration` keeps of the configuration file for the tasks, with the checks of
`readConfigFile`.
-/

namespace VplJail

/-- `ExecutionLimits`: what a task may use. -/
structure ExecutionLimits where
  maxtime : ℤ
  maxfilesize : ℤ
  maxmemory : ℤ
  maxprocesses : ℤ
deriving DecidableEq, Repr

/-- `JAIL_MIN_PRISONER_UID`: the least uid that a prisoner may be given. -/
def minPrisonerUid : ℕ := 1000

/-- `JAIL_MAX_PRISONER_UID`: the greatest one. -/
def maxPrisonerUid : ℕ := 64 * 1024 - 5900

/-- The settings that `readConfigFile` accepts. -/
structure Configuration where
  jailLimits : ExecutionLimits
  jailPath : Bytes
  controlPath : Bytes
  minPrisoner : ℕ
  maxPrisoner : ℕ
  logLevel : ℤ
  requestMaxSize : ℤ
  jailPath_correct : jailPath = [] ∨ Util.correctPath jailPath = true
  controlPath_correct : Util.correctPath controlPath = true
  minPrisoner_ge : minPrisonerUid ≤ minPrisoner
  maxPrisoner_le : maxPrisoner ≤ maxPrisonerUid
  range : minPrisoner + 100 ≤ maxPrisoner

namespace Configuration

variable (cfg : Configuration)

/-- `getHomeDirOwnerUid`: the owner of the home directories. -/
def homeDirOwnerUid : ℕ := cfg.minPrisoner

/-- `getMinPrisoner`: the first uid behind that of the owner. -/
def firstPrisoner : ℕ := cfg.minPrisoner + 1

/-- `isPrisonerUID`: the uid is one of the prisoners. -/
def isPrisonerUID (uid : ℕ) : Bool :=
  decide (cfg.firstPrisoner ≤ uid) && decide (uid ≤ cfg.maxPrisoner)

/-- The settings of an empty configuration file. -/
def default : Configuration where
  jailLimits := ⟨1200, 64 * 1024 ^ 2, 2000 * 1024 ^ 2, 500⟩
  jailPath := ascii "/jail"
  controlPath := ascii "/var/vpl-jail-system"
  minPrisoner := 10000
  maxPrisoner := 20000
  logLevel := 0
  requestMaxSize := 128 * 1024 ^ 2
  jailPath_correct := .inr (by decide +kernel)
  controlPath_correct := by decide +kernel
  minPrisoner_ge := by decide
  maxPrisoner_le := by decide
  range := by decide

end Configuration

end VplJail
