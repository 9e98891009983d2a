import VplJail.Configuration.ConfigFile

/-!
# The stored task

`processMonitor` keeps the state of a task in the file `config` of its control directory. `readInfo`
fills the object from that file and `writeInfo` writes it back over the entries that are there.
-/

namespace VplJail.Task

open ConfigurationFile Util

/-- The fields of `processMonitor` that are stored. -/
structure Info where
  maxtime : ℤ
  maxfilesize : ℤ
  maxmemory : ℤ
  maxprocesses : ℤ
  adminticket : Bytes
  executionticket : Bytes
  monitorticket : Bytes
  httpPassthroughticket : Bytes
  localwebserver : Bytes
  cleaning : Bool
  startTime : ℤ
  interactive : Bool
  lang : Bytes
  compilerPid : ℤ
  runnerPid : ℤ
  monitorPid : ℤ
deriving DecidableEq

/-- The key of the field that a prisoner's file provides. -/
def addressKey : Bytes :=
  ascii "LOCALWEBSERVER"

/-- A flag as `writeInfo` writes it. -/
def flag (b : Bool) : Bytes :=
  if b then ascii "1" else ascii "0"

/-- The assignments of `writeInfo`, in its order. -/
def Info.params (info : Info) : List (Bytes × Bytes) :=
  [(ascii "MAXTIME", itos info.maxtime),
    (ascii "MAXFILESIZE", itos info.maxfilesize),
    (ascii "MAXMEMORY", itos info.maxmemory),
    (ascii "MAXPROCESSES", itos info.maxprocesses),
    (ascii "ADMINTICKET", info.adminticket),
    (ascii "EXECUTIONTICKET", info.executionticket),
    (ascii "MONITORTICKET", info.monitorticket),
    (ascii "HTTPPASSTHROUGHTTICKET", info.httpPassthroughticket),
    (addressKey, info.localwebserver),
    (ascii "CLEANING", flag info.cleaning),
    (ascii "STARTTIME", itos info.startTime),
    (ascii "INTERACTIVE", flag info.interactive),
    (ascii "LANG", info.lang),
    (ascii "COMPILER_PID", itos info.compilerPid),
    (ascii "RUNNER_PID", itos info.runnerPid),
    (ascii "MONITOR_PID", itos info.monitorPid)]

/-- The entries of `data` with those of the task over them. -/
def Info.store (info : Info) (data : ConfigData) : ConfigData :=
  info.params.foldl (fun d p => d.insert p.1 p.2) data

/-- `writeInfo`: the content written over a file with the content `config`, if there is one. -/
def writeInfo (config : Option Bytes) (info : Info) (data : ConfigData) : Option Bytes :=
  (match config with
    | some content => readConfiguration content data
    | none => some data).map fun data => serialize (info.store data)

/-- `data[key]` of a map that gives the empty string for a missing key. -/
def valueOf (data : ConfigData) (key : Bytes) : Bytes :=
  data[key]?.getD []

/-- The fields that `readInfo` takes from a configuration. -/
def Info.ofData (data : ConfigData) : Info where
  maxtime := atoi (valueOf data (ascii "MAXTIME"))
  maxfilesize := atoll (valueOf data (ascii "MAXFILESIZE"))
  maxmemory := atoll (valueOf data (ascii "MAXMEMORY"))
  maxprocesses := atoi (valueOf data (ascii "MAXPROCESSES"))
  adminticket := valueOf data (ascii "ADMINTICKET")
  executionticket := valueOf data (ascii "EXECUTIONTICKET")
  monitorticket := valueOf data (ascii "MONITORTICKET")
  httpPassthroughticket := valueOf data (ascii "HTTPPASSTHROUGHTTICKET")
  localwebserver := valueOf data addressKey
  cleaning := valueOf data (ascii "CLEANING") == ascii "1"
  startTime := atoi (valueOf data (ascii "STARTTIME"))
  interactive := atoi (valueOf data (ascii "INTERACTIVE")) != 0
  lang := valueOf data (ascii "LANG")
  compilerPid := atoi (valueOf data (ascii "COMPILER_PID"))
  runnerPid := atoi (valueOf data (ascii "RUNNER_PID"))
  monitorPid := atoi (valueOf data (ascii "MONITOR_PID"))

/-- What `readInfo` does: it throws when the file cannot be read, and it throws
`TaskCleaningException` with the fields filled when the task is being cleaned. -/
inductive ReadInfo
  | failed
  | cleaning (info : Info)
  | ok (info : Info)
deriving DecidableEq

/-- `readConfiguration(getProcessConfigFile(), ...)` without defaults; `none` is a file that cannot
be opened. -/
def readTask (config : Option Bytes) : Option ConfigData :=
  config.bind fun content => readConfiguration content ∅

/-- `readInfo`: the fields of a task from its file. -/
def readInfo (config : Option Bytes) : ReadInfo :=
  match readTask config with
  | none => .failed
  | some data =>
      if (Info.ofData data).cleaning then .cleaning (Info.ofData data) else .ok (Info.ofData data)

/-- A successful `readInfo` has read a configuration. -/
theorem readTask_of_readInfo {config : Option Bytes} {info : Info}
    (h : readInfo config = .ok info) :
    ∃ content data, config = some content ∧ readConfiguration content ∅ = some data ∧
      info = Info.ofData data := by
  rw [readInfo] at h
  cases hr : readTask config with
  | none => simp [hr] at h
  | some data =>
      rw [hr] at h
      obtain ⟨content, rfl, hc⟩ := Option.bind_eq_some_iff.mp hr
      refine ⟨content, data, rfl, hc, ?_⟩
      dsimp only at h
      split at h
      · cases h
      · exact (ReadInfo.ok.inj h).symm

/-- A task whose strings fit on a line. -/
structure Info.Storable (info : Info) : Prop where
  adminticket : IsValue info.adminticket
  executionticket : IsValue info.executionticket
  monitorticket : IsValue info.monitorticket
  httpPassthroughticket : IsValue info.httpPassthroughticket
  localwebserver : IsValue info.localwebserver
  lang : IsValue info.lang

theorem isValue_nil : IsValue [] :=
  ⟨List.not_mem_nil, List.not_mem_nil, List.not_mem_nil⟩

/-- A storable configuration gives values that fit on a line. -/
theorem isValue_valueOf {data : ConfigData} (h : Storable data) (key : Bytes) :
    IsValue (valueOf data key) := by
  rw [valueOf]
  cases hk : data[key]? with
  | none => exact isValue_nil
  | some value => exact (h key value hk).2

/-- A task read from a configuration fits on its lines. -/
theorem Info.storable_ofData {data : ConfigData} (h : ConfigurationFile.Storable data) :
    (Info.ofData data).Storable := by
  constructor <;> exact isValue_valueOf h _

theorem isValue_itos (value : ℤ) : IsValue (itos value) := by
  have h (b : UInt8) (hb : ¬ (b = 45 ∨ isDigit b = true)) : b ∉ itos value :=
    fun h => hb (mem_itos h)
  exact ⟨h 35 (by decide), h 0 (by decide), h 10 (by decide)⟩

theorem isValue_flag (b : Bool) : IsValue (flag b) := by
  cases b <;> exact ⟨by decide, by decide, by decide⟩

/-- The parameters of a task are entries of one line. -/
theorem Info.Storable.params {info : Info} (h : info.Storable) : ∀ p ∈ info.params, IsEntry p := by
  have hitos := isValue_itos
  have hflag := isValue_flag
  simp only [Info.params, List.forall_mem_cons, IsEntry]
  refine ⟨⟨?_, hitos _⟩, ⟨?_, hitos _⟩, ⟨?_, hitos _⟩, ⟨?_, hitos _⟩, ⟨?_, h.adminticket⟩,
    ⟨?_, h.executionticket⟩, ⟨?_, h.monitorticket⟩, ⟨?_, h.httpPassthroughticket⟩,
    ⟨?_, h.localwebserver⟩, ⟨?_, hflag _⟩, ⟨?_, hitos _⟩, ⟨?_, hflag _⟩, ⟨?_, h.lang⟩,
    ⟨?_, hitos _⟩, ⟨?_, hitos _⟩, ⟨?_, hitos _⟩, fun p hp => absurd hp List.not_mem_nil⟩ <;>
  exact isKey_of_isWord (by decide +kernel)

/-- The entries of a task that has been read fit on their lines. -/
theorem Info.Storable.store {info : Info} (h : info.Storable) {data : ConfigData}
    (hdata : ConfigurationFile.Storable data) : ConfigurationFile.Storable (info.store data) := by
  have hparams := h.params
  rw [Info.store]
  generalize info.params = ps at hparams
  induction ps generalizing data with
  | nil => exact hdata
  | cons p ps ih =>
      obtain ⟨hp, hparams⟩ := List.forall_mem_cons.mp hparams
      exact ih (hdata.insert hp) hparams

end VplJail.Task
