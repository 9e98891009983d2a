import VplJail.Task.World

/-!
# The operations of a monitor on its task

What the commands ask of a `processMonitor` once it has opened its task: the results, the registered
processes, the limits and the ticket of the local web server.
-/

namespace VplJail.Task

open ConfigurationFile Util

/-- `limitResultSize`. The sizes are `size_t`, so a negative limit wraps around. -/
def limitResultSize (cfg : Configuration) (r : Bytes) : Except Thrown Bytes :=
  if (cfg.requestMaxSize % 2 ^ 32).toNat ≤ r.length then
    let half := cfg.requestMaxSize.tdiv 2
    let start := ((r.length - half) % 2 ^ 64).toNat
    let men := ascii "\nThis output has been cut to " ++ itos (cfg.requestMaxSize.tdiv 1024) ++
      ascii "Kb, its original size was " ++ itos (r.length / 1024) ++ ascii "Kb\n"
    if r.length < start then throw (.std "out_of_range")
    else pure (men ++ r.take (half % 2 ^ 64).toNat ++ men ++ r.drop start)
  else pure r

/-- A stored output, which is removed once it has been read; `none` is a file that does not exist. -/
def takeOutput (cfg : Configuration) (uid : ℕ) (name : Bytes) (w : World) :
    World × Except Thrown (Option Bytes) :=
  let fileName := processControlPath cfg uid ++ ascii "/" ++ name
  match w.files fileName with
  | none => (w, pure none)
  | some content =>
      match limitResultSize cfg content with
      | .error e => (w, throw e)
      | .ok r => ({ w with files := deletePath fileName w.files }, pure (some r))

/-- `getResult`: the outputs of the task, for its administrator. -/
def getResult (cfg : Configuration) (pm : ProcessMonitor) (w : World) :
    World × Except Thrown (Bytes × Bytes × Bool) :=
  if pm.security ≠ .admin then
    (w, throw (.http internalServerErrorCode "Security: required admin ticket for request"))
  else if pm.info.interactive then
    (w, throw (.http internalServerErrorCode "Security: process in bad state"))
  else
    match takeOutput cfg pm.prisoner (ascii "compilation") w with
    | (w, .error e) => (w, throw e)
    | (w, .ok compilation) =>
      match takeOutput cfg pm.prisoner (ascii "execution") w with
      | (w, .error e) => (w, throw e)
      | (w, .ok execution) =>
        let compilation := compilation.getD []
        let compilation := if compilation = [] ∧ execution.isNone then
            ascii "The compilation process did not generate an executable nor error message."
          else compilation
        (w, pure (compilation, execution.getD [], execution.isSome))

/-- `getCompilation`: the output of the compilation. -/
def getCompilation (cfg : Configuration) (pm : ProcessMonitor) (w : World) : Except Thrown Bytes :=
  if pm.security ≠ .monitor then
    throw (.http internalServerErrorCode "Security: required monitor ticket for getCompilation")
  else pure ((w.files (processControlPath cfg pm.prisoner ++ ascii "/compilation")).getD [])

/-- `readInfo`, a change of some fields, and `writeInfo`. -/
def changeInfo (cfg : Configuration) (pm : ProcessMonitor) (change : Info → Info) (w : World) :
    World × Except Thrown ProcessMonitor :=
  let fileName := processConfigFile cfg pm.prisoner
  match infoOrThrow (w.files fileName) with
  | .error e => (w, throw e)
  | .ok info =>
    match writeInfo (w.files fileName) (change info) ∅ with
    | none => (w, throw .unreadableConfig)
    | some content => ({ w with files := Function.update w.files fileName (some content) },
        pure { pm with info := change info })

/-- `setRunner` by the process `pid` at the time `now`. -/
def setRunner (cfg : Configuration) (pid now : ℤ) (pm : ProcessMonitor) (w : World) :
    World × Except Thrown ProcessMonitor :=
  if pm.security = .monitor then (w, pure pm)
  else changeInfo cfg pm (fun info => { info with startTime := now, runnerPid := pid }) w

/-- `getHttpPassthroughTicket`, with the ticket that is drawn if there is none yet. -/
def getHttpPassthroughTicket (cfg : Configuration) (drawn : Bytes) (pm : ProcessMonitor)
    (w : World) : World × Except Thrown ProcessMonitor :=
  match infoOrThrow (w.files (processConfigFile cfg pm.prisoner)) with
  | .error e => (w, throw e)
  | .ok info =>
    if info.httpPassthroughticket ≠ [] then (w, pure { pm with info := info })
    else
      let data : ConfigData :=
        .ofList [(ascii "USER_ID", itos pm.prisoner), (ascii "SECURITY", ascii "3")]
      let files := Function.update w.files (ticketPath cfg drawn) (some (serialize data))
      changeInfo cfg pm (fun info => { info with httpPassthroughticket := drawn })
        { w with files := files }

/-- `getVNCPassword`: the first digits of the execution ticket. -/
def ProcessMonitor.vncPassword (pm : ProcessMonitor) : Bytes :=
  pm.info.executionticket.take 8

/-- `getMemoryLimit`: the limit of the task in MiB. -/
def ProcessMonitor.memoryLimit (pm : ProcessMonitor) : Bytes :=
  if pm.info.maxmemory = 0 then ascii "unlimited"
  else itos (pm.info.maxmemory.tdiv (1024 * 1024)) ++ ascii "MiB"

/-- A result is for the admin ticket only. -/
theorem getResult_of_ne {cfg : Configuration} {pm : ProcessMonitor} (h : pm.security ≠ .admin)
    (w : World) : getResult cfg pm w =
      (w, throw (.http internalServerErrorCode "Security: required admin ticket for request")) := by
  rw [getResult, if_pos h]

/-- The compilation is for the ticket of the monitor only. -/
theorem getCompilation_of_ne {cfg : Configuration} {pm : ProcessMonitor}
    (h : pm.security ≠ .monitor) (w : World) : getCompilation cfg pm w =
      throw (.http internalServerErrorCode
        "Security: required monitor ticket for getCompilation") := by
  rw [getCompilation, if_pos h]

end VplJail.Task
