import VplJail.Common.LockOrder
import VplJail.Task.Selection
import VplJail.Task.Updates

/-!
# The operations with their locks

The operations of `processMonitor` as code of a process that takes and gives back `GlobalLock` and
`TaskLock`, one step at a time. Between two steps the shared state may become any other, and a step
that can fail may throw what the state says.
-/

namespace VplJail.Task.Locking

open LockOrder CriticalSection ConfigurationFile Util

/-! ## The locks -/

/-- `GlobalLock`, and `TaskLock` of a task. -/
inductive LockId
  | global
  | task (taskId : ℤ)
deriving DecidableEq, Repr

/-- The name of a lock, which is that of its file. -/
def LockId.name : LockId → Bytes
  | global => ascii "global"
  | task taskId => ascii "task_" ++ itos taskId

/-- A character of the name of a lock. -/
def isLockChar (c : UInt8) : Bool :=
  decide (97 ≤ c) && decide (c ≤ 122) || decide (65 ≤ c) && decide (c ≤ 90) || isDigit c || c == 95

/-- The names that the constructor of `Lock` accepts. -/
def isLockName (name : Bytes) : Bool :=
  !(name.isEmpty || decide (32 < name.length)) && name.all isLockChar

/-- The lock of a prisoner's task, whose `uid_t` is converted to `int`. -/
def taskLock (uid : ℕ) : LockId :=
  .task ((uid : ℤ).bmod (2 ^ 32))

/-! ## What the processes share -/

/-- The regular files, the directories with their times, the names in a directory, the live
processes of each prisoner, the processes that exist, and what the next system call and the next step
run into. -/
structure Shared where
  files : Files
  dirs : Bytes → Option ℤ
  names : Bytes → List Bytes
  processes : ℕ → List ℤ
  env : Env
  existing : ℤ → Bool
  errno : Option String
  fault : Option Thrown

/-- The code of an operation. -/
abbrev LockM := ExceptT Thrown (Code LockId Shared)

/-- A point where the code may throw. -/
def check : LockM Unit := do
  match ← see Shared.fault with
  | some e => throw e
  | none => pure ()

/-- A part within the scope of a lock, whose constructor may throw. -/
def locked {α : Type} (lock : LockId) (part : LockM α) : LockM α :=
  if isLockName lock.name then do
    check
    holding lock part
  else throw (.std "Invalid lock name")

/-- Steps on the regular files, each of which may throw. -/
def onFiles {α : Type} (x : FileM α) : LockM α :=
  ExceptT.mk (attempt Shared.fault Shared.files (fun s files => { s with files := files }) x.run)

/-- `catch (...)` without a handler. -/
def quietly (x : LockM Unit) : LockM Unit :=
  tryCatch x fun _ => pure ()

/-- `Util::fileExists`: there is a regular file. -/
def fileExists (path : Bytes) : LockM Bool :=
  see fun s => (s.files path).isSome

/-- `Util::dirExists`: there is a directory. -/
def dirExists (path : Bytes) : LockM Bool :=
  see fun s => (s.dirs path).isSome

/-- `time(NULL)`: the seconds of the clock. -/
def time : LockM ℤ :=
  see fun s => s.env.now

/-- `Util::processExists`: there is such a process. -/
def processExists (pid : ℤ) : LockM Bool :=
  see fun s => decide (0 < pid) && s.existing pid

/-- `Util::processExistsAndRunning`: there is one that is no zombie. -/
def processExistsAndRunning (pid : ℤ) : LockM Bool :=
  see fun s => s.env.processExistsAndRunning pid

/-- `mkdir`: a directory is made, or there is something already. -/
def makeDir (path : Bytes) : LockM Mkdir :=
  atomic fun s =>
    match s.errno with
    | some reason => (s, .ok (.failed reason))
    | none =>
        if (s.dirs path).isSome then (s, .ok .eexist)
        else ({ s with dirs := Function.update s.dirs path (some s.env.now) }, .ok .created)

/-- `Util::removeDir` of a whole directory. -/
def removeTree (path : Bytes) : LockM Unit := do
  check
  act fun s => { s with
    dirs := Function.update s.dirs path none
    files := fun file => if (path ++ ascii "/").isPrefixOf file then none else s.files file }

/-- A system call on the home of a prisoner, which is removed if the call fails. -/
def handOver (homePath : Bytes) (what : String) : LockM Unit := do
  match ← see Shared.errno with
  | none => pure ()
  | some reason => do
      removeTree homePath
      throw (.http internalServerErrorCode
        ("I can't change prisoner home dir \"" ++ messageOf homePath ++ "\" to proper " ++ what ++
          ": " ++ reason))

/-! ## New tasks -/

section Operations

variable (cfg : Configuration)

/-- An attempt of `selectPrisoner`: the loop goes on without a value. -/
def tryPrisoner (uid : ℕ) : LockM (Option ℕ) := do
  let prisoner ← ofExcept (setPrisonerID cfg uid)
  let controlPath := processControlPath cfg prisoner
  let homePath := homePath cfg prisoner
  match ← makeDir controlPath with
  | .failed reason => throw (.http internalServerErrorCode
      ("I can't create prisoner control dir \"" ++ messageOf (itos prisoner) ++ "\" : " ++ reason))
  | .eexist => pure none
  | .created =>
      match ← makeDir homePath with
      | .failed reason => throw (.http internalServerErrorCode
          ("I can't create prisoner home dir \"" ++ messageOf homePath ++ "\" : " ++ reason))
      | .eexist => do
          removeTree homePath
          act fun s => { s with dirs := Function.update s.dirs controlPath none }
          pure none
      | .created => do
          handOver homePath "owner"
          handOver homePath "permissions"
          pure (some prisoner)

/-- The attempts that are left, from the `i`-th on. -/
def tryPrisoners (draws : ℕ → Draw) : ℕ → ℕ → LockM ℕ
  | 0, _ => throw freeUidNotFound
  | left + 1, i => do
      match ← tryPrisoner cfg (drawn cfg draws i) with
      | some prisoner => pure prisoner
      | none => tryPrisoners draws left (i + 1)

/-- `selectPrisoner`: prisoners are drawn until both directories of one can be made. -/
def selectPrisoner (draws : ℕ → Draw) : LockM ℕ :=
  if prisonerRange cfg < 100 then
    throw (.http internalServerErrorCode
      "Prisoner range too small, minPrisoner + 100 < maxPrisoner")
  else if cfg.firstPrisoner < minPrisonerUid ∨ maxPrisonerUid < cfg.maxPrisoner then
    throw (.http internalServerErrorCode "Prisoner range out of limits, minPrisoner")
  else locked .global (tryPrisoners cfg draws (ntry cfg) 0)

/-- The tickets of a new task; direct execution has none for a monitor. -/
structure Tickets where
  admin : Bytes
  monitor : Option Bytes
  execution : Bytes

/-- The paths of the tickets, in the order in which they are looked for. -/
def Tickets.paths (tickets : Tickets) : List Bytes :=
  (tickets.monitor.toList ++ [tickets.execution, tickets.admin]).map (ticketPath cfg)

/-- One of some files exists. -/
def anyExists : List Bytes → LockM Bool
  | [] => pure false
  | path :: paths => do
      if ← fileExists path then pure true else anyExists paths

/-- Tickets are drawn until none of them names a file; none is drawn behind the last. -/
def drawTickets (tickets : Tickets) : List Tickets → LockM Tickets
  | [] => pure tickets
  | next :: more => do
      if ← anyExists (tickets.paths cfg) then drawTickets next more else pure tickets

/-- `writeConfiguration` of a ticket. -/
def writeTicket (prisoner : ℕ) (ticket security : Bytes) : LockM Unit :=
  onFiles (Locked.putFile (ticketPath cfg ticket) (Locked.ticketContent prisoner security))

/-- The fields of a new task. -/
def newInfo (tickets : Tickets) (now : ℤ) : Info where
  maxtime := 0
  maxfilesize := 0
  maxmemory := 0
  maxprocesses := 0
  adminticket := tickets.admin
  executionticket := tickets.execution
  monitorticket := tickets.monitor.getD (ascii "NO_MONITOR")
  httpPassthroughticket := []
  localwebserver := []
  cleaning := false
  startTime := now
  interactive := tickets.monitor.isNone
  lang := []
  compilerPid := 0
  runnerPid := 0
  monitorPid := 0

/-- The constructors of `processMonitor` for new tasks. -/
def newTask (draws : ℕ → Draw) (tickets : Tickets) (redrawn : List Tickets) :
    LockM ProcessMonitor := do
  let prisoner ← selectPrisoner cfg draws
  locked .global <| locked (taskLock prisoner) do
    let tickets ← drawTickets cfg tickets redrawn
    writeTicket cfg prisoner tickets.admin (ascii "0")
    match tickets.monitor with
    | some monitor => writeTicket cfg prisoner monitor (ascii "1")
    | none => pure ()
    writeTicket cfg prisoner tickets.execution (ascii "2")
    let info := newInfo tickets (← time)
    onFiles (storeInfo cfg prisoner info)
    pure ⟨prisoner, .admin, info⟩

/-! ## Fields and outputs -/

/-- `readInfo`: the fields of a task from its file. -/
def readInfo (uid : ℕ) : LockM Info :=
  onFiles (Locked.loadInfo cfg uid)

/-- `readInfo` with a handler for `TaskCleaningException`. -/
def readInfoUnlessCleaning (uid : ℕ) : LockM (Option Info) :=
  tryCatch (do return some (← readInfo cfg uid)) fun e =>
    if e = .taskCleaning then pure none else throw e

variable (pid : ℤ) (pm : ProcessMonitor)

/-- `setRunner`: this process runs the task. -/
def setRunner : LockM ProcessMonitor :=
  if pm.security = .monitor then pure pm
  else locked (taskLock pm.prisoner) do onFiles (Locked.setRunner cfg pid (← time) pm)

/-- `setCompiler`: this process compiles the task. -/
def setCompiler : LockM ProcessMonitor :=
  if pm.security = .monitor then pure pm
  else locked (taskLock pm.prisoner) do onFiles (Locked.setCompiler cfg pid (← time) pm)

/-- `monitorize`: this process monitors the task. -/
def monitorize : LockM ProcessMonitor :=
  if pm.security ≠ .monitor then pure pm
  else locked (taskLock pm.prisoner) (onFiles (Locked.monitorize cfg pid pm))

/-- `setExtraInfo`: the limits and the kind of the task are stored. -/
def setExtraInfo (el : ExecutionLimits) (ri : Bool) (lang : Bytes) : LockM ProcessMonitor :=
  locked (taskLock pm.prisoner) (onFiles (Locked.setExtraInfo cfg el ri lang pm))

/-- `getResult`: the outputs of the task, for its administrator. -/
def getResult : LockM (Option Bytes × Option Bytes) :=
  if pm.security ≠ .admin then
    throw (.http internalServerErrorCode "Security: required admin ticket for request")
  else if pm.info.interactive then
    throw (.http internalServerErrorCode "Security: process in bad state")
  else locked (taskLock pm.prisoner) (onFiles (Locked.getResult cfg pm))

/-- `getCompilation`: the output of the compilation. -/
def getCompilation : LockM Bytes :=
  if pm.security ≠ .monitor then
    throw (.http internalServerErrorCode
      "Security: required monitor ticket for getCompilation")
  else locked (taskLock pm.prisoner) do
    let fileName := Locked.controlFile cfg pm.prisoner (ascii "compilation")
    return (← onFiles (look fileName)).getD []

/-- `setCompilationOutput`: the output of the compilation is stored. -/
def setCompilationOutput (compilation : Bytes) : LockM Unit :=
  locked (taskLock pm.prisoner) (onFiles (Locked.setCompilationOutput cfg compilation pm))

/-- `setExecutionOutput`: the output of the execution is stored. -/
def setExecutionOutput (execution : Bytes) (executed : Bool) : LockM Unit :=
  locked (taskLock pm.prisoner) (onFiles (Locked.setExecutionOutput cfg execution executed pm))

/-- `getHttpPassthroughTicket`: a new ticket for the browser. -/
def getHttpPassthroughTicket (ticket : Locked.Digits) (redrawn : List Locked.Digits) :
    LockM ProcessMonitor :=
  locked .global <| locked (taskLock pm.prisoner) <|
    onFiles (Locked.getHttpPassthroughTicket cfg ticket redrawn pm)

/-- `VPL_LOCALSERVERADDRESSFILE`: the file with the address of the local web server. -/
def localServerAddressFile : Bytes := ascii ".vpl_localserveraddress"

/-- `getLocalWebServer`: the address moves from the file of the prisoner to the task. -/
def getLocalWebServer : LockM ProcessMonitor :=
  locked (taskLock pm.prisoner) do
    let address ← see fun s =>
      s.files (fullName (homePath cfg pm.prisoner) localServerAddressFile)
    onFiles (Locked.getLocalWebServer cfg address pm)

/-! ## The end of a task -/

/-- The mark of the end in a configuration, and the configuration. What is thrown is caught. -/
def markCleaning (configFile : Bytes) : LockM ConfigData := do
  if ← fileExists configFile then do
    let found ← tryCatch (onFiles (look configFile)) fun _ => pure none
    match found.bind fun content => readConfiguration content ∅ with
    | none => pure ∅
    | some data => do
        let data := data.insert (ascii "CLEANING") (ascii "1")
        quietly (onFiles (Locked.putFile configFile (serialize data)))
        pure data
  else pure ∅

/-- The first section of `cleanTask`. -/
def markTask : LockM Unit := do
  let data ← markCleaning (processConfigFile cfg pm.prisoner)
  onFiles (Locked.removeTickets cfg (ticketsOf data ++ pm.info.tickets))

/-- `stopPrisonerProcess`, with the number of processes that it finds. -/
def stopPrisonerProcess (uid : ℕ) (soft : Bool) : LockM ℕ :=
  if cfg.isPrisonerUID uid then
    atomic fun s => (if soft then s else { s with
        processes := Function.update s.processes uid ((s.processes uid).filter s.env.survives) },
      .ok (s.processes uid).length)
  else pure 0

/-- The calls of `stopPrisonerProcess` by `cleanTask` until it finds no process, with those left. -/
def stopPrisonerProcesses (uid : ℕ) : ℕ → LockM Unit
  | 0 => pure ()
  | left + 1 => do
      if 0 < (← stopPrisonerProcess cfg uid false) then stopPrisonerProcesses uid left else pure ()

/-- A process that has been found is another one, and there is still one of the prisoner. -/
def isActive (uid : ℕ) (found : ℤ) : LockM Bool :=
  if found = pid then pure false else see fun s => (s.processes uid).contains found

/-- `activeProcesses`, of the processes that have been found. -/
def activeProcesses (uid : ℕ) : List ℤ → LockM Bool
  | [] => pure false
  | found :: pids => do
      let active ← isActive pid uid found
      return (← activeProcesses uid pids) || active

/-- The uid in the name of a directory, by `Util::atoi`. -/
def prisonerOf (pdir : Bytes) : ℤ :=
  min (atoll (pdir.drop 1)) (2 ^ 31 - 1)

/-- `cleanPrisonerFilesLocked`. The files in `/tmp` are not those of the server. -/
def cleanPrisonerFilesLocked (pdir : Bytes) : LockM Unit := do
  let configDir := cfg.controlPath ++ ascii "/" ++ pdir
  let data ← markCleaning (configDir ++ ascii "/config")
  onFiles (Locked.removeTickets cfg (ticketsOf data))
  if cfg.logLevel ≤ logDebug then quietly (removeTree (cfg.jailPath ++ ascii "/home/" ++ pdir))
  else pure ()
  quietly (removeTree configDir)

/-- `cleanPrisonerFiles`: the files of a task and its tickets are removed. -/
def cleanPrisonerFiles (pdir : Bytes) : LockM Unit :=
  locked .global <| locked (.task (prisonerOf pdir)) (cleanPrisonerFilesLocked cfg pdir)

/-- `maxretry` of `cleanTask` -/
def maxretry : ℕ := 10

/-- `cleanTask`. Without a prisoner, which is `-1` as an `int`, there is nothing to clean. -/
def cleanTask : LockM Unit :=
  if pm.prisoner = 2 ^ 32 - 1 then pure ()
  else do
    locked .global <| locked (taskLock pm.prisoner) (markTask cfg pm)
    let _ ← stopPrisonerProcess cfg pm.prisoner true
    stopPrisonerProcesses cfg pm.prisoner (maxretry + 1)
    let pids ← see fun s => s.processes pm.prisoner
    if ← activeProcesses pid pm.prisoner pids then pure ()
    else cleanPrisonerFiles cfg (ascii "p" ++ itos pm.prisoner)

/-! ## How far a task is -/

/-- `waitExistFile`, with the number of looks left. -/
def waitExistFile (path : Bytes) : ℕ → LockM Unit
  | 0 => pure ()
  | limit + 1 => do
      if ← fileExists path then pure () else waitExistFile path limit

/-- The end of a task whose time is over. -/
def cleanAndStop : LockM ProcessState := do
  cleanTask cfg pid pm
  pure .stopped

/-- `getState` once it knows that there is no runner. -/
def stateWithoutRunner (elapsedTime : ℤ) : LockM ProcessState :=
  let compilation := Locked.controlFile cfg pm.prisoner (ascii "compilation")
  if pm.info.monitorPid = 0 ∧ ¬ pm.info.hasMonitorTicket ∧ monitorstartTimeout < elapsedTime then
    cleanAndStop cfg pid pm
  else if pm.info.interactive then pure .beforeRunning
  else do
    waitExistFile compilation 20
    if ← fileExists compilation then do
      if ← fileExists (fullName (homePath cfg pm.prisoner) vplExecution) then pure .compiling
      else pure .retrieve
    else pure .stopped

/-- `getState` once it knows that there is a runner. -/
def stateWithRunner : LockM ProcessState := do
  let execution := Locked.controlFile cfg pm.prisoner (ascii "execution")
  if ← processExistsAndRunning pm.info.runnerPid then pure .running
  else if pm.info.interactive then pure .stopped
  else do
    waitExistFile execution 20
    if ← fileExists execution then pure .retrieve else pure .stopped

/-- `getState` behind `readInfo`. -/
def stateOfInfo : LockM ProcessState :=
  if pm.info.compilerPid = 0 then pure .starting
  else do
    let currentTime ← time
    if currentTime < pm.info.startTime ∨ pm.info.startTime = 0 then pure .starting
    else if pm.info.startTime + pm.info.maxtime + harvestTimeout < currentTime then
      cleanAndStop cfg pid pm
    else do
      let aliveCompiler ← processExistsAndRunning pm.info.compilerPid
      if aliveCompiler ∧ pm.info.runnerPid = 0 then pure .compiling
      else if pm.info.monitorPid = 0 ∧ pm.info.hasMonitorTicket ∧
          monitorstartTimeout < currentTime - pm.info.startTime then
        cleanAndStop cfg pid pm
      else if pm.info.runnerPid = 0 then
        stateWithoutRunner cfg pid pm (currentTime - pm.info.startTime)
      else stateWithRunner cfg pm

/-- The locked part of `getState`: nothing is left of a task that has been cleaned. -/
def loadState : LockM (Option Info) := do
  if ← fileExists (processConfigFile cfg pm.prisoner) then
    readInfoUnlessCleaning cfg pm.prisoner
  else pure none

/-- `getState`: what the task is at, by its fields and its processes. -/
def getState : LockM ProcessState := do
  if ← dirExists (processControlPath cfg pm.prisoner) then do
    match ← locked (taskLock pm.prisoner) (loadState cfg pm) with
    | none => pure .stopped
    | some info => stateOfInfo cfg pid { pm with info := info }
  else pure .stopped

/-- `isRunning`: the task has not stopped. -/
def isRunning : LockM Bool := do
  return (← getState cfg pid pm) != .stopped

/-- The locked part of `isMonitored`: the fields, and the answer if there is a monitor ticket. -/
def loadMonitored : LockM (Info × Option Bool) := do
  let info ← readInfo cfg pm.prisoner
  if info.hasMonitorTicket then do
    if info.monitorPid = 0 then pure (info, some false)
    else return (info, some (← processExists info.monitorPid))
  else pure (info, none)

/-- `isMonitored`: the monitor is there, or the task needs none and has not stopped. -/
def isMonitored : LockM Bool := do
  if ← dirExists (processControlPath cfg pm.prisoner) then do
    match ← locked (taskLock pm.prisoner) (loadMonitored cfg pm) with
    | (_, some answer) => pure answer
    | (info, none) => isRunning cfg pid { pm with info := info }
  else pure false

/-- `hasActiveMonitor`: the monitor is there, or the task is being cleaned. -/
def hasActiveMonitor : LockM Bool := do
  if ← dirExists (processControlPath cfg pm.prisoner) then
    locked (taskLock pm.prisoner) do
      match ← readInfoUnlessCleaning cfg pm.prisoner with
      | none => pure true
      | some info =>
          if info.hasMonitorTicket ∧ info.monitorPid ≠ 0 then processExists info.monitorPid
          else pure false
  else pure false

/-! ## Opening a task -/

/-- The constructor with the ticket file `fileName` within the scope of `GlobalLock`. -/
def openTicket (fileName : Bytes) : LockM ProcessMonitor := do
  if ← fileExists (cstr fileName) then do
    let content ← onFiles (look (cstr fileName))
    let (prisoner, security) ← ofExcept (readTicket cfg content)
    onFiles (useTicket fileName security)
    let info ← locked (taskLock prisoner) (onFiles (openTask cfg prisoner))
    monitorize cfg pid ⟨prisoner, security, info⟩
  else throw (.http notFoundCode "Ticket not found")

/-- `processMonitor(string ticket)`: the task that a ticket is for. -/
def ofTicket (ticket : Bytes) : LockM ProcessMonitor :=
  if hasTicketFormat (trimAndRemoveQuotes ticket) then
    locked .global (openTicket cfg pid (ticketPath cfg (trimAndRemoveQuotes ticket)))
  else throw (.text "Ticket invalid format")

/-! ## Zombies -/

/-- A directory that has not changed for longer than `maxAge`. -/
def isStale (path : Bytes) (maxAge : ℤ) : LockM Bool :=
  see fun s => (s.dirs path).any fun mtime => decide (mtime + maxAge < s.env.now)

/-- The guard of `cleanZombiePrisonerFiles`. -/
def isZombie (pdir : Bytes) (maxAge : ℤ) (checkControlDir requireNoHome : Bool) : LockM Bool := do
  let phome := cfg.jailPath ++ ascii "/home/" ++ pdir
  let configDir := cfg.controlPath ++ ascii "/" ++ pdir
  if checkControlDir then do
    if ← isStale configDir maxAge then
      if requireNoHome then return !(← dirExists phome) else pure true
    else pure false
  else do
    if ← fileExists (configDir ++ ascii "/config") then pure false else isStale phome maxAge

/-- `cleanZombiePrisonerFiles`: an abandoned task is removed, if it is old enough. -/
def cleanZombiePrisonerFiles (pdir : Bytes) (maxAge : ℤ) (checkControlDir requireNoHome : Bool) :
    LockM Bool :=
  locked .global <| locked (.task (prisonerOf pdir)) do
    if ← isZombie cfg pdir maxAge checkControlDir requireNoHome then do
      cleanPrisonerFilesLocked cfg pdir
      pure true
    else pure false

/-- What `cleanZombieTasks` tries for a task with a home. -/
def checkTask (configFile : Bytes) : LockM Bool := do
  match (← onFiles (look configFile)).bind fun content => readConfiguration content ∅ with
  | none => throw .unreadableConfig
  | some data => do
      let pm ← ofTicket cfg pid (valueOf data (ascii "ADMINTICKET"))
      let _ ← getState cfg pid pm
      pure false

/-- The first loop of `cleanZombieTasks`, at one task. -/
def cleanZombieTask (task : Bytes) : LockM Bool := do
  let configDir := cfg.controlPath ++ ascii "/" ++ task
  if ← isStale configDir monitorstartTimeout then do
    if ← dirExists (cfg.jailPath ++ ascii "/home/" ++ task) then
      tryCatch (checkTask cfg pid (configDir ++ ascii "/config")) fun _ =>
        cleanZombiePrisonerFiles cfg task (cfg.jailLimits.maxtime + harvestTimeout) true false
    else cleanZombiePrisonerFiles cfg task monitorstartTimeout true true
  else pure false

/-- The second loop of `cleanZombieTasks`, at one home. -/
def cleanZombieHome (home : Bytes) : LockM Bool := do
  if ← dirExists (cfg.jailPath ++ ascii "/home/" ++ home) then do
    if ← fileExists (cfg.controlPath ++ ascii "/" ++ home ++ ascii "/config") then pure false
    else cleanZombiePrisonerFiles cfg home (monitorstartTimeout * 2) false false
  else pure false

/-- `getPrisonersFromDir`, whose names match `^p[0-9]+$`. -/
def getPrisonersFromDir (dir : Bytes) : LockM (List Bytes) :=
  see fun s => (s.names dir).filter (PosixRegex.matchesWhole [.one (· == 112), .plus isDigit])

/-- `cleanZombieTasks`: the periodic clean-up of what has been left behind. -/
def cleanZombieTasks : LockM Unit := do
  let tasks ← getPrisonersFromDir cfg.controlPath
  let homes ← if cfg.logLevel ≤ logDebug then getPrisonersFromDir (cfg.jailPath ++ ascii "/home")
    else pure []
  tasks.forM fun task => do
    let _ ← cleanZombieTask cfg pid task
  homes.forM fun home => do
    let _ ← cleanZombieHome cfg home

end Operations

/-! ## Calls -/

/-- An operation, with what its process brings. -/
inductive Operation
  | newTask (draws : ℕ → Draw) (tickets : Tickets) (redrawn : List Tickets)
  | ofTicket (ticket : Bytes)
  | getState (pm : ProcessMonitor)
  | isRunning (pm : ProcessMonitor)
  | isMonitored (pm : ProcessMonitor)
  | hasActiveMonitor (pm : ProcessMonitor)
  | setRunner (pm : ProcessMonitor)
  | setCompiler (pm : ProcessMonitor)
  | monitorize (pm : ProcessMonitor)
  | setExtraInfo (pm : ProcessMonitor) (el : ExecutionLimits) (ri : Bool) (lang : Bytes)
  | getResult (pm : ProcessMonitor)
  | getCompilation (pm : ProcessMonitor)
  | setCompilationOutput (pm : ProcessMonitor) (compilation : Bytes)
  | setExecutionOutput (pm : ProcessMonitor) (execution : Bytes) (executed : Bool)
  | getHttpPassthroughTicket (pm : ProcessMonitor) (ticket : Locked.Digits)
      (redrawn : List Locked.Digits)
  | getLocalWebServer (pm : ProcessMonitor)
  | cleanTask (pm : ProcessMonitor)
  | cleanZombieTasks

/-- What a call returns is left out. -/
def ignore {α : Type} (x : LockM α) : LockM Unit := do
  let _ ← x

/-- The code of an operation that the process `pid` calls. -/
def Operation.run (cfg : Configuration) (pid : ℤ) : Operation → LockM Unit
  | newTask draws tickets redrawn => ignore (Locking.newTask cfg draws tickets redrawn)
  | ofTicket ticket => ignore (Locking.ofTicket cfg pid ticket)
  | getState pm => ignore (Locking.getState cfg pid pm)
  | isRunning pm => ignore (Locking.isRunning cfg pid pm)
  | isMonitored pm => ignore (Locking.isMonitored cfg pid pm)
  | hasActiveMonitor pm => ignore (Locking.hasActiveMonitor cfg pm)
  | setRunner pm => ignore (Locking.setRunner cfg pid pm)
  | setCompiler pm => ignore (Locking.setCompiler cfg pid pm)
  | monitorize pm => ignore (Locking.monitorize cfg pid pm)
  | setExtraInfo pm el ri lang => ignore (Locking.setExtraInfo cfg pm el ri lang)
  | getResult pm => ignore (Locking.getResult cfg pm)
  | getCompilation pm => ignore (Locking.getCompilation cfg pm)
  | setCompilationOutput pm compilation => Locking.setCompilationOutput cfg pm compilation
  | setExecutionOutput pm execution executed =>
      Locking.setExecutionOutput cfg pm execution executed
  | getHttpPassthroughTicket pm ticket redrawn =>
      ignore (Locking.getHttpPassthroughTicket cfg pm ticket redrawn)
  | getLocalWebServer pm => ignore (Locking.getLocalWebServer cfg pm)
  | cleanTask pm => Locking.cleanTask cfg pid pm
  | cleanZombieTasks => Locking.cleanZombieTasks cfg pid

/-- What a process runs when it calls an operation. -/
def body (cfg : Configuration) (pid : ℤ) (op : Operation) :
    Code LockId Shared (Except Thrown Unit) :=
  (op.run cfg pid).run

end VplJail.Task.Locking
