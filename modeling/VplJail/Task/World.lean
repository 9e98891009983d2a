import VplJail.Task.Home
import VplJail.Task.Open

/-!
# The state and the end of a task

`getState` tells from the stored task how far it is, and ends a task whose time is over. `cleanTask`
marks the task, removes its tickets, kills its processes and, if none survives, removes its files.
Once `cleanTask` has run, the task cannot be read any more (`unopenable_cleanTask`).
-/

namespace VplJail.Task

open ConfigurationFile Util

/-- `processState`: what a task is at. -/
inductive ProcessState
  | prestarting
  | starting
  | compiling
  | beforeRunning
  | running
  | retrieve
  | stopped
deriving DecidableEq, Repr

/-- The files of the server, the homes, and the live processes of each prisoner. -/
structure World where
  files : Files
  homes : ℕ → Option Home
  processes : ℕ → List ℤ

/-- The clock, the processes that run, and those that no signal ends. -/
structure Env where
  now : ℤ
  running : ℤ → Bool
  survives : ℤ → Bool

/-- `JAIL_MONITORSTART_TIMEOUT`: seconds for the monitor to come. -/
def monitorstartTimeout : ℤ := 10

/-- `JAIL_HARVEST_TIMEOUT`: seconds for the result to be fetched. -/
def harvestTimeout : ℤ := 30

/-- `LOG_DEBUG`: the level at which the homes are kept. -/
def logDebug : ℤ := 7

/-! ## The end of a task -/

/-- The mark of the end in the configuration of a task, and the configuration. -/
def markCleaning (cfg : Configuration) (uid : ℕ) (files : Files) : Files × ConfigData :=
  match files (processConfigFile cfg uid) with
  | none => (files, ∅)
  | some content =>
      match readConfiguration content ∅ with
      | none => (files, ∅)
      | some data =>
          let data := data.insert (ascii "CLEANING") (ascii "1")
          (Function.update files (processConfigFile cfg uid) (some (serialize data)), data)

/-- `removeTicketFile`: the file of a ticket is gone. -/
def removeTicketFile (cfg : Configuration) (files : Files) (ticket : Bytes) : Files :=
  if ticket = [] then files else deletePath (ticketPath cfg ticket) files

/-- The tickets of a configuration, in the order in which they are removed. -/
def ticketsOf (data : ConfigData) : List Bytes :=
  [valueOf data (ascii "ADMINTICKET"), valueOf data (ascii "EXECUTIONTICKET"),
    valueOf data (ascii "MONITORTICKET"), valueOf data (ascii "HTTPPASSTHROUGHTTICKET")]

/-- The tickets of a `processMonitor`, in the order in which they are removed. -/
def Info.tickets (info : Info) : List Bytes :=
  [info.adminticket, info.executionticket, info.monitorticket, info.httpPassthroughticket]

/-- The removal of the control directory of a prisoner. -/
def removeControlDir (cfg : Configuration) (uid : ℕ) (files : Files) : Files := fun path =>
  if (processControlPath cfg uid ++ ascii "/").isPrefixOf path then none else files path

/-- `cleanPrisonerFilesLocked`: the files of a task and its tickets are removed. -/
def cleanPrisonerFiles (cfg : Configuration) (uid : ℕ) (w : World) : World :=
  let (files, data) := markCleaning cfg uid w.files
  { w with
    files := removeControlDir cfg uid ((ticketsOf data).foldl (removeTicketFile cfg) files)
    homes := if cfg.logLevel ≤ logDebug then Function.update w.homes uid none else w.homes }

/-- The calls of `stopPrisonerProcess` by `cleanTask`. -/
def stopPrisonerProcesses (cfg : Configuration) (env : Env) (uid : ℕ) (w : World) : World :=
  if cfg.isPrisonerUID uid then
    { w with processes := Function.update w.processes uid ((w.processes uid).filter env.survives) }
  else w

/-- The first section of `cleanTask`. -/
def markTask (cfg : Configuration) (pm : ProcessMonitor) (w : World) : World :=
  let (files, data) := markCleaning cfg pm.prisoner w.files
  { w with files := (ticketsOf data ++ pm.info.tickets).foldl (removeTicketFile cfg) files }

/-- `cleanTask`: the processes of the task are stopped and its files removed. -/
def cleanTask (cfg : Configuration) (env : Env) (pm : ProcessMonitor) (w : World) : World :=
  let w := stopPrisonerProcesses cfg env pm.prisoner (markTask cfg pm w)
  if w.processes pm.prisoner = [] then cleanPrisonerFiles cfg pm.prisoner w else w

/-! ## How far a task is -/

/-- `hasMonitorTicket`: the task may be monitored. -/
def Info.hasMonitorTicket (info : Info) : Bool :=
  info.monitorticket != ascii "NO_MONITOR"

/-- `Util::processExistsAndRunning`: there is such a process, and it is no zombie. -/
def Env.processExistsAndRunning (env : Env) (pid : ℤ) : Bool :=
  decide (0 < pid) && env.running pid

/-- `controlFileExists`: the task has a file of this name. -/
def World.controlFileExists (cfg : Configuration) (uid : ℕ) (name : Bytes) (w : World) : Bool :=
  (w.files (processControlPath cfg uid ++ ascii "/" ++ name)).isSome

/-- `FileExists` of a file of the home. -/
def World.fileExists (uid : ℕ) (name : Bytes) (w : World) : Bool :=
  (w.homes uid).any fun home => home.files.contains name

/-- `VPL_EXECUTION`: the program for a terminal. -/
def vplExecution : Bytes := ascii "vpl_execution"

/-- `VPL_WEXECUTION`: the program for a graphical session. -/
def vplWexecution : Bytes := ascii "vpl_wexecution"

/-- `VPL_WEBEXECUTION`: the program with a web server of its own. -/
def vplWebexecution : Bytes := ascii "vpl_webexecution"

/-- The part of `getState` behind `readInfo`; `none` is the end of a task whose time is over. Nothing
appears while it waits for a file. -/
def stateOf (cfg : Configuration) (env : Env) (uid : ℕ) (info : Info) (w : World) :
    Option ProcessState :=
  if info.compilerPid = 0 then some .starting
  else if env.now < info.startTime ∨ info.startTime = 0 then some .starting
  -- the time of the task is over, with the time to fetch its result
  else if info.startTime + info.maxtime + harvestTimeout < env.now then none
  else if env.processExistsAndRunning info.compilerPid ∧ info.runnerPid = 0 then some .compiling
  -- the monitor has not come
  else if info.monitorPid = 0 ∧ info.hasMonitorTicket ∧
      monitorstartTimeout < env.now - info.startTime then none
  else if info.runnerPid = 0 then
    if info.monitorPid = 0 ∧ ¬ info.hasMonitorTicket ∧
        monitorstartTimeout < env.now - info.startTime then none
    else if info.interactive then some .beforeRunning
    else if w.controlFileExists cfg uid (ascii "compilation") then
      if w.fileExists uid vplExecution then some .compiling else some .retrieve
    else some .stopped
  else if env.processExistsAndRunning info.runnerPid then some .running
  else if info.interactive then some .stopped
  else if w.controlFileExists cfg uid (ascii "execution") then some .retrieve
  else some .stopped

/-- `getState`, with the fields that it sets. A task without its control directory has no
configuration. -/
def getState (cfg : Configuration) (env : Env) (pm : ProcessMonitor) (w : World) :
    World × Except Thrown (ProcessMonitor × ProcessState) :=
  match w.files (processConfigFile cfg pm.prisoner) with
  | none => (w, pure (pm, .stopped))
  | some content =>
      match readInfo (some content) with
      | .failed => (w, throw .unreadableConfig)
      | .cleaning info => (w, pure ({ pm with info := info }, .stopped))
      | .ok info =>
          match stateOf cfg env pm.prisoner info w with
          | none => (cleanTask cfg env { pm with info := info } w,
              pure ({ pm with info := info }, .stopped))
          | some state => (w, pure ({ pm with info := info }, state))

/-! ## A task that has ended -/

section Ended

variable {cfg : Configuration} {uid : ℕ} {files : Files}

/-- The task cannot be opened: it is gone, cannot be read or is marked. -/
def Unopenable (cfg : Configuration) (uid : ℕ) (files : Files) : Prop :=
  ∀ info, readInfo (files (processConfigFile cfg uid)) ≠ .ok info

/-- A task that is opened is not marked. -/
theorem cleaning_of_readInfo {config : Option Bytes} {info : Info} (h : readInfo config = .ok info) :
    info.cleaning = false := by
  rw [readInfo] at h
  cases hr : readTask config with
  | none => simp [hr] at h
  | some data =>
    rw [hr] at h
    dsimp only at h
    split at h
    · cases h
    · rename_i hcleaning
      rw [← ReadInfo.ok.inj h]
      exact Bool.eq_false_of_not_eq_true hcleaning

/-- A mark is read back. -/
theorem readInfo_marked {data : ConfigData} (hdata : Storable data) (info : Info) :
    readInfo (some (serialize (data.insert (ascii "CLEANING") (ascii "1")))) ≠ .ok info := by
  intro h
  have hkey : IsKey (ascii "CLEANING") := isKey_of_isWord (by decide +kernel)
  have hvalue : IsValue (ascii "1") := ⟨by decide, by decide, by decide⟩
  have hplain : IsPlain (ascii "CLEANING") (ascii "1") := by
    refine ⟨?_, ?_, ?_, ?_⟩ <;> decide +kernel
  have hcleaning := cleaning_of_readInfo h
  obtain ⟨content, data', hcontent, hread, rfl⟩ := readTask_of_readInfo h
  obtain rfl := Option.some.inj hcontent
  have hstorable : Storable (data.insert (ascii "CLEANING") (ascii "1")) :=
    hdata.insert ⟨hkey, hvalue⟩
  have hback : data'[ascii "CLEANING"]? = some (ascii "1") :=
    getElem?_of_readConfiguration_serialize hstorable Std.TreeMap.getElem?_insert_self hplain hread
  have hmark : (Info.ofData data').cleaning = true := by
    change (valueOf data' (ascii "CLEANING") == ascii "1") = true
    rw [valueOf, hback, Option.getD_some, beq_self_eq_true]
  rw [hmark] at hcleaning
  cases hcleaning

/-- A marked task cannot be opened. -/
theorem unopenable_markCleaning (cfg : Configuration) (uid : ℕ) (files : Files) :
    Unopenable cfg uid (markCleaning cfg uid files).1 := by
  intro info
  rw [markCleaning]
  split
  · rename_i hnone
    dsimp only
    rw [hnone]
    intro h
    cases h
  · rename_i content hcontent
    split
    · rename_i hread
      dsimp only
      rw [hcontent, readInfo, readTask, Option.bind_some, hread]
      intro h
      cases h
    · rename_i data hread
      dsimp only
      rw [Function.update_self]
      exact readInfo_marked (storable_readConfiguration hread) info

/-- A file is left or removed. -/
theorem deletePath_eq_or (path : Bytes) (files : Files) (k : Bytes) :
    deletePath path files k = files k ∨ deletePath path files k = none := by
  rw [deletePath]
  split
  · by_cases h : k = cstr path
    · rw [h, Function.update_self]
      exact .inr rfl
    · rw [Function.update_of_ne h]
      exact .inl rfl
  · exact .inl rfl

/-- The removal of tickets does not bring a task back. -/
theorem Unopenable.removeTickets (h : Unopenable cfg uid files) (tickets : List Bytes) :
    Unopenable cfg uid (tickets.foldl (removeTicketFile cfg) files) := by
  induction tickets generalizing files with
  | nil => exact h
  | cons ticket tickets ih =>
    refine ih ?_
    intro info
    rw [removeTicketFile]
    split
    · exact h info
    · rcases deletePath_eq_or (ticketPath cfg ticket) files (processConfigFile cfg uid) with heq | heq
      · rw [heq]
        exact h info
      · rw [heq]
        intro h
        cases h

/-- A task without control directory cannot be opened. -/
theorem unopenable_removeControlDir (cfg : Configuration) (uid : ℕ) (files : Files) :
    Unopenable cfg uid (removeControlDir cfg uid files) := by
  intro info
  have hprefix : (processControlPath cfg uid ++ ascii "/").isPrefixOf
      (processConfigFile cfg uid) = true := by
    rw [List.isPrefixOf_iff_prefix, processConfigFile]
    refine ⟨ascii "config", ?_⟩
    rw [List.append_assoc]
    rfl
  rw [removeControlDir, if_pos hprefix]
  intro h
  cases h

/-- A task that has been cleaned cannot be opened. -/
theorem unopenable_cleanTask (cfg : Configuration) (env : Env) (pm : ProcessMonitor) (w : World) :
    Unopenable cfg pm.prisoner (cleanTask cfg env pm w).files := by
  have hmark : Unopenable cfg pm.prisoner (markTask cfg pm w).files :=
    (unopenable_markCleaning cfg pm.prisoner w.files).removeTickets _
  have hstop : (stopPrisonerProcesses cfg env pm.prisoner (markTask cfg pm w)).files =
      (markTask cfg pm w).files := by
    rw [stopPrisonerProcesses]
    split <;> rfl
  rw [cleanTask]
  split
  · exact unopenable_removeControlDir cfg pm.prisoner _
  · rw [hstop]
    exact hmark

/-- `cleanTask` changes a task that can be opened. -/
theorem cleanTask_ne {cfg : Configuration} {pm : ProcessMonitor} {w : World} {info : Info}
    (env : Env) (h : readInfo (w.files (processConfigFile cfg pm.prisoner)) = .ok info) :
    cleanTask cfg env pm w ≠ w := by
  intro heq
  exact unopenable_cleanTask cfg env pm w info (by rw [heq, h])

/-- A removal of tickets creates no file. -/
theorem removeTickets_eq_none {path : Bytes} (h : files path = none) (tickets : List Bytes) :
    tickets.foldl (removeTicketFile cfg) files path = none := by
  induction tickets generalizing files with
  | nil => exact h
  | cons ticket tickets ih =>
    refine ih ?_
    rw [removeTicketFile]
    split
    · exact h
    · rcases deletePath_eq_or (ticketPath cfg ticket) files path with heq | heq
      · exact heq.trans h
      · exact heq

/-- A mark creates no other file. -/
theorem markCleaning_of_ne {path : Bytes} (h : path ≠ processConfigFile cfg uid) :
    (markCleaning cfg uid files).1 path = files path := by
  rw [markCleaning]
  split
  · rfl
  · split
    · rfl
    · exact Function.update_of_ne h _ _

/-- The end of a task creates no file but its configuration. -/
theorem cleanTask_eq_none {env : Env} {pm : ProcessMonitor} {w : World} {path : Bytes}
    (hpath : path ≠ processConfigFile cfg pm.prisoner) (h : w.files path = none) :
    (cleanTask cfg env pm w).files path = none := by
  have hmark : (markTask cfg pm w).files path = none :=
    removeTickets_eq_none ((markCleaning_of_ne hpath).trans h) _
  have hstop : (stopPrisonerProcesses cfg env pm.prisoner (markTask cfg pm w)).files path =
      none := by
    rw [stopPrisonerProcesses]
    split <;> exact hmark
  rw [cleanTask]
  split
  · rw [cleanPrisonerFiles]
    dsimp only
    rw [removeControlDir]
    split
    · rfl
    · exact removeTickets_eq_none ((markCleaning_of_ne hpath).trans hstop) _
  · exact hstop

end Ended

/-! ## What `getState` does -/

section State

variable {cfg : Configuration} {env : Env} {pm : ProcessMonitor} {w : World}

/-- A task that can be read has a state, or its time is over and it ends. -/
theorem getState_of_readInfo (env : Env) (pm : ProcessMonitor) {info : Info}
    (h : readInfo (w.files (processConfigFile cfg pm.prisoner)) = .ok info) :
    getState cfg env pm w =
      match stateOf cfg env pm.prisoner info w with
      | none => (cleanTask cfg env { pm with info := info } w,
          .ok ({ pm with info := info }, .stopped))
      | some state => (w, .ok ({ pm with info := info }, state)) := by
  obtain ⟨content, data, hcontent, -, -⟩ := readTask_of_readInfo h
  rw [hcontent] at h
  rw [getState, hcontent]
  dsimp only
  rw [h]
  dsimp only
  cases stateOf cfg env pm.prisoner info w <;> rfl

/-- `getState` leaves the task or ends it. -/
theorem getState_world (cfg : Configuration) (env : Env) (pm : ProcessMonitor) (w : World) :
    (getState cfg env pm w).1 = w ∨
      ∃ info, (getState cfg env pm w).1 = cleanTask cfg env { pm with info := info } w := by
  rw [getState]
  split
  · exact .inl rfl
  · split
    · exact .inl rfl
    · exact .inl rfl
    · rename_i info _
      split
      · exact .inr ⟨info, rfl⟩
      · exact .inl rfl

/-- No task is reported as not started yet. -/
theorem stateOf_ne_prestarting (cfg : Configuration) (env : Env) (uid : ℕ) (info : Info)
    (w : World) : stateOf cfg env uid info w ≠ some .prestarting := by
  have hite {p : Prop} [Decidable p] {a b : Option ProcessState} (ha : a ≠ some .prestarting)
      (hb : b ≠ some .prestarting) : (if p then a else b) ≠ some .prestarting := by
    split
    · exact ha
    · exact hb
  have hwaiting : (if info.monitorPid = 0 ∧ ¬ info.hasMonitorTicket ∧
        monitorstartTimeout < env.now - info.startTime then none
      else if info.interactive then some ProcessState.beforeRunning
      else if w.controlFileExists cfg uid (ascii "compilation") then
        if w.fileExists uid vplExecution then some .compiling else some .retrieve
      else some .stopped) ≠ some .prestarting :=
    hite nofun (hite nofun (hite (hite nofun nofun) nofun))
  rw [stateOf]
  exact hite nofun (hite nofun (hite nofun (hite nofun (hite nofun (hite hwaiting
    (hite nofun (hite nofun (hite nofun nofun))))))))

/-- `getState` reads the stored fields again. -/
theorem getState_eq_ok {w' : World} {pm' : ProcessMonitor} {state : ProcessState}
    (h : getState cfg env pm w = (w', .ok (pm', state))) :
    pm'.prisoner = pm.prisoner ∧ pm'.security = pm.security ∧ state ≠ .prestarting := by
  have hok {w₁ : World} {pm₁ : ProcessMonitor} {state₁ : ProcessState}
      (heq : (w₁, (pure (pm₁, state₁) : Except Thrown _)) = (w', .ok (pm', state))) :
      pm' = pm₁ ∧ state = state₁ := by
    obtain ⟨rfl, rfl⟩ := Prod.mk.inj (Except.ok.inj (Prod.mk.inj heq).2)
    exact ⟨rfl, rfl⟩
  rw [getState] at h
  split at h
  · obtain ⟨rfl, rfl⟩ := hok h
    exact ⟨rfl, rfl, nofun⟩
  · split at h
    · cases (Prod.mk.inj h).2
    · obtain ⟨rfl, rfl⟩ := hok h
      exact ⟨rfl, rfl, nofun⟩
    · split at h
      · obtain ⟨rfl, rfl⟩ := hok h
        exact ⟨rfl, rfl, nofun⟩
      · rename_i state' hstate
        obtain ⟨rfl, rfl⟩ := hok h
        refine ⟨rfl, rfl, ?_⟩
        rintro rfl
        exact stateOf_ne_prestarting _ _ _ _ _ hstate

end State

end VplJail.Task
