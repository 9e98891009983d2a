import VplJail.Task.LocalServer
import VplJail.Task.Operations

/-!
# The operations step by step

The operations on a task as they run while their process holds the lock of the task. Each reads the
stored task again before it writes, whatever fields its process has in memory. `run_changeInfo` says
what an operation does to the files that sets fields, and `run_setRunner` and its neighbours that the
steps make up the operations as a whole.
-/

namespace VplJail.Task.Locked

open CriticalSection ConfigurationFile Util

/-! ## The files -/

/-- A file is written. -/
def putFile (path content : Bytes) : FileM Unit :=
  ExceptT.lift (Prog.change fun files => Function.update files path (some content))

/-- `Util::deleteFile`: the file is gone, if there was one. -/
def deleteFile (path : Bytes) : FileM Unit :=
  ExceptT.lift (Prog.change (deletePath path))

/-- `Util::writeFile` to a directory that is there. -/
def saveFile (path content : Bytes) : FileM Unit :=
  if correctPath path then putFile path content
  else throw (.http internalServerErrorCode "I can't write file")

/-- `readInfo`: the fields of a task from its file. -/
def loadInfo (cfg : Configuration) (uid : ℕ) : FileM Info := do
  ofExcept (infoOrThrow (← look (processConfigFile cfg uid)))

/-- The path of a file of the control directory of a task. -/
def controlFile (cfg : Configuration) (uid : ℕ) (name : Bytes) : Bytes :=
  processControlPath cfg uid ++ ascii "/" ++ name

/-! ## Fields that are set -/

/-- `readInfo`, and `writeInfo` if some fields are set. -/
def changeInfo (cfg : Configuration) (change : Info → FileM (Option Info)) (pm : ProcessMonitor) :
    FileM ProcessMonitor := do
  let info ← loadInfo cfg pm.prisoner
  match ← change info with
  | none => pure { pm with info := info }
  | some info => do
      storeInfo cfg pm.prisoner info
      pure { pm with info := info }

/-- `setExtraInfo`: the limits and the kind of the task are stored. -/
def setExtraInfo (cfg : Configuration) (el : ExecutionLimits) (ri : Bool) (lang : Bytes) :
    ProcessMonitor → FileM ProcessMonitor :=
  changeInfo cfg fun info => pure <| some { info with
    maxtime := el.maxtime
    maxfilesize := el.maxfilesize
    maxmemory := el.maxmemory
    maxprocesses := el.maxprocesses
    interactive := ri
    lang := lang }

/-- `setCompiler` by the process `pid` at the time `now`. -/
def setCompiler (cfg : Configuration) (pid now : ℤ) (pm : ProcessMonitor) : FileM ProcessMonitor :=
  if pm.security = .monitor then pure pm
  else changeInfo cfg
    (fun info => pure (some { info with startTime := now, compilerPid := pid })) pm

/-- `setRunner` by the process `pid` at the time `now`. -/
def setRunner (cfg : Configuration) (pid now : ℤ) (pm : ProcessMonitor) : FileM ProcessMonitor :=
  if pm.security = .monitor then pure pm
  else changeInfo cfg
    (fun info => pure (some { info with startTime := now, runnerPid := pid })) pm

/-- `monitorize` by the process `pid`. -/
def monitorize (cfg : Configuration) (pid : ℤ) (pm : ProcessMonitor) : FileM ProcessMonitor :=
  if pm.security ≠ .monitor then pure pm
  else changeInfo cfg (fun info =>
    if info.monitorPid ≠ 0 then throw (.text "Process already monitorized")
    else pure (some { info with monitorPid := pid })) pm

/-- The strings that `getPartialTicket` makes. -/
abbrev Digits := { ticket : Bytes // ticket ≠ [] ∧ ∀ b ∈ ticket, isDigit b = true }

/-- Strings are drawn until one names no file; none is drawn behind the last of them. -/
def drawTicket (cfg : Configuration) (ticket : Digits) : List Digits → FileM Digits
  | [] => pure ticket
  | next :: more => do
      if (← look (ticketPath cfg ticket)).isSome then drawTicket cfg next more else pure ticket

/-- The content of a ticket. -/
def ticketContent (uid : ℕ) (security : Bytes) : Bytes :=
  serialize (.ofList [(ascii "USER_ID", itos uid), (ascii "SECURITY", security)])

/-- `getHttpPassthroughTicket`, with the strings that are drawn if there is no ticket yet. -/
def getHttpPassthroughTicket (cfg : Configuration) (ticket : Digits) (redrawn : List Digits)
    (pm : ProcessMonitor) : FileM ProcessMonitor :=
  changeInfo cfg (fun info =>
    if info.httpPassthroughticket ≠ [] then pure none
    else do
      let drawn ← drawTicket cfg ticket redrawn
      putFile (ticketPath cfg drawn) (ticketContent pm.prisoner (ascii "3"))
      pure (some { info with httpPassthroughticket := drawn })) pm

/-- `getLocalWebServer`, with the content of `.vpl_localserveraddress` if it exists. -/
def getLocalWebServer (cfg : Configuration) (address : Option Bytes) :
    ProcessMonitor → FileM ProcessMonitor :=
  changeInfo cfg fun info => pure <|
    if info.localwebserver = [] then address.map fun address =>
      { info with localwebserver := address }
    else none

/-! ## Outputs -/

/-- `setCompilationOutput`: the output of the compilation is stored. -/
def setCompilationOutput (cfg : Configuration) (compilation : Bytes) (pm : ProcessMonitor) :
    FileM Unit := do
  let _ ← loadInfo cfg pm.prisoner
  if (← look (controlFile cfg pm.prisoner (ascii "compilation"))).isSome then
    throw (.text "Compilation already saved")
  else saveFile (controlFile cfg pm.prisoner (ascii "compilation")) compilation

/-- `setExecutionOutput`: the output of the execution is stored. -/
def setExecutionOutput (cfg : Configuration) (execution : Bytes) (executed : Bool)
    (pm : ProcessMonitor) : FileM Unit := do
  let _ ← loadInfo cfg pm.prisoner
  if (← look (controlFile cfg pm.prisoner (ascii "compilation"))).isNone then
    throw (.text "Execution not saved because compilation is missing")
  else if executed then do
    if (← look (controlFile cfg pm.prisoner (ascii "execution"))).isSome then
      throw (.text "Execution already saved")
    else saveFile (controlFile cfg pm.prisoner (ascii "execution")) execution
  else pure ()

/-- A stored output, which is removed once it has been read; `none` is a file that does not exist. -/
def takeOutput (cfg : Configuration) (uid : ℕ) (name : Bytes) : FileM (Option Bytes) := do
  match ← look (controlFile cfg uid name) with
  | none => pure none
  | some content =>
      if correctPath (controlFile cfg uid name) then do
        let r ← ofExcept (limitResultSize cfg content)
        deleteFile (controlFile cfg uid name)
        pure (some r)
      else throw (.http internalServerErrorCode "I can't read file")

/-- The outputs that `getResult` takes, for an admin ticket of a task that is not interactive. -/
def getResult (cfg : Configuration) (pm : ProcessMonitor) : FileM (Option Bytes × Option Bytes) :=
  if pm.security ≠ .admin then
    throw (.http internalServerErrorCode "Security: required admin ticket for request")
  else if pm.info.interactive then
    throw (.http internalServerErrorCode "Security: process in bad state")
  else do
    let compilation ← takeOutput cfg pm.prisoner (ascii "compilation")
    let execution ← takeOutput cfg pm.prisoner (ascii "execution")
    pure (compilation, execution)

/-! ## The end of a task -/

/-- The mark of the end in the configuration of a task, and the configuration. -/
def markCleaning (cfg : Configuration) (uid : ℕ) : FileM ConfigData := do
  match ← look (processConfigFile cfg uid) with
  | none => pure ∅
  | some content =>
      match readConfiguration content ∅ with
      | none => pure ∅
      | some data => do
          let data := data.insert (ascii "CLEANING") (ascii "1")
          putFile (processConfigFile cfg uid) (serialize data)
          pure data

/-- `removeTicketFile` of some tickets. -/
def removeTickets (cfg : Configuration) : List Bytes → FileM Unit
  | [] => pure ()
  | ticket :: tickets => do
      if ticket = [] then pure () else deleteFile (ticketPath cfg ticket)
      removeTickets cfg tickets

/-- The first section of `cleanTask`. -/
def markTask (cfg : Configuration) (pm : ProcessMonitor) : FileM Unit := do
  let data ← markCleaning cfg pm.prisoner
  removeTickets cfg (ticketsOf data ++ pm.info.tickets)

/-- The files that `cleanPrisonerFilesLocked` removes from the control directory. -/
def cleanPrisonerFiles (cfg : Configuration) (uid : ℕ) : FileM Unit := do
  let data ← markCleaning cfg uid
  removeTickets cfg (ticketsOf data)
  ExceptT.lift (Prog.change (removeControlDir cfg uid))

/-! ## What the steps do -/

section Run

variable {cfg : Configuration} {files : Files}

@[simp] theorem run_putFile (path content : Bytes) (files : Files) :
    Prog.runExcept (putFile path content) files =
      (Function.update files path (some content), .ok ()) :=
  Prog.runExcept_lift _ _

@[simp] theorem run_deleteFile (path : Bytes) (files : Files) :
    Prog.runExcept (deleteFile path) files = (deletePath path files, .ok ()) :=
  Prog.runExcept_lift _ _

@[simp] theorem run_loadInfo (cfg : Configuration) (uid : ℕ) (files : Files) :
    Prog.runExcept (loadInfo cfg uid) files =
      (files, infoOrThrow (files (processConfigFile cfg uid))) := by
  rw [loadInfo, Prog.runExcept_bind, run_look]
  exact Prog.runExcept_ofExcept _ _

theorem run_storeInfo (cfg : Configuration) (uid : ℕ) (info : Info) (files : Files) :
    Prog.runExcept (storeInfo cfg uid info) files =
      match writeInfo (files (processConfigFile cfg uid)) info ∅ with
      | none => (files, .error .unreadableConfig)
      | some content => (Function.update files (processConfigFile cfg uid) (some content),
          .ok ()) := by
  rw [storeInfo, Prog.runExcept_bind, run_look]
  dsimp only
  cases writeInfo (files (processConfigFile cfg uid)) info ∅ with
  | none => rfl
  | some content => exact Prog.runExcept_lift _ _

/-- What becomes of the files and the fields of a task that has been read. -/
def afterChange (cfg : Configuration) (pm : ProcessMonitor) :
    Files × Except Thrown (Option Info) → Info → Files × Except Thrown ProcessMonitor
  | (files, .error e), _ => (files, .error e)
  | (files, .ok none), info => (files, .ok { pm with info := info })
  | (files, .ok (some info)), _ =>
      match writeInfo (files (processConfigFile cfg pm.prisoner)) info ∅ with
      | none => (files, .error .unreadableConfig)
      | some content => (Function.update files (processConfigFile cfg pm.prisoner) (some content),
          .ok { pm with info := info })

/-- The fields are read, changed and stored. -/
theorem run_changeInfo (change : Info → FileM (Option Info)) (pm : ProcessMonitor)
    (files : Files) :
    Prog.runExcept (changeInfo cfg change pm) files =
      match infoOrThrow (files (processConfigFile cfg pm.prisoner)) with
      | .error e => (files, .error e)
      | .ok info => afterChange cfg pm (Prog.runExcept (change info) files) info := by
  rw [changeInfo, Prog.runExcept_bind, run_loadInfo]
  cases infoOrThrow (files (processConfigFile cfg pm.prisoner)) with
  | error e => rfl
  | ok info =>
    dsimp only
    rw [Prog.runExcept_bind]
    rcases Prog.runExcept (change info) files with ⟨files', e | info' | info'⟩
    · rfl
    · rfl
    · dsimp only
      rw [Prog.runExcept_bind, run_storeInfo, afterChange]
      cases writeInfo (files' (processConfigFile cfg pm.prisoner)) info' ∅ <;> rfl

/-- A string of digits names nothing in a control directory. -/
theorem ticketPath_ne_controlPath (ticket : Digits) (uid : ℕ) (rest : Bytes) :
    ticketPath cfg ticket ≠ processControlPath cfg uid ++ rest := by
  obtain ⟨ticket, hne, hdigits⟩ := ticket
  cases ticket with
  | nil => exact absurd rfl hne
  | cons d ds =>
    have hpath : processControlPath cfg uid ++ rest =
        cfg.controlPath ++ (ascii "/" ++ 112 :: (itos uid ++ rest)) := by
      rw [processControlPath, List.append_assoc, List.append_assoc, List.append_assoc]
      rfl
    rw [ticketPath, List.append_assoc, hpath]
    intro heq
    have hp : d = 112 := (List.cons.inj (List.append_cancel_left (List.append_cancel_left heq))).1
    have hdigit : isDigit d = true := hdigits d List.mem_cons_self
    rw [hp] at hdigit
    cases hdigit

theorem ticketPath_ne_configFile (ticket : Digits) (uid : ℕ) :
    ticketPath cfg ticket ≠ processConfigFile cfg uid :=
  ticketPath_ne_controlPath ticket uid _

/-- The string that is taken in the end. -/
def drawnTicket (cfg : Configuration) (files : Files) (ticket : Digits) : List Digits → Digits
  | [] => ticket
  | next :: more =>
      if (files (ticketPath cfg ticket)).isSome then drawnTicket cfg files next more else ticket

@[simp] theorem run_drawTicket (ticket : Digits) (redrawn : List Digits) (files : Files) :
    Prog.runExcept (drawTicket cfg ticket redrawn) files =
      (files, .ok (drawnTicket cfg files ticket redrawn)) := by
  induction redrawn generalizing ticket with
  | nil => rfl
  | cons next more ih =>
    rw [drawTicket, drawnTicket, Prog.runExcept_bind, run_look]
    dsimp only
    rw [Prog.runExcept_ite, ih]
    split <;> rfl

@[simp] theorem run_removeTickets (tickets : List Bytes) (files : Files) :
    Prog.runExcept (removeTickets cfg tickets) files =
      (tickets.foldl (removeTicketFile cfg) files, .ok ()) := by
  induction tickets generalizing files with
  | nil => rfl
  | cons ticket tickets ih =>
    rw [removeTickets, Prog.runExcept_ite, List.foldl_cons, removeTicketFile]
    split
    · exact ih files
    · rw [Prog.runExcept_bind, run_deleteFile]
      exact ih _

/-! ## The operations as a whole -/

/-- The steps of `setRunner` are those of the whole operation. -/
theorem run_setRunner (pid now : ℤ) (pm : ProcessMonitor) (w : World) :
    Prog.runExcept (setRunner cfg pid now pm) w.files =
      ((Task.setRunner cfg pid now pm w).1.files, (Task.setRunner cfg pid now pm w).2) := by
  rw [setRunner, Task.setRunner, Prog.runExcept_ite]
  split
  · rfl
  · rw [run_changeInfo, Task.changeInfo]
    cases infoOrThrow (w.files (processConfigFile cfg pm.prisoner)) with
    | error e => rfl
    | ok info =>
      dsimp only
      rw [Prog.runExcept_pure, afterChange]
      cases writeInfo (w.files (processConfigFile cfg pm.prisoner))
        { info with startTime := now, runnerPid := pid } ∅ <;> rfl

/-- The steps of `getHttpPassthroughTicket` are those of the whole operation with the string that
is taken. -/
theorem run_getHttpPassthroughTicket (ticket : Digits) (redrawn : List Digits)
    (pm : ProcessMonitor) (w : World) :
    Prog.runExcept (getHttpPassthroughTicket cfg ticket redrawn pm) w.files =
      ((Task.getHttpPassthroughTicket cfg (drawnTicket cfg w.files ticket redrawn) pm w).1.files,
        (Task.getHttpPassthroughTicket cfg (drawnTicket cfg w.files ticket redrawn) pm w).2) := by
  rw [getHttpPassthroughTicket, run_changeInfo, Task.getHttpPassthroughTicket]
  cases hinfo : infoOrThrow (w.files (processConfigFile cfg pm.prisoner)) with
  | error e => rfl
  | ok info =>
    dsimp only
    rw [Prog.runExcept_ite]
    split
    · rfl
    · rw [Prog.runExcept_bind, run_drawTicket]
      dsimp only
      rw [Prog.runExcept_bind, run_putFile]
      dsimp only
      -- the ticket is not the configuration, which is read again
      rw [Prog.runExcept_pure, afterChange, Task.changeInfo, ← ticketContent]
      dsimp only
      rw [Function.update_of_ne (Ne.symm (ticketPath_ne_configFile _ _))]
      rw [hinfo]
      dsimp only
      cases writeInfo (w.files (processConfigFile cfg pm.prisoner))
        { info with httpPassthroughticket := drawnTicket cfg w.files ticket redrawn } ∅ <;> rfl

/-- The steps of `getLocalWebServer` store what the whole operation does. -/
theorem run_getLocalWebServer (address : Option Bytes) (pm : ProcessMonitor) (files : Files) :
    (Prog.runExcept (getLocalWebServer cfg address pm) files).1
        (processConfigFile cfg pm.prisoner) =
      (Task.getLocalWebServer (files (processConfigFile cfg pm.prisoner)) address).1 := by
  rw [getLocalWebServer, run_changeInfo, Task.getLocalWebServer, infoOrThrow]
  cases readInfo (files (processConfigFile cfg pm.prisoner)) with
  | failed => rfl
  | cleaning info => rfl
  | ok info =>
    show (afterChange cfg pm (files, .ok (if info.localwebserver = [] then _ else none)) info).1 _ = _
    dsimp only
    split
    · cases address with
      | none => rfl
      | some address =>
        rw [Option.map_some, afterChange]
        dsimp only
        cases writeInfo (files (processConfigFile cfg pm.prisoner))
            { info with localwebserver := address } ∅ with
        | none => rfl
        | some content => exact Function.update_self ..
    · rfl

@[simp] theorem run_markCleaning (uid : ℕ) (files : Files) :
    Prog.runExcept (markCleaning cfg uid) files =
      ((Task.markCleaning cfg uid files).1, .ok (Task.markCleaning cfg uid files).2) := by
  rw [markCleaning, Task.markCleaning, Prog.runExcept_bind, run_look]
  dsimp only
  cases files (processConfigFile cfg uid) with
  | none => rfl
  | some content =>
    dsimp only
    cases readConfiguration content ∅ with
    | none => rfl
    | some data =>
      dsimp only
      rw [Prog.runExcept_bind, run_putFile]
      rfl

/-- The steps of the first section of `cleanTask` are those of the whole section. -/
theorem run_markTask (pm : ProcessMonitor) (w : World) :
    Prog.runExcept (markTask cfg pm) w.files = ((Task.markTask cfg pm w).files, .ok ()) := by
  rw [markTask, Prog.runExcept_bind, run_markCleaning]
  exact run_removeTickets _ _

/-- So are those of its second section. -/
theorem run_cleanPrisonerFiles (uid : ℕ) (w : World) :
    Prog.runExcept (cleanPrisonerFiles cfg uid) w.files =
      ((Task.cleanPrisonerFiles cfg uid w).files, .ok ()) := by
  rw [cleanPrisonerFiles, Prog.runExcept_bind, run_markCleaning]
  dsimp only
  rw [Prog.runExcept_bind, run_removeTickets]
  exact Prog.runExcept_lift _ _

end Run

end VplJail.Task.Locked
