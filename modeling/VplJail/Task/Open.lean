import VplJail.Common.CriticalSection
import VplJail.Configuration.ReadBack
import VplJail.Configuration.Settings
import VplJail.Task.Info
import VplJail.Util.Exceptions

/-!
# Opening a task with a ticket

The constructor `processMonitor(string ticket)`. A ticket is a file of the control directory named by
digits. The constructor finds the task in it, removes it if it may be used once only, reads the task
and registers a monitor, all under the global lock. `run_ofTicket` says what a call does to the files.
-/

namespace VplJail.Task

open CriticalSection ConfigurationFile Util

/-- `securityLevel`, with the numbers that stand for nothing. -/
inductive SecurityLevel
  | admin
  | monitor
  | execute
  | httppassthrough
  | none
  | other (value : ℤ)
deriving DecidableEq, Repr

/-- The cast of an `int` to `securityLevel`. -/
def SecurityLevel.ofInt : ℤ → SecurityLevel
  | 0 => admin
  | 1 => monitor
  | 2 => execute
  | 3 => httppassthrough
  | 4 => none
  | value => other value

/-- The levels of the tickets that are removed when they are used. -/
def SecurityLevel.IsOneTime (level : SecurityLevel) : Prop :=
  level = monitor ∨ level = execute

instance : DecidablePred SecurityLevel.IsOneTime := fun level => by
  unfold SecurityLevel.IsOneTime
  infer_instance

/-- The regular files, by the path that the operating system sees. -/
abbrev Files := Bytes → Option Bytes

/-- The fields of a `processMonitor` that are set by opening a task. -/
structure ProcessMonitor where
  prisoner : ℕ
  security : SecurityLevel
  info : Info
deriving DecidableEq

/-! ## The constructor -/

/-- `reg`, which is `^[0-9]+$`, on the string up to its first NUL. -/
def hasTicketFormat (ticket : Bytes) : Bool :=
  PosixRegex.matchesWhole [.plus isDigit] (cstr ticket)

/-- `fileName`, the path of a ticket. -/
def ticketPath (cfg : Configuration) (ticket : Bytes) : Bytes :=
  cfg.controlPath ++ ascii "/" ++ ticket

/-- `getProcessControlPath` of a prisoner. -/
def processControlPath (cfg : Configuration) (uid : ℕ) : Bytes :=
  cfg.controlPath ++ ascii "/" ++ (ascii "p" ++ itos uid)

/-- `getProcessConfigFile` of a prisoner. -/
def processConfigFile (cfg : Configuration) (uid : ℕ) : Bytes :=
  processControlPath cfg uid ++ ascii "/config"

/-- `Util::deleteFile` of a file whose directory can be opened. -/
def deletePath (path : Bytes) (files : Files) : Files :=
  if correctPath path then Function.update files (cstr path) none else files

/-- The parameters of a ticket that its file does not set. -/
def ticketDefaults : ConfigData :=
  .ofList [(ascii "USER_ID", ascii "0"), (ascii "SECURITY", ascii "5")]

/-- `setPrisonerID`, with the conversion of the `int` in the ticket to `uid_t`. -/
def setPrisonerID (cfg : Configuration) (value : ℤ) : Except Thrown ℕ :=
  let prisoner := (value % 2 ^ 32).toNat
  if prisoner = cfg.homeDirOwnerUid then throw (.http internalServerErrorCode "Reserved prisoner id")
  else if cfg.isPrisonerUID prisoner then pure prisoner
  else throw (.http internalServerErrorCode "Invalid prisoner id")

/-- The prisoner and the level of a ticket with the given configuration. -/
def ticketOfData (cfg : Configuration) (data : ConfigData) : Except Thrown (ℕ × SecurityLevel) :=
  if valueOf data (ascii "USER_ID") = ascii "0" ∨ valueOf data (ascii "SECURITY") = ascii "5" then
    throw (.text "Ticket invalid: task configuration lost")
  else do
    let prisoner ← setPrisonerID cfg (atoi (valueOf data (ascii "USER_ID")))
    pure (prisoner, .ofInt (atoi (valueOf data (ascii "SECURITY"))))

/-- The prisoner and the level of a ticket file with the given content. -/
def readTicket (cfg : Configuration) (content : Option Bytes) :
    Except Thrown (ℕ × SecurityLevel) :=
  match content.bind fun content => readConfiguration content ticketDefaults with
  | none => throw .unreadableConfig
  | some data => ticketOfData cfg data

/-- The task of a configuration file, or what `readInfo` throws. -/
def infoOrThrow (config : Option Bytes) : Except Thrown Info :=
  match readInfo config with
  | .failed => throw .unreadableConfig
  | .cleaning _ => throw .taskCleaning
  | .ok info => pure info

/-- The steps of a process on the files. -/
abbrev FileM := ExceptT Thrown (Prog Files)

/-- The file as it stands. -/
def look (path : Bytes) : FileM (Option Bytes) := do
  let files ← ExceptT.lift Prog.look
  pure (files path)

/-- `writeInfo`: the fields of a task go to its file. -/
def storeInfo (cfg : Configuration) (prisoner : ℕ) (info : Info) : FileM Unit := do
  match writeInfo (← look (processConfigFile cfg prisoner)) info ∅ with
  | none => throw .unreadableConfig
  | some content => ExceptT.lift <| Prog.change fun files =>
      Function.update files (processConfigFile cfg prisoner) (some content)

/-- `monitorize` of a monitor, by the process `pid`. -/
def monitorize (cfg : Configuration) (pid : ℤ) (prisoner : ℕ) : FileM Info := do
  let info ← ofExcept (infoOrThrow (← look (processConfigFile cfg prisoner)))
  if info.monitorPid ≠ 0 then throw (.text "Process already monitorized")
  else do
    storeInfo cfg prisoner { info with monitorPid := pid }
    pure { info with monitorPid := pid }

/-- The task of the prisoner, if its configuration is there. -/
def openTask (cfg : Configuration) (prisoner : ℕ) : FileM Info := do
  if (← look (processConfigFile cfg prisoner)).isNone then
    throw (.text "Ticket invalid: task configuration lost")
  else ofExcept (infoOrThrow (← look (processConfigFile cfg prisoner)))

/-- The removal of a ticket that is used. -/
def useTicket (fileName : Bytes) (security : SecurityLevel) : FileM Unit :=
  if security.IsOneTime then ExceptT.lift (Prog.change (deletePath fileName)) else pure ()

/-- What the constructor does under the lock with the ticket file `fileName`. -/
def openTicket (cfg : Configuration) (pid : ℤ) (fileName : Bytes) : FileM ProcessMonitor := do
  if (← look (cstr fileName)).isNone then throw (.http notFoundCode "Ticket not found")
  else do
    let (prisoner, security) ← ofExcept (readTicket cfg (← look (cstr fileName)))
    useTicket fileName security
    let info ← openTask cfg prisoner
    let info ← if security = .monitor then monitorize cfg pid prisoner else pure info
    pure ⟨prisoner, security, info⟩

/-- `processMonitor(string ticket)` in the process `pid`. A string of another form throws before the
lock is taken; as it touches nothing, it may as well wait for the lock. -/
def ofTicket (cfg : Configuration) (pid : ℤ) (ticket : Bytes) : FileM ProcessMonitor :=
  if hasTicketFormat (trimAndRemoveQuotes ticket) then
    openTicket cfg pid (ticketPath cfg (trimAndRemoveQuotes ticket))
  else throw (.text "Ticket invalid format")

/-! ## What a call does -/

section Run

variable {cfg : Configuration} {pid : ℤ} {prisoner : ℕ} {files files' : Files}

@[simp] theorem run_look (path : Bytes) (files : Files) :
    Prog.runExcept (look path) files = (files, .ok (files path)) := by
  rw [look, Prog.runExcept_bind, Prog.runExcept_lift]
  rfl

/-- The files once a ticket has been used. -/
def afterUse (fileName : Bytes) (security : SecurityLevel) (files : Files) : Files :=
  if security.IsOneTime then deletePath fileName files else files

@[simp] theorem run_useTicket (fileName : Bytes) (security : SecurityLevel) (files : Files) :
    Prog.runExcept (useTicket fileName security) files =
      (afterUse fileName security files, .ok ()) := by
  rw [useTicket, afterUse, Prog.runExcept_ite]
  split <;> simp

@[simp] theorem run_openTask (cfg : Configuration) (prisoner : ℕ) (files : Files) :
    Prog.runExcept (openTask cfg prisoner) files =
      (files, if (files (processConfigFile cfg prisoner)).isNone then
          throw (.text "Ticket invalid: task configuration lost")
        else infoOrThrow (files (processConfigFile cfg prisoner))) := by
  rw [openTask, Prog.runExcept_bind, run_look]
  dsimp only
  rw [Prog.runExcept_ite]
  split
  · rfl
  · simp

/-- A monitor that is registered has found the task without one. -/
theorem run_monitorize (cfg : Configuration) (pid : ℤ) (prisoner : ℕ) (files : Files) :
    (∃ e, (∀ info, infoOrThrow (files (processConfigFile cfg prisoner)) = .ok info →
          info.monitorPid ≠ 0 ∨ writeInfo (files (processConfigFile cfg prisoner))
            { info with monitorPid := pid } ∅ = none) ∧
        Prog.runExcept (monitorize cfg pid prisoner) files = (files, .error e)) ∨
      ∃ info content, infoOrThrow (files (processConfigFile cfg prisoner)) = .ok info ∧
        info.monitorPid = 0 ∧
        writeInfo (files (processConfigFile cfg prisoner)) { info with monitorPid := pid } ∅ =
          some content ∧
        Prog.runExcept (monitorize cfg pid prisoner) files =
          (Function.update files (processConfigFile cfg prisoner) (some content),
            .ok { info with monitorPid := pid }) := by
  rw [monitorize, Prog.runExcept_bind, run_look]
  dsimp only
  rw [Prog.runExcept_bind, Prog.runExcept_ofExcept]
  cases hinfo : infoOrThrow (files (processConfigFile cfg prisoner)) with
  | error e =>
    refine .inl ⟨e, ?_, rfl⟩
    intro info h
    cases h
  | ok info =>
    dsimp only
    rw [Prog.runExcept_ite]
    by_cases hpid : info.monitorPid = 0
    · rw [if_neg (not_not.mpr hpid), Prog.runExcept_bind, storeInfo, Prog.runExcept_bind, run_look]
      dsimp only
      cases hwrite : writeInfo (files (processConfigFile cfg prisoner))
          { info with monitorPid := pid } ∅ with
      | none =>
        refine .inl ⟨.unreadableConfig, fun info' h => .inr ?_, rfl⟩
        rw [← Except.ok.inj h, hwrite]
      | some content => exact .inr ⟨info, content, rfl, hpid, hwrite, by simp⟩
    · rw [if_pos hpid]
      exact .inl ⟨_, fun info' h => .inl (Except.ok.inj h ▸ hpid), rfl⟩

/-- What `openTicket` leaves: there is no ticket, the ticket has been used for nothing, or a task has
been opened, with its monitor registered for a ticket of a monitor. -/
inductive Opening (cfg : Configuration) (pid : ℤ) (fileName : Bytes) (files : Files) :
    Files × Except Thrown ProcessMonitor → Prop
  | refused (e : Thrown) (hticket : ∀ t, readTicket cfg (files (cstr fileName)) ≠ .ok t) :
      Opening cfg pid fileName files (files, .error e)
  | wasted (e : Thrown) {prisoner : ℕ} {security : SecurityLevel}
      (hticket : readTicket cfg (files (cstr fileName)) = .ok (prisoner, security))
      (hfailed : ∀ info,
        infoOrThrow (afterUse fileName security files (processConfigFile cfg prisoner)) = .ok info →
        security = .monitor ∧ (info.monitorPid ≠ 0 ∨
          writeInfo (afterUse fileName security files (processConfigFile cfg prisoner))
            { info with monitorPid := pid } ∅ = none)) :
      Opening cfg pid fileName files (afterUse fileName security files, .error e)
  | opened {prisoner : ℕ} {security : SecurityLevel} {info : Info}
      (hticket : readTicket cfg (files (cstr fileName)) = .ok (prisoner, security))
      (hsecurity : security ≠ .monitor)
      (hinfo : infoOrThrow (afterUse fileName security files (processConfigFile cfg prisoner)) =
        .ok info) :
      Opening cfg pid fileName files
        (afterUse fileName security files, .ok ⟨prisoner, security, info⟩)
  | monitored {prisoner : ℕ} {info : Info} {content : Bytes}
      (hticket : readTicket cfg (files (cstr fileName)) = .ok (prisoner, .monitor))
      (hinfo : infoOrThrow (afterUse fileName .monitor files (processConfigFile cfg prisoner)) =
        .ok info)
      (hpid : info.monitorPid = 0)
      (hwrite : writeInfo (afterUse fileName .monitor files (processConfigFile cfg prisoner))
        { info with monitorPid := pid } ∅ = some content) :
      Opening cfg pid fileName files
        (Function.update (afterUse fileName .monitor files) (processConfigFile cfg prisoner)
          (some content), .ok ⟨prisoner, .monitor, { info with monitorPid := pid }⟩)

/-- Every call is one of these. -/
theorem run_openTicket (cfg : Configuration) (pid : ℤ) (fileName : Bytes) (files : Files) :
    Opening cfg pid fileName files (Prog.runExcept (openTicket cfg pid fileName) files) := by
  rw [openTicket, Prog.runExcept_bind, run_look]
  dsimp only
  rw [Prog.runExcept_ite]
  split
  · -- there is no such file
    rename_i hnone
    refine .refused _ fun t => ?_
    rw [Option.isNone_iff_eq_none.mp hnone]
    intro h
    cases h
  rw [Prog.runExcept_bind, run_look]
  dsimp only
  rw [Prog.runExcept_bind, Prog.runExcept_ofExcept]
  cases hticket : readTicket cfg (files (cstr fileName)) with
  | error e =>
    refine .refused e fun t => ?_
    rw [hticket]
    intro h
    cases h
  | ok ticket =>
    obtain ⟨prisoner, security⟩ := ticket
    dsimp only
    -- from here on the ticket is used, so that a failure wastes it
    rw [Prog.runExcept_bind, run_useTicket]
    dsimp only
    rw [Prog.runExcept_bind, run_openTask]
    split
    · rename_i files' info hopen
      obtain ⟨rfl, heq⟩ := Prod.mk.inj hopen
      have hinfo : infoOrThrow (afterUse fileName security files (processConfigFile cfg prisoner)) =
          .ok info := by
        split at heq
        · cases heq
        · exact heq
      rw [Prog.runExcept_ite]
      split
      · rename_i hmonitor
        subst hmonitor
        rw [Prog.runExcept_bind]
        rcases run_monitorize cfg pid prisoner (afterUse fileName .monitor files) with
          ⟨e, hfailed, he⟩ | ⟨info', content, hinfo', hpid, hwrite, hrun⟩
        · rw [he]
          exact .wasted e hticket fun info h => ⟨rfl, hfailed info h⟩
        · rw [hrun]
          exact .monitored hticket hinfo' hpid hwrite
      · rename_i hsecurity
        exact .opened hticket hsecurity hinfo
    · rename_i files' e hopen
      obtain ⟨rfl, heq⟩ := Prod.mk.inj hopen
      refine .wasted e hticket fun info hinfo => ?_
      split at heq
      · rename_i hnone
        rw [Option.isNone_iff_eq_none.mp hnone] at hinfo
        cases hinfo
      · rw [heq] at hinfo
        cases hinfo

end Run

end VplJail.Task
