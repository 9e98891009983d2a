import VplJail.Jail.Monitor

/-!
# Tickets presented to the wrong command

Each command is for the tickets of one level. With a ticket of another level it should change nothing
of the task and tell nothing about it. But the constructor uses up a one-time ticket and registers a
monitor before the level is known, and only `getresult`, `execute` and the passthrough look at the
level at all. `refuses_iff` says when a command does leave the task alone.
-/

namespace VplJail.Jail

open CriticalSection ConfigurationFile Rpc VplJail.Task Util

/-- The commands on a task, with what they are given beside the ticket: the files of an update, what
the loop of a monitor meets, and the clocks with which an execution waits. -/
inductive Command
  | getresult
  | running
  | stop
  | update (upload : Upload)
  | monitor (ticks : List Tick)
  | execute (envs : List Env)
  | setPassthroughCookie
  | httpPassthrough

/-- The level of the tickets that a command is for. -/
def Command.level : Command → SecurityLevel
  | getresult | running | stop | update _ => .admin
  | monitor _ => .monitor
  | execute _ => .execute
  | setPassthroughCookie | httpPassthrough => .httppassthrough

/-- A command with the ticket presented. -/
def Command.run (server : Server) (ticket : Bytes) (w : World) : Command → World × Reply
  | getresult => commandGetResult server ticket w
  | running => commandRunning server ticket w
  | stop => commandStop server ticket w
  | update upload => commandUpdate server ticket w upload
  | monitor ticks => commandMonitor server ticket ticks w
  | execute envs => commandExecute server ticket w envs
  | setPassthroughCookie => commandSetPassthroughCookie server ticket w
  | httpPassthrough => Jail.httpPassthrough server ticket w

/-- The client learns something about the task. -/
def Reply.HasTaskData : Reply → Prop
  | .failed _ => False
  | .result _ _ _ _ => True
  | .updated _ => False
  | .running answer => answer = true
  | .stopped => False
  | .messages sent _ => sent ≠ []
  | .access granted => granted = true

/-- The command changes nothing and tells nothing. -/
def Refuses (server : Server) (ticket : Bytes) (w : World) (command : Command) : Prop :=
  (command.run server ticket w).1 = w ∧ ¬ (command.run server ticket w).2.HasTaskData

/-- The string presented names a ticket of the prisoner with the given level. -/
structure Presents (cfg : Configuration) (files : Files) (ticket : Bytes) (uid : ℕ)
    (level : SecurityLevel) : Prop where
  format : hasTicketFormat (trimAndRemoveQuotes ticket) = true
  ticket : readTicket cfg (files (cstr (presentedPath cfg ticket))) = .ok (uid, level)

/-- The constructor neither removes the ticket nor registers a monitor. -/
def Untouched (cfg : Configuration) (files : Files) (ticket : Bytes) (uid : ℕ)
    (level : SecurityLevel) : Prop :=
  (level.IsOneTime → correctPath (presentedPath cfg ticket) = false) ∧
    (level = .monitor → Monitored cfg files uid)

/-- The constructor opens the task, which is not for a monitor. -/
def Opens (cfg : Configuration) (files : Files) (uid : ℕ) (level : SecurityLevel) (info : Info) :
    Prop :=
  level ≠ .monitor ∧ readInfo (files (processConfigFile cfg uid)) = .ok info

/-- The upload that comes first by its name is not written, if there is one. -/
def FirstRefused (server : Server) (upload : Upload) (uid : ℕ) (home : Home) : Prop :=
  ∀ file ∈ upload.files.toList.head?,
    Unwritable server.lib server.getString (homePath server.cfg uid) upload.fileencoding home file

/-- What the command must find in a task that it opens with a ticket of another level. -/
def Command.Spares (server : Server) (w : World) (uid : ℕ) (info : Info) : Command → Prop
  | getresult | execute _ => True
  | running | stop => False
  | update upload => ∀ home ∈ w.homes uid, FirstRefused server upload uid home
  | monitor [] => True
  | monitor (tick :: _) =>
      stateOf server.cfg tick.env uid info w = some .beforeRunning ∧
        ∀ name ∈ [vplExecution, vplWebexecution, vplWexecution], w.fileExists uid name = false
  | setPassthroughCookie | httpPassthrough => stateOf server.cfg server.env uid info w ≠ none

/-- The request is refused before its ticket is looked at. -/
def Command.Rejected : Command → Prop
  | update upload => upload.files.keys.all correctPath = false
  | _ => False

/-! ## The constructor -/

section Construct

variable {server : Server} {cfg : Configuration} {ticket : Bytes} {w : World} {files files' : Files}
  {uid : ℕ} {level : SecurityLevel}

/-- A ticket is gone or a monitor is registered. -/
def Touched (cfg : Configuration) (path : Bytes) (uid : ℕ) (files files' : Files) : Prop :=
  files path ≠ none ∧ files' path = none ∨
    ¬ Monitored cfg files uid ∧ Monitored cfg files' uid

theorem Touched.ne {path : Bytes} (h : Touched cfg path uid files files') : files' ≠ files := by
  rintro rfl
  rcases h with ⟨hsome, hnone⟩ | ⟨hnot, hmonitored⟩
  · exact hsome hnone
  · exact hnot hmonitored

/-- A task that cannot be opened needs no monitor. -/
theorem monitored_of_unopenable (h : Unopenable cfg uid files) : Monitored cfg files uid :=
  fun info hinfo => absurd hinfo (h info)

/-- The end of the task does not undo it. -/
theorem Touched.cleanTask {path : Bytes} {env : Env} {pm : ProcessMonitor}
    (h : Touched cfg path uid files w.files) (hpath : path ≠ processConfigFile cfg pm.prisoner)
    (huid : pm.prisoner = uid) : Touched cfg path uid files (cleanTask cfg env pm w).files := by
  rcases h with ⟨hsome, hnone⟩ | ⟨hnot, -⟩
  · exact .inl ⟨hsome, cleanTask_eq_none hpath hnone⟩
  · refine .inr ⟨hnot, ?_⟩
    rw [← huid]
    exact monitored_of_unopenable (unopenable_cleanTask cfg env pm w)

/-- `getState` does not undo it. -/
theorem Touched.getState {path : Bytes} {pm : ProcessMonitor}
    (h : Touched cfg path uid files w.files) (env : Env)
    (hpath : path ≠ processConfigFile cfg pm.prisoner) (huid : pm.prisoner = uid) :
    Touched cfg path uid files (getState cfg env pm w).1.files := by
  rcases getState_world cfg env pm w with heq | ⟨info, heq⟩
  · rw [heq]
    exact h
  · rw [heq]
    exact h.cleanTask hpath huid

/-- What the constructor does with a ticket: it is refused and nothing happens, it opens the task and
nothing else happens, or the files are touched. -/
inductive Constructed (server : Server) (ticket : Bytes) (w : World) (uid : ℕ)
    (level : SecurityLevel) : World × Except Thrown ProcessMonitor → Prop
  | refused (e : Thrown) (huntouched : Untouched server.cfg w.files ticket uid level)
      (hnone : ∀ info, ¬ Opens server.cfg w.files uid level info) :
      Constructed server ticket w uid level (w, .error e)
  | opened {info : Info} (huntouched : Untouched server.cfg w.files ticket uid level)
      (hopens : Opens server.cfg w.files uid level info) :
      Constructed server ticket w uid level (w, .ok ⟨uid, level, info⟩)
  | touched {w' : World} {r : Except Thrown ProcessMonitor}
      (huntouched : ¬ Untouched server.cfg w.files ticket uid level)
      (htouched : Touched server.cfg (cstr (presentedPath server.cfg ticket)) uid w.files w'.files)
      (hpm : ∀ pm, r = .ok pm → pm.prisoner = uid ∧ pm.security = level) :
      Constructed server ticket w uid level (w', r)

/-- The configuration of a task is not removed with its ticket. -/
theorem config_afterUse (hformat : hasTicketFormat (trimAndRemoveQuotes ticket) = true) :
    afterUse (presentedPath cfg ticket) level files (processConfigFile cfg uid) =
      files (processConfigFile cfg uid) :=
  afterUse_of_ne level (ticketPath_ne_processConfigFile hformat uid)

/-- A ticket is used up, or the files stay as they are. -/
theorem afterUse_touched (cfg : Configuration) (files : Files) (ticket : Bytes)
    (level : SecurityLevel) :
    (level.IsOneTime → correctPath (presentedPath cfg ticket) = false) ∧
        afterUse (presentedPath cfg ticket) level files = files ∨
      ¬ (level.IsOneTime → correctPath (presentedPath cfg ticket) = false) ∧
        afterUse (presentedPath cfg ticket) level files (cstr (presentedPath cfg ticket)) = none := by
  by_cases honce : level.IsOneTime
  · by_cases hpath : correctPath (presentedPath cfg ticket) = true
    · refine .inr ⟨fun h => ?_, afterUse_self honce hpath files⟩
      rw [h honce] at hpath
      cases hpath
    · refine .inl ⟨fun _ => Bool.eq_false_of_not_eq_true hpath, ?_⟩
      rw [afterUse, if_pos honce, deletePath, if_neg hpath]
  · refine .inl ⟨fun h => absurd h honce, ?_⟩
    rw [afterUse, if_neg honce]

/-- A task that can be read can be written. -/
theorem writeInfo_ne_none {config : Option Bytes} {info : Info} (h : readInfo config = .ok info)
    (info' : Info) : writeInfo config info' ∅ ≠ none := by
  obtain ⟨content, data, rfl, hdata, -⟩ := readTask_of_readInfo h
  rw [writeInfo, hdata]
  exact Option.some_ne_none _

theorem infoOrThrow_of_readInfo {config : Option Bytes} {info : Info}
    (h : readInfo config = .ok info) : infoOrThrow config = .ok info := by
  rw [infoOrThrow, h]
  rfl

/-- The constructor is one of these. -/
theorem constructed (h : Presents server.cfg w.files ticket uid level) :
    Constructed server ticket w uid level (construct server ticket w) := by
  let path := cstr (presentedPath server.cfg ticket)
  have hsome : w.files path ≠ none := by
    intro hnone
    have hticket := h.ticket
    rw [hnone, readTicket_none] at hticket
    cases hticket
  have hpath : path ≠ processConfigFile server.cfg uid :=
    ticketPath_ne_processConfigFile h.format uid
  have hconfig : afterUse (presentedPath server.cfg ticket) level w.files
      (processConfigFile server.cfg uid) = w.files (processConfigFile server.cfg uid) :=
    config_afterUse h.format
  have hafter := afterUse_touched server.cfg w.files ticket level
  have hrun : construct server ticket w =
      ({ w with files := (Prog.runExcept
          (openTicket server.cfg server.pid (presentedPath server.cfg ticket)) w.files).1 },
        (Prog.runExcept
          (openTicket server.cfg server.pid (presentedPath server.cfg ticket)) w.files).2) := by
    rw [construct, ofTicket, if_pos h.format]
    rfl
  have hopening := run_openTicket server.cfg server.pid (presentedPath server.cfg ticket) w.files
  rw [hrun]
  generalize Prog.runExcept (openTicket server.cfg server.pid (presentedPath server.cfg ticket))
    w.files = out at hopening
  cases hopening with
  | refused e hticket => exact absurd h.ticket (hticket _)
  -- a ticket that is used up is gone, whatever the constructor does behind
  | @wasted e prisoner security hticket hfailed =>
    obtain ⟨rfl, rfl⟩ := Prod.mk.inj (Except.ok.inj (h.ticket.symm.trans hticket))
    rw [hconfig] at hfailed
    rcases hafter with ⟨honce, heq⟩ | ⟨honce, hnone⟩
    · rw [heq]
      refine .refused e ⟨honce, ?_⟩ ?_
      · rintro - info hinfo
        rcases (hfailed info (infoOrThrow_of_readInfo hinfo)).2 with hpid | hwrite
        · exact hpid
        · exact absurd hwrite (writeInfo_ne_none hinfo _)
      · rintro info ⟨hlevel, hinfo⟩
        exact hlevel (hfailed info (infoOrThrow_of_readInfo hinfo)).1
    · refine .touched (fun hun => honce hun.1) (.inl ⟨hsome, hnone⟩) ?_
      intro pm hpm
      cases hpm
  | @opened prisoner security info hticket hsecurity hinfo =>
    obtain ⟨rfl, rfl⟩ := Prod.mk.inj (Except.ok.inj (h.ticket.symm.trans hticket))
    rw [hconfig] at hinfo
    rcases hafter with ⟨honce, heq⟩ | ⟨honce, hnone⟩
    · rw [heq]
      exact .opened ⟨honce, fun hmonitor => absurd hmonitor hsecurity⟩
        ⟨hsecurity, infoOrThrow_eq_ok hinfo⟩
    · refine .touched (fun hun => honce hun.1) (.inl ⟨hsome, hnone⟩) ?_
      rintro pm ⟨⟩
      exact ⟨rfl, rfl⟩
  | @monitored prisoner info content hticket hinfo hpid hwrite =>
    obtain ⟨rfl, rfl⟩ := Prod.mk.inj (Except.ok.inj (h.ticket.symm.trans hticket))
    rw [hconfig] at hinfo hwrite
    have hread := infoOrThrow_eq_ok hinfo
    -- the task has been given a monitor that it did not have
    have hnot : ¬ Monitored server.cfg w.files uid := fun hmonitored => hmonitored info hread hpid
    refine .touched (fun hun => hnot (hun.2 rfl)) (.inr ⟨hnot, ?_⟩) ?_
    · intro info' hinfo'
      dsimp only at hinfo'
      rw [Function.update_self] at hinfo'
      rw [monitorPid_of_writeInfo hread server.pid_pos server.pid_lt hwrite hinfo']
      exact server.pid_pos.ne'
    · rintro pm ⟨⟩
      exact ⟨rfl, rfl⟩

end Construct

/-! ## The commands -/

section Commands

variable {server : Server} {ticket : Bytes} {w : World} {uid : ℕ} {level : SecurityLevel}
  {info : Info}

/-- Nothing sent is no data. -/
theorem not_hasTaskData_closedBy (e : Thrown) : ¬ (closedBy [] e).HasTaskData := by
  intro h
  cases e <;> exact h rfl

/-- Messages sent are data. -/
theorem hasTaskData_of_sent {reply : Reply} (h : reply.sent ≠ []) : reply.HasTaskData := by
  cases reply with
  | messages sent e => exact h
  | _ => exact absurd rfl h

/-- Names that are refused are refused before the ticket is looked at. -/
theorem commandUpdate_of_rejected {upload : Upload}
    (h : upload.files.keys.all correctPath = false) : commandUpdate server ticket w upload =
      (w, .failed (.http badRequestCode "Incorrect file name")) := by
  rw [commandUpdate, checkFilesNameCorrectness, h]
  rfl

/-- Names that are accepted leave the rest to the ticket. -/
theorem commandUpdate_of_accepted {upload : Upload}
    (h : upload.files.keys.all correctPath = true) : commandUpdate server ticket w upload =
      match construct server ticket w with
      | (w, .error e) => (w, .failed e)
      | (w, .ok pm) => ((update server w upload pm.prisoner).1,
          .updated (update server w upload pm.prisoner).2) := by
  rw [commandUpdate, checkFilesNameCorrectness, h, if_pos rfl]
  cases construct server ticket w with
  | mk w' r => cases r <;> rfl

/-- The names of an update that is not rejected are accepted. -/
theorem accepted_of_not_rejected {upload : Upload} (h : ¬ (Command.update upload).Rejected) :
    upload.files.keys.all correctPath = true :=
  Bool.eq_true_of_not_eq_false h

/-- A command is refused when its ticket is. -/
theorem refuses_of_error {command : Command} (hrejected : ¬ command.Rejected) {e : Thrown}
    (h : construct server ticket w = (w, .error e)) : Refuses server ticket w command := by
  rw [Refuses]
  cases command with
  | getresult =>
    rw [Command.run, commandGetResult, h]
    exact ⟨rfl, id⟩
  | running =>
    rw [Command.run, commandRunning, h]
    exact ⟨rfl, nofun⟩
  | stop =>
    rw [Command.run, commandStop, h]
    exact ⟨rfl, id⟩
  | update upload =>
    rw [Command.run, commandUpdate_of_accepted (accepted_of_not_rejected hrejected), h]
    exact ⟨rfl, id⟩
  | monitor ticks =>
    rw [Command.run, commandMonitor, h]
    exact ⟨rfl, not_hasTaskData_closedBy e⟩
  | execute envs =>
    rw [Command.run, commandExecute, h]
    exact ⟨rfl, not_hasTaskData_closedBy e⟩
  | setPassthroughCookie =>
    rw [Command.run, commandSetPassthroughCookie, h]
    exact ⟨rfl, nofun⟩
  | httpPassthrough =>
    rw [Command.run, Jail.httpPassthrough, h]
    exact ⟨rfl, nofun⟩

section Opened

variable {w' : World} {pm : ProcessMonitor} (h : construct server ticket w = (w', .ok pm))

include h

theorem commandGetResult_of_ne (hsecurity : pm.security ≠ .admin) :
    commandGetResult server ticket w = (w', .failed (.http internalServerErrorCode
      "Security: required admin ticket for request")) := by
  rw [commandGetResult, h]
  dsimp only
  rw [getResult_of_ne hsecurity]
  rfl

theorem commandExecute_of_ne (hsecurity : pm.security ≠ .execute) (envs : List Env) :
    commandExecute server ticket w envs =
      (w', .messages [] (some (.text "Internal server error"))) := by
  rw [commandExecute, h]
  dsimp only
  rw [if_pos hsecurity]
  rfl

theorem commandSetPassthroughCookie_of_ne (hsecurity : pm.security ≠ .httppassthrough) :
    commandSetPassthroughCookie server ticket w =
      ((getState server.cfg server.env pm w').1, .access false) := by
  rw [commandSetPassthroughCookie, h]
  dsimp only
  split
  · rename_i heq
    rw [heq]
  · rename_i w₁ pm' state heq
    rw [heq, (getState_eq_ok heq).2.1, decide_eq_false hsecurity, Bool.and_false]

theorem httpPassthrough_of_ne (hsecurity : pm.security ≠ .httppassthrough) :
    httpPassthrough server ticket w =
      ((getState server.cfg server.env pm w').1, .access false) := by
  rw [httpPassthrough, h]
  dsimp only
  split
  · rename_i heq
    rw [heq]
  · rename_i w₁ pm' state heq
    rw [heq, (getState_eq_ok heq).2.1, if_pos hsecurity, ite_self]

theorem commandStop_of_ok : commandStop server ticket w =
    (cleanTask server.cfg server.env pm w', .stopped) := by
  rw [commandStop, h]

/-- A task that does not run is ended. -/
theorem commandRunning_cases :
    (commandRunning server ticket w).2 = .running true ∨
      (∃ e, (getState server.cfg server.env pm w').2 = .error e ∧
        (commandRunning server ticket w).1 = (getState server.cfg server.env pm w').1) ∨
      ∃ pm', pm'.prisoner = pm.prisoner ∧ (commandRunning server ticket w).1 =
        cleanTask server.cfg server.env pm' (getState server.cfg server.env pm w').1 := by
  rw [commandRunning, h]
  dsimp only
  split
  · rename_i heq
    rw [heq]
    exact .inr (.inl ⟨_, rfl, rfl⟩)
  · rename_i w₁ pm' state heq
    rw [heq]
    split
    · exact .inr (.inr ⟨pm', (getState_eq_ok heq).1, rfl⟩)
    · exact .inl rfl

end Opened

/-- Files that are touched stay so in every command that is not for the ticket. -/
theorem not_refuses_of_touched {command : Command} (hrejected : ¬ command.Rejected)
    (hlevel : level ≠ command.level) (hpresents : Presents server.cfg w.files ticket uid level)
    {w' : World} {r : Except Thrown ProcessMonitor}
    (h : construct server ticket w = (w', r))
    (htouched : Touched server.cfg (cstr (presentedPath server.cfg ticket)) uid w.files w'.files)
    (hpm : ∀ pm, r = .ok pm → pm.prisoner = uid ∧ pm.security = level) :
    ¬ Refuses server ticket w command := by
  have hpath : cstr (presentedPath server.cfg ticket) ≠ processConfigFile server.cfg uid :=
    ticketPath_ne_processConfigFile hpresents.format uid
  -- not to refuse is to leave a trace of the task, or to answer with its data
  suffices htold : Touched server.cfg (cstr (presentedPath server.cfg ticket)) uid w.files
      (command.run server ticket w).1.files ∨ (command.run server ticket w).2.HasTaskData by
    rintro ⟨hsame, hdata⟩
    rcases htold with htouched | htold
    · exact htouched.ne (by rw [hsame])
    · exact hdata htold
  cases r with
  | error e =>
    -- the constructor has touched the files, and the command ends with its exception
    refine .inl ?_
    cases command with
    | getresult => rwa [Command.run, commandGetResult, h]
    | running => rwa [Command.run, commandRunning, h]
    | stop => rwa [Command.run, commandStop, h]
    | update upload =>
      rwa [Command.run, commandUpdate_of_accepted (accepted_of_not_rejected hrejected), h]
    | monitor ticks => rwa [Command.run, commandMonitor, h]
    | execute envs => rwa [Command.run, commandExecute, h]
    | setPassthroughCookie => rwa [Command.run, commandSetPassthroughCookie, h]
    | httpPassthrough => rwa [Command.run, Jail.httpPassthrough, h]
  | ok pm =>
    obtain ⟨rfl, rfl⟩ := hpm pm rfl
    cases command with
    | getresult =>
      rw [Command.run, commandGetResult_of_ne h hlevel]
      exact .inl htouched
    | running =>
      rcases commandRunning_cases h with hdata | ⟨e, -, heq⟩ | ⟨pm', hsame, heq⟩
      · refine .inr ?_
        rw [Command.run, hdata]
        rfl
      · refine .inl ?_
        rw [Command.run, heq]
        exact htouched.getState _ hpath rfl
      · refine .inl ?_
        rw [Command.run, heq]
        exact (htouched.getState _ hpath rfl).cleanTask (hsame ▸ hpath) hsame
    | stop =>
      rw [Command.run, commandStop_of_ok h]
      exact .inl (htouched.cleanTask hpath rfl)
    | update upload =>
      refine .inl ?_
      -- the child process has a state of its own
      have hfiles : (update server w' upload pm.prisoner).1.files = w'.files := by
        rw [update]
        split
        · rfl
        · split <;> rfl
      rwa [Command.run, commandUpdate_of_accepted (accepted_of_not_rejected hrejected), h, hfiles]
    | monitor ticks =>
      have hrun : (Command.monitor ticks).run server ticket w =
          (MonitorLoop.start pm w').run server.cfg ticks := by
        rw [Command.run, commandMonitor, h]
      rw [hrun]
      cases ticks with
      | nil => exact .inl htouched
      | cons tick ticks =>
        rcases MonitorLoop.run_cons_cases server.cfg tick ticks pm w' hlevel with
          ⟨w₁, e, hstate, heq⟩ | ⟨w₁, pm', state, hstate, ⟨-, -, e, heq⟩ | ⟨-, hsent⟩⟩
        · have hstay := htouched.getState tick.env hpath rfl
          rw [hstate] at hstay
          rw [heq]
          exact .inl hstay
        · have hstay := htouched.getState tick.env hpath rfl
          rw [hstate] at hstay
          rw [heq]
          exact .inl hstay
        · exact .inr (hasTaskData_of_sent hsent)
    | execute envs =>
      rw [Command.run, commandExecute_of_ne h hlevel]
      exact .inl htouched
    | setPassthroughCookie =>
      rw [Command.run, commandSetPassthroughCookie_of_ne h hlevel]
      exact .inl (htouched.getState _ hpath rfl)
    | httpPassthrough =>
      rw [Command.run, httpPassthrough_of_ne h hlevel]
      exact .inl (htouched.getState _ hpath rfl)

/-- An update leaves a home alone exactly when it does not write its first file. -/
theorem update_eq_iff (upload : Upload) : (update server w upload uid).1 = w ↔
    ∀ home ∈ w.homes uid, FirstRefused server upload uid home := by
  rw [update]
  cases hhome : w.homes uid with
  | none => simp
  | some home =>
    have hsame : ({ w with homes := Function.update w.homes uid (some home) } : World) = w := by
      rw [← hhome, Function.update_eq_self]
    have hother {home' : Home} (h : home.touched.length < home'.touched.length) :
        ({ w with homes := Function.update w.homes uid (some home') } : World) ≠ w := by
      intro heq
      have hhomes : (Function.update w.homes uid (some home')) uid = w.homes uid :=
        congrFun (congrArg World.homes heq) uid
      rw [Function.update_self, hhome] at hhomes
      obtain rfl := Option.some.inj hhomes
      exact Nat.lt_irrefl _ h
    simp only [Option.mem_some_iff, forall_eq', FirstRefused]
    cases hfiles : upload.files.toList with
    | nil =>
      refine iff_of_true ?_ nofun
      rw [saveParseFiles_of_nil hfiles]
      dsimp only
      rw [deleteFilesMarkedForDeletion_of_nil hfiles]
      exact hsame
    | cons file files =>
      simp only [List.head?_cons, Option.mem_some_iff, forall_eq']
      rcases saveParseFiles_of_cons server.lib hfiles home with ⟨hno, e, heq⟩ | ⟨hyes, htouched⟩
      · refine iff_of_true ?_ hno
        rw [heq]
        exact hsame
      · refine iff_of_false ?_ hyes
        split
        · rename_i heq
          rw [heq] at htouched
          exact hother htouched
        · rename_i heq
          rw [heq] at htouched
          exact hother (htouched.trans_le
            (length_touched_deleteFilesMarkedForDeletion_le _ _ _))

/-- `getState` leaves a task that is opened exactly when it has a state. -/
theorem getState_eq_iff (env : Env) (pm : ProcessMonitor)
    (h : readInfo (w.files (processConfigFile server.cfg pm.prisoner)) = .ok info) :
    (getState server.cfg env pm w).1 = w ↔ stateOf server.cfg env pm.prisoner info w ≠ none := by
  rw [getState_of_readInfo _ _ h]
  cases stateOf server.cfg env pm.prisoner info w with
  | none =>
    refine iff_of_false ?_ fun hne => hne rfl
    exact cleanTask_ne env h
  | some state => exact iff_of_true rfl (Option.some_ne_none state)

/-- What the loop of a monitor makes of a task that is opened with a ticket of another level. -/
theorem monitor_spares_iff {tick : Tick} (ticks : List Tick) (hlevel : level ≠ .monitor)
    (hread : readInfo (w.files (processConfigFile server.cfg uid)) = .ok info) :
    ((MonitorLoop.start ⟨uid, level, info⟩ w).run server.cfg (tick :: ticks)).1 = w ∧
        ¬ ((MonitorLoop.start ⟨uid, level, info⟩ w).run server.cfg (tick :: ticks)).2.HasTaskData ↔
      (Command.monitor (tick :: ticks)).Spares server w uid info := by
  have htold (out : World × Reply) (hsent : out.2.sent ≠ []) :
      ¬ (out.1 = w ∧ ¬ out.2.HasTaskData) :=
    fun hrefuses => hrefuses.2 (hasTaskData_of_sent hsent)
  have hfound := getState_of_readInfo tick.env ⟨uid, level, info⟩ hread
  rw [Command.Spares]
  rcases MonitorLoop.run_cons_cases server.cfg tick ticks ⟨uid, level, info⟩ w hlevel with
    ⟨w', e, heq, -⟩ | ⟨w', pm', state, heq, hcases⟩
  · rw [heq] at hfound
    split at hfound <;> cases hfound
  · rw [heq] at hfound
    cases hstate : stateOf server.cfg tick.env uid info w with
    | none =>
      dsimp only at hfound
      rw [hstate] at hfound
      obtain ⟨-, hok⟩ := Prod.mk.inj hfound
      obtain ⟨-, rfl⟩ := Prod.mk.inj (Except.ok.inj hok)
      rcases hcases with ⟨hbefore, -⟩ | ⟨-, hsent⟩
      · cases hbefore
      · exact iff_of_false (htold _ hsent) nofun
    | some s =>
      dsimp only at hfound
      rw [hstate] at hfound
      obtain ⟨rfl, hok⟩ := Prod.mk.inj hfound
      obtain ⟨rfl, rfl⟩ := Prod.mk.inj (Except.ok.inj hok)
      rw [Option.some_inj]
      rcases hcases with ⟨hbefore, hno, e, hend⟩ | ⟨hnot, hsent⟩
      · refine iff_of_true ?_ ⟨hbefore, hno⟩
        rw [hend]
        exact ⟨rfl, not_hasTaskData_closedBy e⟩
      · exact iff_of_false (htold _ hsent) hnot

/-- What a command makes of a task that it opens with a ticket of another level. -/
theorem refuses_iff_spares {command : Command} (hrejected : ¬ command.Rejected)
    (hlevel : level ≠ command.level) (hopens : Opens server.cfg w.files uid level info)
    (h : construct server ticket w = (w, .ok ⟨uid, level, info⟩)) :
    Refuses server ticket w command ↔ command.Spares server w uid info := by
  have hread := hopens.2
  -- the task opens in `w` and does not after a clean-up
  have hclean {pm : ProcessMonitor} (hpm : pm.prisoner = uid) (env : Env) (w' : World) :
      cleanTask server.cfg env pm w' ≠ w := by
    intro heq
    have hun := unopenable_cleanTask server.cfg env pm w'
    rw [heq, hpm] at hun
    exact hun info hread
  have hstate (env : Env) : (getState server.cfg env ⟨uid, level, info⟩ w).1 = w ↔
      stateOf server.cfg env uid info w ≠ none :=
    getState_eq_iff env ⟨uid, level, info⟩ hread
  rw [Refuses]
  cases command with
  | getresult =>
    rw [Command.run, commandGetResult_of_ne h hlevel]
    exact iff_of_true ⟨rfl, id⟩ trivial
  | running =>
    refine iff_of_false ?_ id
    rintro ⟨hsame, hdata⟩
    rw [Command.run] at hsame hdata
    rcases commandRunning_cases h with hanswer | ⟨e, he, -⟩ | ⟨pm', hpm, heq⟩
    · rw [hanswer] at hdata
      exact hdata rfl
    · rw [getState_of_readInfo _ ⟨uid, level, info⟩ hread] at he
      split at he <;> cases he
    · exact hclean hpm _ _ (heq.symm.trans hsame)
  | stop =>
    refine iff_of_false ?_ id
    rw [Command.run, commandStop_of_ok h]
    exact fun hsame => hclean rfl _ _ hsame.1
  | update upload =>
    rw [Command.run, commandUpdate_of_accepted (accepted_of_not_rejected hrejected), h]
    exact (and_iff_left id).trans (update_eq_iff upload)
  | monitor ticks =>
    have hrun : (Command.monitor ticks).run server ticket w =
        (MonitorLoop.start ⟨uid, level, info⟩ w).run server.cfg ticks := by
      rw [Command.run, commandMonitor, h]
    rw [hrun]
    cases ticks with
    | nil => exact iff_of_true ⟨rfl, fun hdata => hdata rfl⟩ trivial
    | cons tick ticks => exact monitor_spares_iff ticks hlevel hread
  | execute envs =>
    rw [Command.run, commandExecute_of_ne h hlevel]
    exact iff_of_true ⟨rfl, fun hdata => hdata rfl⟩ trivial
  | setPassthroughCookie =>
    rw [Command.run, commandSetPassthroughCookie_of_ne h hlevel]
    exact (and_iff_left nofun).trans (hstate _)
  | httpPassthrough =>
    rw [Command.run, httpPassthrough_of_ne h hlevel]
    exact (and_iff_left nofun).trans (hstate _)

end Commands

/-- With a ticket of another level a command changes nothing of the task and tells nothing about it
exactly when it is rejected for a file name, or when the constructor leaves the ticket and the monitor
alone and the command spares the task if it is opened. -/
theorem refuses_iff {server : Server} {ticket : Bytes} {w : World} {uid : ℕ} {level : SecurityLevel}
    {command : Command} (hpresents : Presents server.cfg w.files ticket uid level)
    (hlevel : level ≠ command.level) :
    Refuses server ticket w command ↔
      command.Rejected ∨ Untouched server.cfg w.files ticket uid level ∧
        ∀ info, Opens server.cfg w.files uid level info → command.Spares server w uid info := by
  by_cases hrejected : command.Rejected
  · refine iff_of_true ?_ (.inl hrejected)
    cases command with
    | update upload =>
      rw [Refuses, Command.run, commandUpdate_of_rejected hrejected]
      exact ⟨rfl, id⟩
    | _ => exact hrejected.elim
  rw [or_iff_right hrejected]
  have hconstructed := constructed hpresents
  generalize hout : construct server ticket w = out at hconstructed
  cases hconstructed with
  | refused e huntouched hnone =>
    exact iff_of_true (refuses_of_error hrejected hout)
      ⟨huntouched, fun info hopens => absurd hopens (hnone info)⟩
  | @opened info huntouched hopens =>
    rw [refuses_iff_spares hrejected hlevel hopens hout, and_iff_right huntouched]
    refine ⟨fun hspares info' hopens' => ?_, fun h => h info hopens⟩
    obtain rfl := ReadInfo.ok.inj (hopens.2.symm.trans hopens'.2)
    exact hspares
  | touched huntouched htouched hpm =>
    exact iff_of_false (not_refuses_of_touched hrejected hlevel hpresents hout htouched hpm)
      fun h => huntouched h.1

/-! ## A task with two tickets -/

/-- A server whose programs end at once. -/
def exampleServer : Server where
  cfg := .default
  pid := 300
  env := ⟨0, fun _ => false, fun _ => false⟩
  lib := .integers
  getString := fun node => pure node.rawContent
  session := fun _ w => (w, [], none)
  runPassthrough := fun _ w => (w, pure ())
  pid_pos := by decide
  pid_lt := by decide

/-- The task of prisoner 10001 with its execution ticket `5` and its admin ticket `6`. -/
def exampleWorld : World where
  files := fun path =>
    if path = ticketPath .default (ascii "6") then
      some (serialize (.ofList [(ascii "USER_ID", ascii "10001"), (ascii "SECURITY", ascii "0")]))
    else exampleFiles path
  homes := fun _ => none
  processes := fun _ => []

/-- The admin ticket does not start an execution. -/
theorem refuses_iff_execute : Refuses exampleServer (ascii "6") exampleWorld (.execute []) := by
  have hpresents : Presents exampleServer.cfg exampleWorld.files (ascii "6") 10001 .admin :=
    ⟨by decide +kernel, by decide +kernel⟩
  refine (refuses_iff hpresents (by decide)).mpr (.inr ⟨⟨?_, nofun⟩, fun _ _ => trivial⟩)
  rintro (h | h) <;> cases h

/-- The execution ticket stops the task. -/
theorem execution_ticket_stops :
    Presents exampleServer.cfg exampleWorld.files (ascii "5") 10001 .execute ∧
      SecurityLevel.execute ≠ Command.stop.level ∧
      ¬ Refuses exampleServer (ascii "5") exampleWorld .stop := by
  refine ⟨⟨by decide +kernel, by decide +kernel⟩, nofun, ?_⟩
  rintro ⟨hsame, -⟩
  have hconfig := congrArg (fun w => (w.files (processConfigFile .default 10001)).isSome) hsame
  exact absurd hconfig (by decide +kernel)

end VplJail.Jail
