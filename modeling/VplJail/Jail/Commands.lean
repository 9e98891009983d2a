import VplJail.Jail.Upload
import VplJail.Task.OneTime
import VplJail.Task.Operations

/-!
# The commands on a task

A command opens its task with the ticket presented and works on it. Here are those that the Moodle
server sends and those of the browser; the connection of a monitor is in `VplJail.Jail.Monitor`. The
other processes leave the task alone meanwhile.
-/

namespace VplJail.Jail

open CriticalSection Rpc VplJail.Task Util

/-- What the commands work with: the settings, the process, the clock, the library's conversions and
the virtual method `getString`. What runs once a ticket has been accepted, the terminal or VNC session
of `commandExecute` behind `setRunner` and the proxy of `runPassthrough`, is left open. -/
structure Server where
  cfg : Configuration
  pid : ℤ
  env : Env
  lib : FloatLib
  getString : TreeNode → Except Thrown Bytes
  session : ProcessMonitor → World → World × List Bytes × Option Thrown
  runPassthrough : ProcessMonitor → World → World × Except Thrown Unit
  pid_pos : 0 < pid
  pid_lt : pid < 2 ^ 31

/-- What the client gets: an error, the answer to a request, or the messages of a WebSocket with the
exception that ended it. -/
inductive Reply
  | failed (e : Thrown)
  | result (compilation execution : Bytes) (executed interactive : Bool)
  | updated (ok : Bool)
  | running (running : Bool)
  | stopped
  | messages (sent : List Bytes) (e : Option Thrown)
  | access (granted : Bool)

/-- The members of a request that carry files. -/
structure Upload where
  files : Mapstruct
  fileencoding : Mapstruct
  filestodelete : Mapstruct

section Commands

variable (server : Server) (ticket : Bytes) (w : World)

/-- `processMonitor pm(ticket)`: the task of the ticket is opened. -/
def construct : World × Except Thrown ProcessMonitor :=
  let (files, pm) := Prog.runExcept (ofTicket server.cfg server.pid ticket) w.files
  ({ w with files := files }, pm)

/-- `commandGetResult`: the outputs of a task, for its administrator. -/
def commandGetResult : World × Reply :=
  match construct server ticket w with
  | (w, .error e) => (w, .failed e)
  | (w, .ok pm) =>
    match getResult server.cfg pm w with
    | (w, .error e) => (w, .failed e)
    | (w, .ok (compilation, execution, executed)) =>
        (w, .result compilation execution executed pm.info.interactive)

/-- `checkFilesNameCorrectness`: an incorrect name of a file refuses the request. -/
def checkFilesNameCorrectness (files : Mapstruct) : Except Thrown Unit :=
  if files.keys.all correctPath then pure ()
  else throw (.http badRequestCode "Incorrect file name")

/-- The files of the request saved, and those marked deleted. Without a home the child process
fails. -/
def update (upload : Upload) (uid : ℕ) : World × Bool :=
  match w.homes uid with
  | none => (w, decide (upload.files.toList = []))
  | some home =>
    match saveParseFiles server.lib server.getString (homePath server.cfg uid) upload.files
        upload.fileencoding home with
    | (home, .error _) => ({ w with homes := Function.update w.homes uid (some home) }, false)
    | (home, .ok ()) =>
        let home := deleteFilesMarkedForDeletion (homePath server.cfg uid) upload.files
          upload.filestodelete home
        ({ w with homes := Function.update w.homes uid (some home) }, true)

/-- `commandUpdate`: files of a running task are written and deleted. -/
def commandUpdate (upload : Upload) : World × Reply :=
  match checkFilesNameCorrectness upload.files with
  | .error e => (w, .failed e)
  | .ok () =>
    match construct server ticket w with
    | (w, .error e) => (w, .failed e)
    | (w, .ok pm) =>
      match update server w upload pm.prisoner with
      | (w, ok) => (w, .updated ok)

/-- `commandRunning`: whether the task still runs. -/
def commandRunning : World × Reply :=
  match construct server ticket w with
  | (w, .error _) => (w, .running false)
  | (w, .ok pm) =>
    match getState server.cfg server.env pm w with
    | (w, .error _) => (w, .running false)
    | (w, .ok (pm, state)) =>
        if state = .stopped then (cleanTask server.cfg server.env pm w, .running false)
        else (w, .running true)

/-- `commandStop`, with the child process that it leaves behind. -/
def commandStop : World × Reply :=
  match construct server ticket w with
  | (w, .error _) => (w, .stopped)
  | (w, .ok pm) => (cleanTask server.cfg server.env pm w, .stopped)

/-- The loop in which `commandExecute` waits for the compilation, up to `waitLimit`. It tests the
clock `env` and asks again with the next of `envs`, or has asked often enough. -/
def awaitCompilation (cfg : Configuration) (waitLimit : ℤ) :
    Env → List Env → ProcessMonitor → ProcessState → World →
      World × Except Thrown (ProcessMonitor × ProcessState)
  | _, [], pm, state, w => (w, pure (pm, state))
  | env, env' :: envs, pm, state, w =>
    if (state = .starting ∨ state = .compiling) ∧ env.now < waitLimit then
      match getState cfg env' pm w with
      | (w, .error e) => (w, throw e)
      | (w, .ok (pm, state)) => awaitCompilation cfg waitLimit env' envs pm state w
    else (w, pure (pm, state))

/-- `hasActiveMonitor`. A task without its control directory has no configuration, and the processes
that exist are those that run. -/
def hasActiveMonitor (cfg : Configuration) (env : Env) (pm : ProcessMonitor) (w : World) :
    Except Thrown Bool :=
  match w.files (processConfigFile cfg pm.prisoner) with
  | none => pure false
  | some content =>
    match readInfo (some content) with
    | .failed => throw .unreadableConfig
    | .cleaning _ => pure true
    | .ok info =>
        pure (info.hasMonitorTicket && info.monitorPid != 0 && env.running info.monitorPid)

/-- The end of a WebSocket by an exception, where `TaskCleaningException` is caught. -/
def closedBy (sent : List Bytes) : Thrown → Reply
  | .taskCleaning => .messages sent none
  | e => .messages sent (some e)

/-- The part of `commandExecute` behind the wait. -/
def execute (pm : ProcessMonitor) : World × Reply :=
  match setRunner server.cfg server.pid server.env.now pm w with
  | (w, .error e) => (w, closedBy [] e)
  | (w, .ok pm) =>
    match server.session pm w with
    | (w, sent, some e) => (w, closedBy sent e)
    | (w, sent, none) =>
      match hasActiveMonitor server.cfg server.env pm w with
      | .error e => (w, closedBy sent e)
      | .ok true => (w, .messages sent none)
      | .ok false => (cleanTask server.cfg server.env pm w, .messages sent none)

/-- `commandExecute`, which waits with the clocks `envs`. -/
def commandExecute (envs : List Env) : World × Reply :=
  match construct server ticket w with
  | (w, .error e) => (w, closedBy [] e)
  | (w, .ok pm) =>
    if pm.security ≠ .execute then (w, closedBy [] (.text "Internal server error"))
    else
      match getState server.cfg server.env pm w with
      | (w, .error e) => (w, closedBy [] e)
      | (w, .ok (pm, state)) =>
        let waitLimit := server.env.now + pm.info.maxtime + harvestTimeout
        match awaitCompilation server.cfg waitLimit server.env envs pm state w with
        | (w, .error e) => (w, closedBy [] e)
        | (w, .ok (pm, state)) =>
          if state ≠ .beforeRunning then (w, .messages [] none)
          else execute server w pm

/-- `commandSetPassthroughCookie`: a ticket of the browser becomes a cookie. -/
def commandSetPassthroughCookie : World × Reply :=
  match construct server ticket w with
  | (w, .error _) => (w, .access false)
  | (w, .ok pm) =>
    match getState server.cfg server.env pm w with
    | (w, .error _) => (w, .access false)
    | (w, .ok (pm, state)) =>
        (w, .access (decide (state = .running) && decide (pm.security = .httppassthrough)))

/-- `httpPassthrough`: the connection goes on with the local web server of the task. -/
def httpPassthrough : World × Reply :=
  match construct server ticket w with
  | (w, .error _) => (w, .access false)
  | (w, .ok pm) =>
    match getState server.cfg server.env pm w with
    | (w, .error _) => (w, .access false)
    | (w, .ok (pm, state)) =>
      if state ≠ .running then (w, .access false)
      else if pm.security ≠ .httppassthrough then (w, .access false)
      else
        match server.runPassthrough pm w with
        | (w, .error _) => (w, .access false)
        | (w, .ok ()) => (w, .access true)

end Commands

end VplJail.Jail
