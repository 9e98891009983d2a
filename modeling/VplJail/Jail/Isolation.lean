import VplJail.Common.Calls
import VplJail.Configuration.ReadConfigFile
import VplJail.Jail.Limits
import VplJail.Jail.UnmountTree
import VplJail.Task.ProcStatus

/-!
# The isolation of an execution

`executeInJail` takes a new process from the rights of the server to those of a prisoner: control
group, namespaces, terminal, root, private directories, credentials, limits, and last the program.
Everything it does is a call that the kernel answers, and most answers decide how it goes on.
-/

namespace VplJail.Jail.Isolation

open VplJail.Task (ProcEntry)
open Util

/-! ## Calls -/

/-- The flags of `mount`. -/
inductive MountFlag
  | recursive
  | makePrivate
  | bind
  | remount
  | nodev
  | nosuid
  | noexec
  | readOnly
deriving DecidableEq, Repr

/-- What `prctl` is asked for: no new privileges, not dumpable, and no tracer. -/
inductive Prctl
  | noNewPrivs
  | dumpable
  | ptracer
deriving DecidableEq, Repr

/-- The resources of `setrlimit`. -/
inductive Resource
  | core
  | cpu
  | fsize
  | nproc
deriving DecidableEq, Repr

/-- The system calls that succeed or fail. `unshare` is that of the PID, mount and IPC namespaces;
`umount2` may detach the mount. -/
inductive Op
  | unshare
  | mount (source : Option Bytes) (target : Bytes) (fstype : Option Bytes) (flags : List MountFlag)
  | umount2 (target : Bytes) (detach : Bool)
  | prctl (option : Prctl)
  | waitpid (pid : ℤ)
  | loginTty (fd : ℤ)
  | close (fd : ℤ)
  | chdir (path : Bytes)
  | chroot (path : Bytes)
  | pivotRoot (newRoot putOld : Bytes)
  | mkdir (path : Bytes) (mode : ℕ)
  | rmdir (path : Bytes)
  | chmod (path : Bytes) (mode : ℕ)
  | chown (path : Bytes) (uid gid : ℕ)
  | setresgid (gid : ℕ)
  | setresuid (uid : ℕ)
  | setrlimit (resource : Resource) (value : ℕ)
  | setpgid
  | tcsetpgrp
  | execve (path : Bytes) (args env : List Bytes)
deriving DecidableEq, Repr

/-- The members of `Cgroup` for the group of a prisoner. -/
inductive CgroupOp
  | construct
  | removeCgroup
  | createCgroup
  | setMemoryProcs
  | setMemoryLimitInBytes (bytes : ℤ)
deriving DecidableEq, Repr

/-- What is thrown: an `HttpException` with its message and log, a standard exception, a text, or
anything else. -/
inductive Failure
  | http (message : String) (log : Bytes)
  | std (what : String)
  | text (message : Bytes)
  | unknown
deriving DecidableEq, Repr

/-- All calls. Some are of the process that stops others: `readStatus` reads a file of `/proc`,
`waitpid` does not wait, and `markCleaning`, `processName` and `cleanPrisonerFiles` are members. -/
inductive Call
  | sys (op : Op)
  | isAvailable
  | cgroup (name : Bytes) (op : CgroupOp)
  | fork
  | mountinfo
  | stat (path : Bytes)
  | fileExists (path : Bytes)
  | getuid
  | geteuid
  | closeSockets
  | getState
  | isatty
  | printf (text : Bytes)
  | listProcesses
  | readStatus (pid : ℤ)
  | getpid
  | kill (pid : ℤ) (signal : ℕ)
  | waitpid (pid : ℤ)
  | markCleaning
  | processName (pid : ℤ)
  | cleanPrisonerFiles
deriving DecidableEq, Repr

/-- The answer to a call: of system calls the error if there is one, of `mountinfo` what is read from
`/proc/self/mountinfo`, of `stat` the permissions, of `getState` whether the task is running, and of
`listProcesses` the entries of `/proc`. -/
def Answer : Call → Type
  | .sys _ => Option Errno
  | .isAvailable => Bool
  | .cgroup _ _ => Option Failure
  | .fork => ℤ
  | .mountinfo => Bytes
  | .stat _ => Option ℕ
  | .fileExists _ => Bool
  | .getuid => ℕ
  | .geteuid => ℕ
  | .closeSockets => Unit
  | .getState => Except Failure Bool
  | .isatty => Bool
  | .printf _ => Unit
  | .listProcesses => Option (List ProcEntry)
  | .readStatus _ => Except Failure Bytes
  | .getpid => ℤ
  | .kill _ _ => Unit
  | .waitpid _ => ℤ
  | .markCleaning => Except Failure Unit
  | .processName _ => Except Failure Unit
  | .cleanPrisonerFiles => Except Failure Unit

/-- The system below the server. -/
structure Kernel where
  answer : Environment Answer
  sort : SortBySize
  strerror : Errno → Bytes

/-- How a process leaves: by an exception, by `_exit` of the process that has forked, or by
becoming the program. -/
inductive Ending
  | failed (failure : Failure)
  | exited
  | executed
deriving DecidableEq, Repr

/-- `EEXIST`: there is such a file. -/
def EEXIST : Errno := .other 17

/-- The execution of a program of a task. -/
structure Execution (cfg : Configuration) where
  prisoner : ℕ
  limits : ExecutionLimits
  interactive : Bool
  lang : Bytes
  vncPassword : Bytes
  name : Bytes
  fdslave : ℤ
  name_noNul : (0 : UInt8) ∉ name
  isPrisoner : cfg.isPrisonerUID prisoner = true

namespace Execution

variable {cfg : Configuration} (pm : Execution cfg)

/-- `getPrisonerName`: the name of the prisoner, with his uid. -/
def prisonerName : Bytes :=
  ascii "p" ++ itos pm.prisoner

/-- `getRelativeHomePath`: the home of the prisoner in the jail. -/
def relativeHomePath : Bytes :=
  ascii "/home/" ++ pm.prisonerName

end Execution

/-- What the server knows when it starts programs. The directories are relative to the jail. -/
structure Host where
  cfg : ServerConfiguration
  inContainer : Bool
  writableDirsInJail : List Bytes
  writableDirs_absolute : ∀ dir ∈ writableDirsInJail, ∃ name, name ≠ [] ∧ dir = 47 :: name

/-- A program of the process that starts another one. -/
abbrev Sys := ExceptT Ending (StateM (Calls Answer))

section Code

variable (K : Kernel) (host : Host) (pm : Execution host.cfg.toConfiguration)

/-- A system call. -/
def sys (op : Op) : Sys (Option Errno) :=
  call K.answer (.sys op)

/-- A system call whose failure does not matter. -/
def attempt (op : Op) : Sys Unit := do
  let _ ← sys K op
  pure ()

/-- A system call that has to succeed. -/
def check (op : Op) (failure : Failure) : Sys Unit := do
  let result ← sys K op
  if result = none then pure () else throw (.failed failure)

/-! ## Control group and namespaces -/

/-- A member of the control group, which may throw. -/
def cgroup (op : CgroupOp) : Sys Unit := do
  match ← call K.answer (.cgroup pm.prisonerName op) with
  | none => pure ()
  | some failure => throw (.failed failure)

/-- `setupCgroup`. `Cgroup::isAvailable` keeps its first answer. -/
def setupCgroup : Sys Unit :=
  if host.cfg.useCgroup = false then pure ()
  else do
    let available : Bool ← call K.answer .isAvailable
    if host.inContainer = true ∧ available = false then pure ()
    else if available = false then
      throw (.failed (.http "Cgroup hierarchy is unavailable" []))
    else do
      cgroup K host pm .construct
      cgroup K host pm .removeCgroup
      cgroup K host pm .createCgroup
      cgroup K host pm .setMemoryProcs
      if 0 < pm.limits.maxmemory then
        cgroup K host pm (.setMemoryLimitInBytes pm.limits.maxmemory)
      else pure ()

/-- `setupNamespaces`. The parent waits for the child, which goes on. -/
def setupNamespaces : Sys Unit :=
  if host.cfg.useNamespace = false then pure ()
  else do
    check K .unshare (.http "I can't create namespaces" [])
    check K (.mount none (ascii "/") none [.recursive, .makePrivate])
      (.http "I can't isolate mount namespace" [])
    let pid : ℤ ← call K.answer .fork
    if pid < 0 then throw (.failed (.http "I can't fork after unshare" []))
    else if 0 < pid then do
      attempt K (.prctl .dumpable)
      attempt K (.prctl .ptracer)
      attempt K (.waitpid pid)
      throw .exited
    else pure ()

/-- `login_tty` in `executeInJail`. -/
def loginTty : Sys Unit := do
  match ← sys K (.loginTty pm.fdslave) with
  | none => pure ()
  | some error => do
      attempt K (.close pm.fdslave)
      throw (.failed (.text (ascii "Cannot establish controlling terminal: " ++ K.strerror error)))

/-! ## The file system -/

/-- An exception of the model of another function. -/
def ofThrown : Thrown → Failure
  | .text message => .text (ascii message)
  | .http _ message => .http message []
  | _ => .unknown

/-- The call of an attempt to unmount. -/
def unmountEvent (attempt : Attempt) : CallEvent Answer :=
  ⟨.sys (.umount2 attempt.1 false), attempt.2⟩

/-- `unmountMountTreeOrThrow`: all that is mounted below goes, from the inside out. -/
def unmountTree (prefixMountPoint : Bytes) : Sys Unit := do
  let content : Bytes ← call K.answer .mountinfo
  let calls ← get
  let (attempts, result) := unmountMountTreeOrThrow K.sort
    (fun done target => K.answer (calls ++ done.map unmountEvent) (.sys (.umount2 target false)))
    content prefixMountPoint
  set (calls ++ attempts.map unmountEvent)
  match result with
  | .ok () => pure ()
  | .error e => throw (.failed (ofThrown e))

/-- `oldrootRelative`: where the old root is left in the new one. -/
def oldrootRelative : Bytes :=
  ascii ".oldroot_p" ++ itos pm.prisoner

/-- `pivotRoot`, with its two ways back to `chroot`. -/
def pivotRoot (jailPath : Bytes) : Sys Unit :=
  if jailPath = [] then pure ()
  else do
    attempt K (.mount none (ascii "/") none [.recursive, .makePrivate])
    let result ← sys K (.mount (some jailPath) jailPath none [.bind, .recursive])
    if result ≠ none then do
      check K (.chdir jailPath) (.http "I can't chdir to jail" jailPath)
      check K (.chroot jailPath) (.http "I can't chroot to jail" jailPath)
    else do
      attempt K (.mount none jailPath none [.recursive, .makePrivate])
      attempt K (.mkdir (jailPath ++ ascii "/" ++ oldrootRelative host pm) 0o755)
      check K (.chdir jailPath) (.http "I can't chdir to jail" jailPath)
      let result ← sys K (.pivotRoot (ascii ".") (oldrootRelative host pm))
      if result ≠ none then
        check K (.chroot jailPath) (.http "I can't chroot to jail" jailPath)
      else do
        check K (.chdir (ascii "/")) (.http "I can't chdir to new root" [])
        unmountTree K (ascii "/" ++ oldrootRelative host pm)
        attempt K (.rmdir (ascii "/" ++ oldrootRelative host pm))

/-- `remountProc`. `/sys` is asked for as a regular file. -/
def remountProc : Sys Unit := do
  attempt K (.umount2 (ascii "/proc") true)
  let result ← sys K (.mount (some (ascii "proc")) (ascii "/proc") (some (ascii "proc"))
    [.nosuid, .noexec, .nodev])
  if result ≠ none then pure ()
  else do
    let isFile : Bool ← call K.answer (.fileExists (ascii "/sys"))
    if isFile = true then do
      attempt K (.umount2 (ascii "/sys") true)
      attempt K (.mount (some (ascii "sysfs")) (ascii "/sys") (some (ascii "sysfs"))
        [.readOnly, .nosuid, .noexec, .nodev])
    else pure ()

/-- `sanitizedDirName`: the path of a directory as one name. -/
def sanitizedDirName (dir : Bytes) : Bytes :=
  dir.map fun b => if b = 47 then 46 else b

/-- The directory of the prisoner that stands for a writable one. -/
def privateSource (dir : Bytes) : Bytes :=
  pm.relativeHomePath ++ ascii "/" ++ sanitizedDirName dir

/-- The body of the loop of `setupPrivateWritableDirs`. -/
def setupPrivateWritableDir (dir : Bytes) : Sys Unit := do
  let source := privateSource host pm dir
  let origStat : Option ℕ ← call K.answer (.stat dir)
  let origMode := origStat.getD 0o755
  let result ← sys K (.mkdir source origMode)
  if result ≠ none ∧ result ≠ some EEXIST then pure ()
  else do
    attempt K (.chmod source origMode)
    attempt K (.chown source pm.prisoner pm.prisoner)
    let result ← sys K (.mkdir dir origMode)
    if result ≠ none ∧ result ≠ some EEXIST then pure ()
    else do
      let result ← sys K (.mount (some source) dir none [.bind])
      if result ≠ none then pure ()
      else do
        attempt K (.mount none dir none [.makePrivate])
        attempt K (.mount none dir none [.bind, .remount, .nodev, .nosuid])

/-- The loop of `setupPrivateWritableDirs`. -/
def setupDirs : List Bytes → Sys Unit
  | [] => pure ()
  | dir :: dirs => do
      setupPrivateWritableDir K host pm dir
      setupDirs dirs

/-- `setupPrivateWritableDirs`: a directory of the prisoner over each writable one. -/
def setupPrivateWritableDirs : Sys Unit :=
  if host.cfg.useNamespace = false then pure ()
  else setupDirs K host pm host.writableDirsInJail

/-- `setupFilesystemIsolation`: the mounts of the prisoner are his own. -/
def setupFilesystemIsolation : Sys Unit :=
  if host.cfg.jailPath = [] then pure ()
  else if host.cfg.useNamespace = false then do
    check K (.chdir host.cfg.jailPath) (.http "I can't chdir to jail" host.cfg.jailPath)
    check K (.chroot host.cfg.jailPath) (.http "I can't chroot to jail" host.cfg.jailPath)
  else do
    pivotRoot K host pm host.cfg.jailPath
    remountProc K
    setupPrivateWritableDirs K host pm

/-! ## The prisoner -/

/-- `becomePrisoner` of a prisoner. -/
def becomePrisonerOf (prisoner : ℕ) : Sys Unit := do
  check K (.setresgid prisoner) (.http "I can't change to prisoner group" (itos prisoner))
  check K (.setresuid prisoner) (.http "I can't change to prisoner user" (itos prisoner))
  let uid : ℕ ← call K.answer .getuid
  if uid = 0 then
    throw (.failed (.http "I can't change to prisoner user 2" (itos prisoner)))
  else do
    let euid : ℕ ← call K.answer .geteuid
    if euid = 0 then
      throw (.failed (.http "I can't change to prisoner user 2" (itos prisoner)))
    else do
      attempt K (.prctl .noNewPrivs)
      attempt K (.prctl .dumpable)
      attempt K (.prctl .ptracer)
      let _ ← call K.answer .closeSockets
      pure ()

/-- `becomePrisoner`: the process goes on as the prisoner. -/
def becomePrisoner : Sys Unit :=
  becomePrisonerOf K pm.prisoner

/-- One call of `setLimits`, where there is a limit. -/
def setrlimit (resource : Resource) : Option ℕ → Sys Unit
  | none => pure ()
  | some value => attempt K (.setrlimit resource value)

/-- The calls of `setLimits`. -/
def applyLimits : Sys Unit := do
  setrlimit K .core (setLimits pm.limits).core
  setrlimit K .cpu (setLimits pm.limits).cpu
  setrlimit K .fsize (setLimits pm.limits).fsize
  setrlimit K .nproc (setLimits pm.limits).nproc

/-- `fullname`: the path of the program. -/
def fullname : Bytes :=
  pm.relativeHomePath ++ ascii "/" ++ pm.name

/-- The environment of the program, which is made of C strings. -/
def programEnv : List Bytes :=
  let uid := itos pm.prisoner
  let env := [ascii "HOME=/home/p" ++ uid, ascii "TMPDIR=/tmp",
    ascii "PATH=" ++ host.cfg.cleanPATH, ascii "TERM=dumb", ascii "UID=" ++ uid,
    ascii "USER=p" ++ uid, ascii "USERNAME=Prisoner " ++ uid, ascii "VPL_LANG=" ++ pm.lang]
  let interactiveEnv := if pm.interactive then [ascii "VPL_VNCPASSWD=" ++ pm.vncPassword] else []
  (env ++ interactiveEnv).map cstr

/-- `wantJobControl`: the task is interactive and runs. -/
def wantJobControl : Sys Bool :=
  if pm.interactive = false then pure false
  else do
    match ← call K.answer .getState with
    | .ok isRunning => pure isRunning
    | .error failure => throw (.failed failure)

/-- The test of `transferExecution` for the program. -/
def programExists : Sys Unit := do
  let found : Bool ← call K.answer (.fileExists (fullname host pm))
  if found = false then
    throw (.failed (.text
      (ascii "transferExecution: execution file not found: " ++ fullname host pm)))
  else pure ()

/-- The process group becomes the foreground one of the terminal. -/
def takeTerminal (jobControl : Bool) : Sys Unit :=
  if jobControl = false then pure ()
  else do
    let terminal : Bool ← call K.answer .isatty
    if terminal = true then attempt K .tcsetpgrp else pure ()

/-- The end of `transferExecution`. -/
def startProgram : Sys Unit := do
  match ← sys K (.execve (fullname host pm) [fullname host pm] (programEnv host pm)) with
  | none => throw .executed
  | some error => throw (.failed (.text (ascii "I can't execve: " ++ fullname host pm ++
      ascii " (" ++ K.strerror error ++ ascii ")")))

/-- `transferExecution`: the process becomes the program. -/
def transferExecution : Sys Unit := do
  check K (.chdir pm.relativeHomePath)
    (.text (ascii "I can't chdir to exec dir :" ++ pm.relativeHomePath))
  programExists K host pm
  let jobControl ← wantJobControl K host pm
  attempt K .setpgid
  takeTerminal K jobControl
  startProgram K host pm

/-- What `executeInJail` does inside `try`. -/
def isolate : Sys Unit := do
  setupCgroup K host pm
  setupNamespaces K host
  loginTty K host pm
  setupFilesystemIsolation K host pm
  becomePrisoner K host pm
  applyLimits K host pm
  transferExecution K host pm

/-- What is printed for an exception. -/
def Failure.report : Failure → Bytes
  | .http message _ => ascii "\nJail error: " ++ ascii message ++ [10]
  | .std what => ascii "\nJail error: " ++ ascii what ++ [10]
  | .text message => ascii "\nJail error: " ++ message ++ [10]
  | .unknown => ascii "\nJail error: at execution stage\n"

/-- `executeInJail`, which never returns: the calls that it makes. -/
def executeInJail : Calls Answer :=
  match (isolate K host pm).run.run [] with
  | (.error (.failed failure), calls) =>
      calls ++ [⟨.printf failure.report, K.answer calls (.printf failure.report)⟩]
  | (_, calls) => calls

end Code

end VplJail.Jail.Isolation
