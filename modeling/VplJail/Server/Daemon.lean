import VplJail.Common.Bytes
import Mathlib.Logic.Relation
import Std.Data.TreeMap.Lemmas

/-!
# The server and its children

`Daemon` of `vpl-jail-server.h`: every accepted connection and every periodic clean-up gets a process
of its own, which the server keeps in `children` until it has reaped it. The exit status is counted
for the address of the connection, and an address with too many failures is rejected.

The counters of the source are `int`s, which are taken as numbers: those of `logs` are right for less
than 2 ^ 31 requests between two clears, those of `statistics`, which are never cleared, for less than
2 ^ 31 requests since the start of the server.
-/

namespace VplJail.Server

/-! ## Children -/

/-- `ExitStatus`, and the exit codes that have no name in it. -/
inductive ExitStatus
  | success
  | internalError
  | neutral
  | httpError
  | websocketError
  | other (code : UInt8)
deriving DecidableEq, Repr

/-- The conversion of an exit code. -/
def ExitStatus.ofCode (code : UInt8) : ExitStatus :=
  if code = 0 then success
  else if code = 1 then internalError
  else if code = 2 then neutral
  else if code = 3 then httpError
  else if code = 4 then websocketError
  else other code

/-- The status that `waitpid` gives of a process that has ended. -/
inductive WaitStatus
  | exited (code : UInt8)
  | signaled (signal : ℕ)
deriving DecidableEq, Repr

/-- The exit status that `harvest` counts. -/
def WaitStatus.exitStatus : WaitStatus → ExitStatus
  | exited code => .ofCode code
  | signaled _ => .internalError

/-- `Child`: a process that has been forked, with the address it is counted for and its start. -/
structure Child where
  IP : Bytes
  start : ℤ
deriving DecidableEq

/-- `Log`: the requests and the errors of an address since the logs were cleared. -/
structure Log where
  requests : ℕ := 0
  errors : ℕ := 0
deriving DecidableEq

/-- `statistics`: the counts of the server since its start, which are never cleared. -/
structure Statistics where
  requests : ℕ := 0
  errors : ℕ := 0
  rejected : ℕ := 0
deriving DecidableEq

/-- The map `logs`. -/
abbrev Logs := Std.TreeMap Bytes Log compare

/-- The map `children`. -/
abbrev Children := Std.TreeMap ℤ Child compare

/-- What a `Daemon` keeps of its clients, with the static variables of `cleanOld` and of
`periodicTasks`. -/
structure Daemon where
  statistics : Statistics := {}
  logs : Logs := ∅
  children : Children := ∅
  nextClear : ℤ := 0
  nextCheckTime : ℤ := 0

/-! ## Counting -/

/-- `countRequest` on one log. -/
def Log.count (log : Log) (es : ExitStatus) : Log :=
  { requests := log.requests + 1, errors := if es = .success then log.errors else log.errors + 1 }

/-- `countRequest` on the logs. -/
def countLog (logs : Logs) (IP : Bytes) (es : ExitStatus) : Logs :=
  if es = .neutral then logs else logs.insert IP ((logs[IP]?.getD {}).count es)

namespace Daemon

/-- `Daemon::countRequest`: an exit status is counted for an address. -/
def countRequest (IP : Bytes) (es : ExitStatus) (d : Daemon) : Daemon :=
  { d with
    logs := countLog d.logs IP es
    statistics :=
      if es = .neutral ∨ es = .success then d.statistics
      else { d.statistics with errors := d.statistics.errors + 1 } }

/-- `Daemon::processChildEnd`. The map makes up a child for a pid that it does not have. -/
def processChildEnd (pid : ℤ) (es : ExitStatus) (d : Daemon) : Daemon :=
  countRequest (d.children[pid]?.getD ⟨[], 0⟩).IP es { d with children := d.children.erase pid }

/-- What `harvest` does with a process that it has reaped. -/
def reap (pid : ℤ) (status : WaitStatus) (d : Daemon) : Daemon :=
  processChildEnd pid status.exitStatus
    { d with statistics := { d.statistics with requests := d.statistics.requests + 1 } }

/-- `Daemon::cleanOld`: all logs are cleared when the time for it has come. -/
def cleanOld (now : ℤ) (d : Daemon) : Daemon :=
  if now < d.nextClear then d else { d with nextClear := now + 5 * 60, logs := ∅ }

/-- `Daemon::isBanned`. The product is one of `int`s. -/
def isBanned (fail2ban now : ℤ) (IP : Bytes) (d : Daemon) : Daemon × Bool :=
  let d := cleanOld now d
  match d.logs[IP]? with
  | none => (d, false)
  | some log =>
      (d, fail2ban ≠ 0 && decide ((20 * fail2ban).bmod (2 ^ 32) < log.errors) &&
        decide (log.requests / 2 < log.errors))

/-- `Daemon::launch` with the address of the client and the result of `fork`, in the server. -/
def launch (fail2ban now : ℤ) (IP : Bytes) (fork : ℤ) (d : Daemon) : Daemon :=
  match isBanned fail2ban now IP d with
  | (d, true) =>
      countRequest IP .internalError
        { d with statistics := { d.statistics with rejected := d.statistics.rejected + 1 } }
  | (d, false) => { d with children := d.children.insert fork ⟨IP, now⟩ }

/-- The address of the clean-up processes. -/
def helperIP : Bytes :=
  ascii "127.0.0.1"

/-- Whether `periodicTasks` starts a clean-up. -/
def isDue (now : ℤ) (d : Daemon) : Bool :=
  decide (d.nextCheckTime ≤ now)

/-- `Daemon::periodicTasks` with the result of `fork`, in the server. -/
def periodicTasks (now fork : ℤ) (d : Daemon) : Daemon :=
  if d.isDue now then
    { d with
      nextCheckTime := now + 5 * 60
      children := d.children.insert fork ⟨helperIP, now⟩ }
  else d

end Daemon

/-! ## The server among its processes -/

/-- Who has started a process: a connection from an address, or the periodic clean-up. -/
inductive Origin
  | connection (IP : Bytes)
  | helper
deriving DecidableEq

/-- The address that a process is counted for. -/
def Origin.IP : Origin → Bytes
  | connection IP => IP
  | helper => Daemon.helperIP

/-- A process that has been forked and not been reaped yet, with its status if it has ended. -/
structure Process where
  origin : Origin
  status : Option WaitStatus
deriving DecidableEq

/-- What happens: a connection is accepted, and rejected or handed to a process, a process ends, and
it is reaped. -/
inductive Happening
  | accepted (now : ℤ)
  | rejected (IP : Bytes)
  | forked (pid : ℤ) (origin : Origin)
  | forkFailed (origin : Origin)
  | ended (pid : ℤ)
  | reaped (pid : ℤ) (origin : Origin) (status : WaitStatus)
deriving DecidableEq

/-- The server, the processes that the system has of it, whether `harvest` is under way, and what has
happened so far. -/
structure System where
  daemon : Daemon := {}
  processes : Std.TreeMap ℤ Process compare := ∅
  harvesting : Bool := false
  history : List Happening := []

/-- The steps: `launch` with the connection of a client, `periodicTasks`, both with the process that
`fork` makes, if it does not fail; the end of a process; and `harvest` with its turns, in each of
which `waitpid` returns a process but in the last. -/
inductive Event
  | launch (now : ℤ) (IP : Bytes) (fork : Option ℤ)
  | periodicTasks (now : ℤ) (fork : Option ℤ)
  | terminate (pid : ℤ) (status : WaitStatus)
  | harvest
  | waitpid (wret : Option ℤ)
deriving DecidableEq

/-- The result of `fork` in the server. -/
def forkResult (fork : Option ℤ) : ℤ :=
  fork.getD (-1)

namespace System

/-- The system behind a `fork`. The pid of a process is positive and not in use. -/
def forkProcess (origin : Origin) (fork : Option ℤ) (s : System) : Option System :=
  match fork with
  | none => some { s with history := s.history ++ [.forkFailed origin] }
  | some pid =>
      if 0 < pid ∧ pid ∉ s.processes then
        some { s with
          processes := s.processes.insert pid ⟨origin, none⟩
          history := s.history ++ [.forked pid origin] }
      else none

/-- A call of `launch`. -/
def launch (fail2ban now : ℤ) (IP : Bytes) (fork : Option ℤ) (s : System) : Option System :=
  let daemon := s.daemon.launch fail2ban now IP (forkResult fork)
  if (s.daemon.isBanned fail2ban now IP).2 then
    some { s with daemon, history := s.history ++ [.accepted now, .rejected IP] }
  else
    forkProcess (.connection IP) fork
      { s with daemon, history := s.history ++ [Happening.accepted now] }

/-- A call of `periodicTasks`. -/
def periodicTasks (now : ℤ) (fork : Option ℤ) (s : System) : Option System :=
  let s' := { s with daemon := s.daemon.periodicTasks now (forkResult fork) }
  if s.daemon.isDue now then s'.forkProcess .helper fork else some s'

/-- The end of a process. -/
def terminate (pid : ℤ) (status : WaitStatus) (s : System) : Option System :=
  match s.processes[pid]? with
  | some ⟨origin, none⟩ => some { s with
      processes := s.processes.insert pid ⟨origin, some status⟩
      history := s.history ++ [.ended pid] }
  | _ => none

/-- A turn of the loop of `harvest`, in which `waitpid` returns the given process. -/
def reap (pid : ℤ) (s : System) : Option System :=
  match s.processes[pid]? with
  | some ⟨origin, some status⟩ =>
      if s.daemon.children.isEmpty then none
      else some { s with
        daemon := s.daemon.reap pid status
        processes := s.processes.erase pid
        history := s.history ++ [.reaped pid origin status] }
  | _ => none

/-- The loop of `harvest` ends when the server has no children, or none that has ended. -/
def isHarvested (s : System) : Bool :=
  s.daemon.children.isEmpty || s.processes.values.all (·.status.isNone)

/-- A step of the system; `none` if it cannot happen. -/
def step (fail2ban : ℤ) (s : System) : Event → Option System
  | .launch now IP fork => if s.harvesting then none else s.launch fail2ban now IP fork
  | .periodicTasks now fork => if s.harvesting then none else s.periodicTasks now fork
  | .terminate pid status => s.terminate pid status
  | .harvest => if s.harvesting then none else some { s with harvesting := true }
  | .waitpid (some pid) => if s.harvesting then s.reap pid else none
  | .waitpid none =>
      if s.harvesting ∧ s.isHarvested then some { s with harvesting := false } else none

/-- A run of the system through some events. -/
def run (fail2ban : ℤ) (events : List Event) (s : System) : Option System :=
  events.foldlM (step fail2ban) s

/-- The states that a run from the start reaches. -/
def Reaches (fail2ban : ℤ) (s : System) : Prop :=
  Relation.ReflTransGen (fun s s' => ∃ e, step fail2ban s e = some s') {} s

theorem reaches_of_run {fail2ban : ℤ} {events : List Event} {s s' : System}
    (hs : Reaches fail2ban s) (h : s.run fail2ban events = some s') : Reaches fail2ban s' := by
  induction events generalizing s with
  | nil =>
      obtain rfl := Option.some.inj h
      exact hs
  | cons e events ih =>
      obtain ⟨s₁, he, hrun⟩ := Option.bind_eq_some_iff.mp h
      exact ih (hs.tail ⟨e, he⟩) hrun

end System

end VplJail.Server
