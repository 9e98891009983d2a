import VplJail.Jail.Confinement

/-!
# Stopping the processes of a prisoner

`cleanTask` of a task: its processes are signalled until none is left, and then its files are removed.
The server does so as root, so each signal needs a reason (`kill_justified`), and the files are removed
only after every process that `/proc` has listed was found gone (`cleanPrisonerFiles_justified`).
-/

namespace VplJail.Jail.Isolation

open VplJail.Task (ProcEntry Procfs Shown Shows uidIn)
open Util

section Code

variable (K : Kernel) (host : Host)

/-- A member that may throw. -/
def orThrow {α : Type} : Except Failure α → Sys α
  | .ok a => pure a
  | .error failure => throw (.failed failure)

/-- `Util::readFile` of the status of a process. -/
def readStatus (pid : ℤ) : Sys Bytes := do
  orThrow (← call K.answer (.readStatus pid))

/-- `Util::getProcessName`, for the log. -/
def processName (pid : ℤ) : Sys Unit := do
  orThrow (← call K.answer (.processName pid))

/-- The first section of `cleanTask`. -/
def markCleaning : Sys Unit := do
  orThrow (← call K.answer .markCleaning)

/-- `cleanPrisonerFiles`: the files of the task are removed. -/
def cleanPrisonerFiles : Sys Unit := do
  orThrow (← call K.answer .cleanPrisonerFiles)

/-- `getProcessUID`: the owner of a process, by its status. -/
def getProcessUID (pid : ℤ) : Sys ℤ := do
  let status ← readStatus K pid
  pure (uidIn status)

/-- The entries that `getPrisonerProcesses` goes through. -/
def prisonerProcessesIn (prisoner : ℕ) : List ProcEntry → Sys (List ℤ)
  | [] => pure []
  | entry :: entries =>
      if entry.mayBeDir ∧ 0 < atoi (cstr entry.name) then do
        let uid ← getProcessUID K (atoi (cstr entry.name))
        let pids ← prisonerProcessesIn prisoner entries
        pure (if uid = prisoner then atoi (cstr entry.name) :: pids else pids)
      else prisonerProcessesIn prisoner entries

/-- `getPrisonerProcesses`: the processes of the prisoner in `/proc`. -/
def getPrisonerProcesses (prisoner : ℕ) : Sys (List ℤ) := do
  let entries : Option (List ProcEntry) ← call K.answer .listProcesses
  prisonerProcessesIn K prisoner (entries.getD [])

/-- The signal of an attempt to stop processes: `SIGTERM` or `SIGKILL`. -/
def stopSignal (soft : Bool) : ℕ :=
  if soft then 15 else 9

/-- The first loop of `stopPrisonerProcess`, with `pidsKilled`. -/
def killPids (prisoner : ℕ) (soft : Bool) : List ℤ → Sys (List ℤ)
  | [] => pure []
  | pid :: pids => do
      let uid ← getProcessUID K pid
      if uid ≠ prisoner then killPids prisoner soft pids
      else do
        let _ ← call K.answer (.kill pid (stopSignal soft))
        let pidsKilled ← killPids prisoner soft pids
        pure (pid :: pidsKilled)

/-- The second loop of `stopPrisonerProcess`, with `nkilled`. -/
def waitPids : List ℤ → Sys ℕ
  | [] => pure 0
  | pid :: pids => do
      let wret : ℤ ← call K.answer (.waitpid pid)
      let nkilled ← waitPids pids
      pure (if wret = pid then nkilled + 1 else nkilled)

/-- What the child of plan B does. It leaves without more, whatever is thrown. -/
def killAll (prisoner : ℕ) (soft : Bool) : Sys ℕ :=
  tryCatch (do
      becomePrisonerOf K prisoner
      let _ ← call K.answer (.kill (-1) (stopSignal soft))
      throw .exited)
    fun _ => throw .exited

/-- The parent of plan B waits for its child so many times. -/
def waitChild (pid : ℤ) : ℕ → Sys Unit
  | 0 => pure ()
  | waits + 1 => do
      let wret : ℤ ← call K.answer (.waitpid pid)
      if pid = wret then pure () else waitChild pid waits

/-- `stopPrisonerProcess`: a signal to all of them, and plan B unless all have ended. -/
def stopPrisonerProcess (prisoner : ℕ) (soft : Bool) : Sys ℕ :=
  if host.cfg.isPrisonerUID prisoner = false then pure 0
  else do
    let pids ← getPrisonerProcesses K prisoner
    let pidsKilled ← killPids K prisoner soft pids
    let nkilled ← waitPids K pidsKilled
    if 0 < nkilled ∧ nkilled = pidsKilled.length then pure nkilled
    else do
      let pid : ℤ ← call K.answer .fork
      if pid < 0 then pure pids.length
      else if pid = 0 then killAll K prisoner soft
      else do
        waitChild K pid 20
        pure pids.length

/-- The loop of `cleanTask` that stops what is left, with the retries left. -/
def stopAll (prisoner : ℕ) : ℕ → Sys Unit
  | 0 => do
      let _ ← stopPrisonerProcess K host prisoner false
      pure ()
  | retries + 1 => do
      let processes ← stopPrisonerProcess K host prisoner false
      if 0 < processes then stopAll prisoner retries else pure ()

/-- Whether a process is one of the prisoner's and still there. -/
def isActive (prisoner : ℕ) (pid : ℤ) : Sys Bool := do
  let self : ℤ ← call K.answer .getpid
  if pid = self then pure false
  else do
    let uid ← getProcessUID K pid
    if uid ≠ prisoner then pure false
    else do
      let status ← readStatus K pid
      if status = [] then pure false
      else do
        processName K pid
        let uid ← getProcessUID K pid
        pure (decide (uid = prisoner))

/-- `activeProcesses`: one of the processes is still there. -/
def activeProcesses (prisoner : ℕ) : List ℤ → Sys Bool
  | [] => pure false
  | pid :: pids => do
      let active ← isActive K prisoner pid
      let others ← activeProcesses prisoner pids
      pure (active || others)

/-- The removal of the control group, whatever is thrown. -/
def removeCgroup (prisoner : ℕ) : Sys Unit :=
  if host.cfg.useCgroup = false then pure ()
  else do
    let available : Bool ← call K.answer .isAvailable
    if available = false then pure ()
    else do
      let failed : Option Failure ← call K.answer (.cgroup (ascii "p" ++ itos prisoner) .construct)
      if failed ≠ none then pure ()
      else do
        let _ ← call K.answer (.cgroup (ascii "p" ++ itos prisoner) .removeCgroup)
        pure ()

/-- `cleanTask`. Without a prisoner, which is `-1` as an `int`, there is nothing to clean. -/
def cleanTask : Option ℕ → Sys Unit
  | none => pure ()
  | some prisoner => do
      markCleaning K
      let _ ← stopPrisonerProcess K host prisoner true
      stopAll K host prisoner 10
      let pids ← getPrisonerProcesses K prisoner
      let active ← activeProcesses K prisoner pids
      if active then pure ()
      else do
        cleanPrisonerFiles K
        removeCgroup K host prisoner

end Code

/-! ## Reasons -/

/-- What a call makes of the identifiers of the process. -/
def userStep (user : Ids) : CallEvent Answer → Ids
  | ⟨.sys (.setresuid uid), (none : Option Errno)⟩ => Ids.all uid
  | _ => user

/-- The identifiers of the process that has made some calls. -/
def userOf (calls : Calls Answer) : Ids :=
  replay userStep (Ids.all 0) calls

/-- The process was found not to be the prisoner's, or to be the server. -/
def Gone (prisoner : ℕ) (scan : Calls Answer) (pid : ℤ) : Prop :=
  (∃ status, ⟨.readStatus pid, .ok status⟩ ∈ scan ∧ uidIn status ≠ prisoner) ∨ ⟨.getpid, pid⟩ ∈ scan

/-- The entries of `/proc` that are looked at. -/
def IsCandidate (entry : ProcEntry) : Prop :=
  entry.mayBeDir = true ∧ 0 < atoi (cstr entry.name)

/-- A signal is for a process that was the prisoner's at the last look, which is the call before, or it is
sent as the prisoner, to all that he may reach. -/
def KillJustified (host : Host) (prisoner : ℕ) (before : Calls Answer) (pid : ℤ) : Prop :=
  host.cfg.isPrisonerUID prisoner = true ∧
    (pid = -1 ∧ userOf before = Ids.all prisoner ∨
      0 < pid ∧ ∃ earlier status, before = earlier ++ [⟨.readStatus pid, .ok status⟩] ∧
        uidIn status = prisoner)

/-- All processes that were listed last have been found gone. -/
def RemovalJustified (prisoner : ℕ) (before : Calls Answer) : Prop :=
  ∃ earlier entries scan, before = earlier ++ ⟨.listProcesses, entries⟩ :: scan ∧
    (∀ e ∈ scan, e.1 ≠ .listProcesses) ∧
      ∀ entry ∈ Option.getD (α := List ProcEntry) entries [], IsCandidate entry →
        Gone prisoner scan (atoi (cstr entry.name))

/-- The reason that a call needs. -/
def Justified (host : Host) (prisoner : ℕ) (before : Calls Answer) : CallEvent Answer → Prop
  | ⟨.kill pid _, _⟩ => KillJustified host prisoner before pid
  | ⟨.cleanPrisonerFiles, _⟩ => RemovalJustified prisoner before
  | _ => True

section Rules

variable {K : Kernel} {host : Host} {prisoner : ℕ} {α β : Type}

variable (host prisoner) in
/-- From `P` the program comes to `Q`, and all calls have their reasons. -/
def Justifies (P : Calls Answer → Prop) (m : Sys α) (Q : α → Calls Answer → Prop) : Prop :=
  Triple (fun calls => EachCall (Justified host prisoner) calls ∧ P calls) m
    (fun a calls => EachCall (Justified host prisoner) calls ∧ Q a calls)
    fun _ => EachCall (Justified host prisoner)

namespace Justifies

variable {P P' : Calls Answer → Prop} {Q Q' : α → Calls Answer → Prop}

theorem pure {a : α} (h : ∀ calls, P calls → Q a calls) :
    Justifies host prisoner P (Pure.pure a) Q :=
  Triple.pure fun calls hP => ⟨hP.1, h calls hP.2⟩

theorem throw (e : Ending) : Justifies host prisoner P (throw e : Sys α) Q :=
  Triple.throw fun _ hP => hP.1

theorem bind {m : Sys α} {f : α → Sys β} {R : β → Calls Answer → Prop}
    (hm : Justifies host prisoner P m Q) (hf : ∀ a, Justifies host prisoner (Q a) (f a) R) :
    Justifies host prisoner P (m >>= f) R :=
  Triple.bind hm hf

theorem ite {c : Prop} [Decidable c] {m m' : Sys α} (ht : c → Justifies host prisoner P m Q)
    (hf : ¬ c → Justifies host prisoner P m' Q) :
    Justifies host prisoner P (if c then m else m') Q :=
  Triple.ite ht hf

theorem weaken {m : Sys α} (h : Justifies host prisoner P m Q) (hP : ∀ calls, P' calls → P calls)
    (hQ : ∀ a calls, Q a calls → Q' a calls) : Justifies host prisoner P' m Q' :=
  Triple.weaken h (fun _ hs => ⟨hs.1, hP _ hs.2⟩) (fun a _ hs => ⟨hs.1, hQ a _ hs.2⟩) fun _ _ h => h

/-- What is known to exist may be named. -/
theorem of_exists {ι : Type} {P : ι → Calls Answer → Prop} {m : Sys α}
    (h : ∀ i, Justifies host prisoner (P i) m Q) :
    Justifies host prisoner (fun calls => ∃ i, P i calls) m Q :=
  fun calls ⟨hsafe, i, hi⟩ => h i calls ⟨hsafe, hi⟩

/-- A call for which there is a reason. -/
theorem call {c : Call} {Q : Answer c → Calls Answer → Prop}
    (hc : ∀ calls a, P calls → Justified host prisoner calls ⟨c, a⟩)
    (h : ∀ calls a, P calls → Q a (calls ++ [⟨c, a⟩])) :
    Justifies host prisoner P (VplJail.call K.answer c) Q :=
  Triple.call fun calls a hP => ⟨hP.1.append_singleton (hc calls a hP.2), h calls a hP.2⟩

end Justifies

/-! ## Signals -/

theorem check_justifies {op : Op} {failure : Failure} {P Q : Calls Answer → Prop}
    (h : ∀ calls, P calls → Q (calls ++ [⟨.sys op, none⟩])) :
    Justifies host prisoner P (check K op failure) fun _ => Q := by
  refine Justifies.bind (Q := fun a calls => ∃ before, P before ∧ calls = before ++ [⟨.sys op, a⟩])
    (Justifies.call (fun _ _ _ => trivial) fun calls a hP => ⟨calls, hP, rfl⟩) fun a => ?_
  refine Justifies.ite (fun hnone => Justifies.pure ?_) fun _ => Justifies.throw _
  rintro _ ⟨before, hP, rfl⟩
  exact hnone ▸ h before hP

/-- A call that the identifiers do not depend on. -/
theorem call_keeps_user {c : Call} {user : Ids} (hc : ∀ before a, Justified host prisoner before ⟨c, a⟩)
    (hstep : ∀ a, userStep user ⟨c, a⟩ = user) :
    Justifies host prisoner (fun calls => userOf calls = user) (VplJail.call K.answer c)
      fun _ calls => userOf calls = user := by
  refine Justifies.call (fun calls a _ => hc calls a) fun calls a huser => ?_
  rw [userOf, replay_append_singleton, ← userOf, huser, hstep]

theorem becomePrisonerOf_justifies : Justifies host prisoner (fun _ => True)
    (becomePrisonerOf K prisoner) fun _ calls => userOf calls = Ids.all prisoner := by
  have hkeeps (c : Call) (hc : ∀ before a, Justified host prisoner before ⟨c, a⟩)
      (hstep : ∀ a, userStep (Ids.all prisoner) ⟨c, a⟩ = Ids.all prisoner) :
      Justifies host prisoner (fun calls => userOf calls = Ids.all prisoner)
        (VplJail.call K.answer c) fun _ calls => userOf calls = Ids.all prisoner :=
    call_keeps_user hc hstep
  have hprctl (option : Prctl) : Justifies host prisoner
      (fun calls => userOf calls = Ids.all prisoner) (attempt K (.prctl option))
      fun _ calls => userOf calls = Ids.all prisoner :=
    Justifies.bind (hkeeps _ (fun _ _ => trivial) fun a => by cases a <;> rfl) fun _ =>
      Justifies.pure fun _ h => h
  rw [becomePrisonerOf]
  refine Justifies.bind (Q := fun _ _ => True) (check_justifies fun _ _ => trivial) fun _ => ?_
  refine Justifies.bind (Q := fun _ calls => userOf calls = Ids.all prisoner) ?_ fun _ => ?_
  · refine check_justifies fun calls _ => ?_
    rw [userOf, replay_append_singleton]
    rfl
  refine Justifies.bind (hkeeps .getuid (fun _ _ => trivial) fun _ => rfl) fun uid => ?_
  refine Justifies.ite (fun _ => Justifies.throw _) fun _ => ?_
  refine Justifies.bind (hkeeps .geteuid (fun _ _ => trivial) fun _ => rfl) fun euid => ?_
  refine Justifies.ite (fun _ => Justifies.throw _) fun _ => ?_
  refine Justifies.bind (hprctl _) fun _ => Justifies.bind (hprctl _) fun _ =>
    Justifies.bind (hprctl _) fun _ => ?_
  exact Justifies.bind (hkeeps .closeSockets (fun _ _ => trivial) fun _ => rfl) fun _ =>
    Justifies.pure fun _ h => h

/-- Plan B sends its signal as the prisoner. -/
theorem killAll_justifies (hprisoner : host.cfg.isPrisonerUID prisoner = true) (soft : Bool) :
    Justifies host prisoner (fun _ => True) (killAll K prisoner soft) fun _ _ => False := by
  refine Triple.tryCatch (E := fun _ => EachCall (Justified host prisoner)) ?_
    fun _ => Triple.throw fun _ h => h
  refine Justifies.bind becomePrisonerOf_justifies fun _ => ?_
  refine Justifies.bind (Q := fun _ _ => True) (Justifies.call ?_ fun _ _ _ => trivial)
    fun _ => Justifies.throw _
  exact fun calls _ huser => ⟨hprisoner, .inl ⟨rfl, huser⟩⟩

/-- A call that may throw. -/
theorem orThrow_justifies {P : Calls Answer → Prop} {c : Call} {f : Answer c → Except Failure α}
    {Q : α → Calls Answer → Prop}
    (hc : ∀ calls a, P calls → Justified host prisoner calls ⟨c, a⟩)
    (h : ∀ calls a b, P calls → f a = .ok b → Q b (calls ++ [⟨c, a⟩])) :
    Justifies host prisoner P (VplJail.call K.answer c >>= fun a => orThrow (f a)) Q := by
  refine Justifies.bind (Q := fun a calls => ∃ before, P before ∧ calls = before ++ [⟨c, a⟩])
    (Justifies.call hc fun calls a hP => ⟨calls, hP, rfl⟩) fun a => ?_
  cases hf : f a with
  | error failure => exact Justifies.throw _
  | ok b =>
    refine Justifies.pure ?_
    rintro _ ⟨before, hP, rfl⟩
    exact h before a b hP hf

/-- A look at a process. -/
theorem readStatus_justifies {P : Calls Answer → Prop} {Q : Bytes → Calls Answer → Prop} {pid : ℤ}
    (h : ∀ calls status, P calls → Q status (calls ++ [⟨.readStatus pid, .ok status⟩])) :
    Justifies host prisoner P (readStatus K pid) Q :=
  orThrow_justifies (fun _ _ _ => trivial) fun calls a status hP hf => by
    obtain rfl : a = .ok status := hf
    exact h calls status hP

theorem getProcessUID_justifies {P : Calls Answer → Prop} {Q : ℤ → Calls Answer → Prop} {pid : ℤ}
    (h : ∀ calls status, P calls → Q (uidIn status) (calls ++ [⟨.readStatus pid, .ok status⟩])) :
    Justifies host prisoner P (getProcessUID K pid) Q := by
  refine Justifies.bind (Q := fun status => Q (uidIn status)) (readStatus_justifies h) fun status => ?_
  exact Justifies.pure fun _ hQ => hQ

/-- Each signal is for a process that is the prisoner's at the last look. -/
theorem killPids_justifies (hprisoner : host.cfg.isPrisonerUID prisoner = true) (soft : Bool)
    {pids : List ℤ} (hpids : ∀ pid ∈ pids, 0 < pid) :
    Justifies host prisoner (fun _ => True) (killPids K prisoner soft pids) fun _ _ => True := by
  induction pids with
  | nil => exact Justifies.pure fun _ h => h
  | cons pid pids ih =>
    obtain ⟨hpid, hpids⟩ := List.forall_mem_cons.mp hpids
    refine Justifies.bind (Q := fun uid calls => ∃ earlier status,
      calls = earlier ++ [⟨.readStatus pid, .ok status⟩] ∧ uid = uidIn status)
      (getProcessUID_justifies fun calls status _ => ⟨calls, status, rfl, rfl⟩) fun uid => ?_
    refine Justifies.ite (fun _ => (ih hpids).weaken (fun _ _ => trivial) fun _ _ h => h) fun huid => ?_
    refine Justifies.bind (Q := fun _ _ => True) (Justifies.call ?_ fun _ _ _ => trivial) fun _ => ?_
    · rintro _ _ ⟨earlier, status, rfl, rfl⟩
      exact ⟨hprisoner, .inr ⟨hpid, earlier, status, rfl, not_not.mp huid⟩⟩
    · exact Justifies.bind (ih hpids) fun _ => Justifies.pure fun _ _ => trivial

theorem waitPids_justifies (pids : List ℤ) :
    Justifies host prisoner (fun _ => True) (waitPids K pids) fun _ _ => True := by
  induction pids with
  | nil => exact Justifies.pure fun _ h => h
  | cons pid pids ih =>
    refine Justifies.bind (Q := fun _ _ => True)
      (Justifies.call (fun _ _ _ => trivial) fun _ _ _ => trivial) fun _ => ?_
    exact Justifies.bind ih fun _ => Justifies.pure fun _ _ => trivial

theorem waitChild_justifies (pid : ℤ) (waits : ℕ) :
    Justifies host prisoner (fun _ => True) (waitChild K pid waits) fun _ _ => True := by
  induction waits with
  | zero => exact Justifies.pure fun _ h => h
  | succ waits ih =>
    refine Justifies.bind (Q := fun _ _ => True)
      (Justifies.call (fun _ _ _ => trivial) fun _ _ _ => trivial) fun _ => ?_
    exact Justifies.ite (fun _ => Justifies.pure fun _ h => h) fun _ => ih

/-! ## The scan -/

/-- What `S` says of the calls since a listing of `/proc`. -/
def Scanned (earlier : Calls Answer) (entries : Answer .listProcesses) (S : Calls Answer → Prop)
    (calls : Calls Answer) : Prop :=
  ∃ scan, calls = earlier ++ ⟨.listProcesses, entries⟩ :: scan ∧
    (∀ e ∈ scan, e.1 ≠ .listProcesses) ∧ S scan

/-- What goes on to hold. -/
def Lasting (S : Calls Answer → Prop) : Prop :=
  ∀ scan e, S scan → S (scan ++ [e])


section Scan

variable {earlier : Calls Answer} {listed : Answer .listProcesses} {S S' : Calls Answer → Prop}

theorem Scanned.append {calls : Calls Answer} {e : CallEvent Answer}
    (h : Scanned earlier listed S calls) (he : e.1 ≠ .listProcesses)
    (hS : ∀ scan, S scan → S' (scan ++ [e])) : Scanned earlier listed S' (calls ++ [e]) := by
  obtain ⟨scan, rfl, hscan, hlasts⟩ := h
  refine ⟨scan ++ [e], by rw [List.append_assoc]; rfl, ?_, hS scan hlasts⟩
  exact List.forall_mem_append.mpr ⟨hscan, List.forall_mem_singleton.mpr he⟩

theorem Scanned.weaken {calls : Calls Answer} (h : Scanned earlier listed S calls)
    (hS : ∀ scan, S scan → S' scan) : Scanned earlier listed S' calls := by
  obtain ⟨scan, hcalls, hscan, hlasts⟩ := h
  exact ⟨scan, hcalls, hscan, hS scan hlasts⟩

theorem lasting_gone (pid : ℤ) : Lasting fun scan => Gone prisoner scan pid :=
  fun _ _ h => h.imp (fun ⟨status, hmem, huid⟩ => ⟨status, List.mem_append_left _ hmem, huid⟩)
    (List.mem_append_left _)

theorem Lasting.and_gone (hS : Lasting S) (q : Prop) (pid : ℤ) :
    Lasting fun scan => S scan ∧ (q → Gone prisoner scan pid) :=
  fun scan e h => ⟨hS scan e h.1, fun hq => lasting_gone pid scan e (h.2 hq)⟩

/-- A look that shows another user tells that the process is gone. -/
theorem getProcessUID_scans (hS : Lasting S) (pid : ℤ) :
    Justifies host prisoner (Scanned earlier listed S) (getProcessUID K pid) fun uid =>
      Scanned earlier listed fun scan => S scan ∧ (uid ≠ prisoner → Gone prisoner scan pid) := by
  refine getProcessUID_justifies fun calls status h => ?_
  refine h.append (by rintro ⟨⟩) fun scan hscan => ⟨hS scan _ hscan, fun huid => ?_⟩
  exact .inl ⟨status, List.mem_append_right _ List.mem_cons_self, huid⟩

/-- The processes that are listed are gone or are found. -/
theorem prisonerProcessesIn_scans (hS : Lasting S) (entries : List ProcEntry) :
    Justifies host prisoner (Scanned earlier listed S) (prisonerProcessesIn K prisoner entries)
      fun pids calls => (∀ pid ∈ pids, 0 < pid) ∧ Scanned earlier listed (fun scan => S scan ∧
        ∀ entry ∈ entries, IsCandidate entry → Gone prisoner scan (atoi (cstr entry.name)) ∨
          atoi (cstr entry.name) ∈ pids) calls := by
  induction entries generalizing S with
  | nil => exact Justifies.pure fun calls h => ⟨nofun, h.weaken fun _ hscan => ⟨hscan, nofun⟩⟩
  | cons entry entries ih =>
    refine Justifies.ite (fun hcandidate => ?_) fun hcandidate => ?_
    · refine Justifies.bind (getProcessUID_scans hS _) fun uid => ?_
      refine Justifies.bind (ih (hS.and_gone _ _)) fun pids => Justifies.pure fun calls h => ?_
      obtain ⟨hpos, hscanned⟩ := h
      constructor
      · split
        · exact List.forall_mem_cons.mpr ⟨hcandidate.2, hpos⟩
        · exact hpos
      · refine hscanned.weaken fun scan hscan => ⟨hscan.1.1, List.forall_mem_cons.mpr ⟨fun _ => ?_, ?_⟩⟩
        · by_cases huid : uid = prisoner
          · exact .inr (by rw [if_pos huid]; exact List.mem_cons_self)
          · exact .inl (hscan.1.2 huid)
        · intro entry' hentry' hcandidate'
          refine (hscan.2 entry' hentry' hcandidate').imp_right fun hmem => ?_
          split
          · exact List.mem_cons_of_mem _ hmem
          · exact hmem
    · refine (ih hS).weaken (fun _ h => h) fun pids calls h => ⟨h.1, h.2.weaken fun scan hscan => ?_⟩
      exact ⟨hscan.1, List.forall_mem_cons.mpr ⟨fun h => absurd h hcandidate, hscan.2⟩⟩

/-- The processes that `/proc` lists are gone or are found. -/
theorem getPrisonerProcesses_scans : Justifies host prisoner (fun _ => True)
    (getPrisonerProcesses K prisoner) fun pids calls => (∀ pid ∈ pids, 0 < pid) ∧
      ∃ earlier listed, Scanned earlier listed (fun scan =>
        ∀ entry ∈ Option.getD (α := List ProcEntry) listed [], IsCandidate entry →
          Gone prisoner scan (atoi (cstr entry.name)) ∨ atoi (cstr entry.name) ∈ pids) calls := by
  refine Justifies.bind (Q := fun listed calls => ∃ earlier,
    Scanned earlier listed (fun _ => True) calls) (Justifies.call (fun _ _ _ => trivial) ?_) ?_
  · exact fun calls listed _ => ⟨calls, [], rfl, nofun, trivial⟩
  · intro listed
    refine Justifies.of_exists fun earlier => ?_
    refine (prisonerProcessesIn_scans (fun _ _ h => h) _).weaken (fun _ h => h) ?_
    exact fun pids calls h => ⟨h.1, earlier, listed, h.2.weaken fun _ hscan => hscan.2⟩

/-- A process that is not active is gone. -/
theorem isActive_scans (hS : Lasting S) (pid : ℤ) :
    Justifies host prisoner (Scanned earlier listed S) (isActive K prisoner pid) fun active =>
      Scanned earlier listed fun scan => S scan ∧ (active = false → Gone prisoner scan pid) := by
  refine Justifies.bind (Q := fun self => Scanned earlier listed fun scan =>
    S scan ∧ ⟨.getpid, self⟩ ∈ scan) (Justifies.call (fun _ _ _ => trivial) fun calls self h => ?_)
    fun self => ?_
  · exact h.append (by rintro ⟨⟩) fun scan hscan =>
      ⟨hS scan _ hscan, List.mem_append_right _ List.mem_cons_self⟩
  refine Justifies.ite (fun hself => Justifies.pure fun calls h => ?_) fun _ => ?_
  · exact h.weaken fun scan hscan => ⟨hscan.1, fun _ => .inr (hself ▸ hscan.2)⟩
  refine Justifies.bind ((getProcessUID_scans hS pid).weaken (fun calls h =>
    h.weaken fun _ hscan => hscan.1) fun _ _ h => h) fun uid => ?_
  refine Justifies.ite (fun huid => Justifies.pure fun calls h => ?_) fun _ => ?_
  · exact h.weaken fun scan hscan => ⟨hscan.1, fun _ => hscan.2 huid⟩
  refine Justifies.bind (Q := fun status => Scanned earlier listed fun scan =>
    S scan ∧ (status = [] → Gone prisoner scan pid)) (readStatus_justifies fun calls status h => ?_)
    fun status => ?_
  · refine h.append (by rintro ⟨⟩) fun scan hscan => ⟨hS scan _ hscan.1, ?_⟩
    rintro rfl
    refine .inl ⟨[], List.mem_append_right _ List.mem_cons_self, ?_⟩
    rw [Task.uidIn_nil]
    omega
  refine Justifies.ite (fun hempty => Justifies.pure fun calls h => ?_) fun _ => ?_
  · exact h.weaken fun scan hscan => ⟨hscan.1, fun _ => hscan.2 hempty⟩
  refine Justifies.bind (Q := fun _ => Scanned earlier listed S) ?_ fun _ => ?_
  · exact orThrow_justifies (fun _ _ _ => trivial) fun calls a _ h _ =>
      h.append (by rintro ⟨⟩) fun scan hscan => hS scan _ hscan.1
  refine Justifies.bind (getProcessUID_scans hS pid) fun uid => Justifies.pure fun calls h => ?_
  exact h.weaken fun scan hscan => ⟨hscan.1, fun huid => hscan.2 (of_decide_eq_false huid)⟩

/-- Processes none of which is active are gone. -/
theorem activeProcesses_scans (hS : Lasting S) (pids : List ℤ) :
    Justifies host prisoner (Scanned earlier listed S) (activeProcesses K prisoner pids)
      fun active => Scanned earlier listed fun scan =>
        S scan ∧ (active = false → ∀ pid ∈ pids, Gone prisoner scan pid) := by
  induction pids generalizing S with
  | nil => exact Justifies.pure fun calls h => h.weaken fun _ hscan => ⟨hscan, fun _ => nofun⟩
  | cons pid pids ih =>
    refine Justifies.bind (isActive_scans hS pid) fun active => ?_
    refine Justifies.bind (ih (hS.and_gone _ _)) fun others => Justifies.pure fun calls h => ?_
    refine h.weaken fun scan hscan => ⟨hscan.1.1, fun hnone => ?_⟩
    obtain ⟨hactive, hothers⟩ := Bool.or_eq_false_iff.mp hnone
    exact List.forall_mem_cons.mpr ⟨hscan.1.2 hactive, hscan.2 hothers⟩

end Scan

/-! ## The calls of `cleanTask` -/

theorem stopPrisonerProcess_justifies (soft : Bool) : Justifies host prisoner (fun _ => True)
    (stopPrisonerProcess K host prisoner soft) fun _ _ => True := by
  refine Justifies.ite (fun _ => Justifies.pure fun _ h => h) fun hprisoner => ?_
  have hprisoner := Bool.eq_true_of_not_eq_false hprisoner
  refine Justifies.bind getPrisonerProcesses_scans fun pids => ?_
  refine Justifies.bind (Q := fun _ _ => True) ?_ fun pidsKilled => ?_
  · rintro calls ⟨hsafe, hpids, -⟩
    exact killPids_justifies hprisoner soft hpids calls ⟨hsafe, trivial⟩
  refine Justifies.bind (waitPids_justifies pidsKilled) fun nkilled => ?_
  refine Justifies.ite (fun _ => Justifies.pure fun _ h => h) fun _ => ?_
  refine Justifies.bind (Q := fun _ _ => True)
    (Justifies.call (fun _ _ _ => trivial) fun _ _ _ => trivial) fun pid => ?_
  refine Justifies.ite (fun _ => Justifies.pure fun _ h => h) fun _ => ?_
  refine Justifies.ite (fun _ => ?_) fun _ => ?_
  · exact (killAll_justifies hprisoner soft).weaken (fun _ h => h) fun _ _ h => h.elim
  · exact Justifies.bind (waitChild_justifies pid 20) fun _ => Justifies.pure fun _ h => h

theorem stopAll_justifies (retries : ℕ) : Justifies host prisoner (fun _ => True)
    (stopAll K host prisoner retries) fun _ _ => True := by
  induction retries with
  | zero =>
    exact Justifies.bind (stopPrisonerProcess_justifies false) fun _ => Justifies.pure fun _ h => h
  | succ retries ih =>
    refine Justifies.bind (stopPrisonerProcess_justifies false) fun processes => ?_
    exact Justifies.ite (fun _ => ih) fun _ => Justifies.pure fun _ h => h

theorem removeCgroup_justifies : Justifies host prisoner (fun _ => True)
    (removeCgroup K host prisoner) fun _ _ => True := by
  have hcall (c : Call) (hc : ∀ before a, Justified host prisoner before ⟨c, a⟩) :
      Justifies host prisoner (fun _ => True) (call K.answer c) fun _ _ => True :=
    Justifies.call (fun calls a _ => hc calls a) fun _ _ _ => trivial
  refine Justifies.ite (fun _ => Justifies.pure fun _ h => h) fun _ => ?_
  refine Justifies.bind (hcall .isAvailable fun _ _ => trivial) fun available => ?_
  refine Justifies.ite (fun _ => Justifies.pure fun _ h => h) fun _ => ?_
  refine Justifies.bind (hcall (.cgroup _ .construct) fun _ _ => trivial) fun failed => ?_
  refine Justifies.ite (fun _ => Justifies.pure fun _ h => h) fun _ => ?_
  exact Justifies.bind (hcall (.cgroup _ .removeCgroup) fun _ _ => trivial) fun _ =>
    Justifies.pure fun _ h => h

theorem cleanTask_justifies : Justifies host prisoner (fun _ => True)
    (cleanTask K host (some prisoner)) fun _ _ => True := by
  refine Justifies.bind (Q := fun _ _ => True)
    (orThrow_justifies (fun _ _ _ => trivial) fun _ _ _ _ _ => trivial) fun _ => ?_
  refine Justifies.bind (stopPrisonerProcess_justifies true) fun _ => ?_
  refine Justifies.bind (stopAll_justifies 10) fun _ => ?_
  refine Justifies.bind getPrisonerProcesses_scans fun pids => ?_
  refine Justifies.bind (Q := fun active calls => active = false → RemovalJustified prisoner calls)
    ?_ fun active => ?_
  · rintro calls ⟨hsafe, -, earlier, listed, hscanned⟩
    have hlasting : Lasting fun scan => ∀ entry ∈ Option.getD (α := List ProcEntry) listed [],
        IsCandidate entry → Gone prisoner scan (atoi (cstr entry.name)) ∨
          atoi (cstr entry.name) ∈ pids :=
      fun scan e h entry hentry hcandidate =>
        (h entry hentry hcandidate).imp_left (lasting_gone _ scan e)
    refine (activeProcesses_scans hlasting pids).weaken (fun _ h => h) ?_ calls ⟨hsafe, hscanned⟩
    rintro active _ ⟨scan, rfl, hscan, hfound, hgone⟩ hactive
    refine ⟨earlier, listed, scan, rfl, hscan, fun entry hentry hcandidate => ?_⟩
    exact (hfound entry hentry hcandidate).elim id (hgone hactive _)
  refine Justifies.ite (fun _ => Justifies.pure fun _ _ => trivial) fun hactive => ?_
  refine Justifies.bind (Q := fun _ _ => True) ?_ fun _ => removeCgroup_justifies
  exact orThrow_justifies (fun calls _ h => h (Bool.eq_false_of_not_eq_true hactive))
    fun _ _ _ _ _ => trivial

/-- Every call of `cleanTask` has its reason. -/
theorem eachCall_cleanTask (K : Kernel) (host : Host) (prisoner : ℕ) :
    EachCall (Justified host prisoner) ((cleanTask K host (some prisoner)).run.run []).2 :=
  Triple.final (Triple.weaken (cleanTask_justifies (K := K)) (fun _ h => h) (fun _ _ h => h.1)
    fun _ _ h => h) ⟨EachCall.nil _, trivial⟩

end Rules

/-- Every signal of `cleanTask` has its reason. -/
theorem kill_justified (K : Kernel) (host : Host) (prisoner : ℕ) :
    ∀ before pid signal after,
      ((cleanTask K host (some prisoner)).run.run []).2 =
        before ++ ⟨.kill pid signal, ()⟩ :: after →
      KillJustified host prisoner before pid :=
  fun before _ _ after h => eachCall_cleanTask K host prisoner before _ after h

/-- `cleanTask` removes the files of a task only when no process is left. -/
theorem cleanPrisonerFiles_justified (K : Kernel) (host : Host) (prisoner : ℕ) :
    ∀ before result after,
      ((cleanTask K host (some prisoner)).run.run []).2 =
        before ++ ⟨.cleanPrisonerFiles, result⟩ :: after →
      RemovalJustified prisoner before :=
  fun before _ after h => eachCall_cleanTask K host prisoner before _ after h

/-! ## The processes that are reached -/

/-- The signals that some calls send. -/
def signalsOf (calls : Calls Answer) : List (ℤ × ℕ) :=
  calls.filterMap fun e => match e.1 with
    | .kill pid signal => some (pid, signal)
    | _ => none

/-- The kernel answers as `proc` shows. -/
structure Presents (K : Kernel) (proc : Procfs) : Prop where
  entries : ∀ calls, K.answer calls .listProcesses = proc.entries
  status : ∀ calls pid, K.answer calls (.readStatus pid) =
    ((proc.status (itos pid)).mapError ofThrown : Except Failure Bytes)

section Presents

variable {K : Kernel} {proc : Procfs} {prisoner : ℕ} {signals : List (ℤ × ℕ)} {α β : Type}

/-- The program computes `x`, which does not depend on the calls, and sends no signal. -/
def Computes (m : Sys α) (x : Except Thrown α) : Prop :=
  ∀ signals, Triple (fun calls => signalsOf calls = signals) m
    (fun a calls => x = .ok a ∧ signalsOf calls = signals)
    fun _ calls => (∃ e, x = .error e) ∧ signalsOf calls = signals

theorem Computes.pure (a : α) : Computes (Pure.pure a) (.ok a) :=
  fun _ => Triple.pure fun _ h => ⟨rfl, h⟩

theorem Computes.bind {m : Sys α} {f : α → Sys β} {x : Except Thrown α} {y : α → Except Thrown β}
    (hm : Computes m x) (hf : ∀ a, Computes (f a) (y a)) : Computes (m >>= f) (x >>= y) := by
  intro signals
  refine Triple.bind (Triple.weaken (hm signals) (fun _ h => h) (fun _ _ h => h) ?_) fun a => ?_
  · rintro _ calls ⟨⟨e, rfl⟩, hsignals⟩
    exact ⟨⟨e, rfl⟩, hsignals⟩
  · rintro calls ⟨rfl, hsignals⟩
    exact hf a signals calls hsignals

/-- A call that sends no signal. -/
theorem signalsOf_append {calls : Calls Answer} {e : CallEvent Answer}
    (he : ∀ pid signal, e.1 ≠ .kill pid signal) : signalsOf (calls ++ [e]) = signalsOf calls := by
  have hnone : signalsOf [e] = [] := by
    obtain ⟨c, a⟩ := e
    cases c with
    | kill pid signal => exact absurd rfl (he pid signal)
    | _ => rfl
  rw [signalsOf, List.filterMap_append, ← signalsOf, ← signalsOf, hnone, List.append_nil]

theorem readStatus_computes (hK : Presents K proc) (pid : ℤ) :
    Computes (readStatus K pid) (proc.status (itos pid)) := by
  intro signals
  refine Triple.bind (Q := fun a calls => a = ((proc.status (itos pid)).mapError ofThrown :
    Except Failure Bytes) ∧ signalsOf calls = signals) (Triple.call_answer ?_) fun a => ?_
  · intro calls hsignals
    exact ⟨hK.status calls pid, (signalsOf_append (by rintro _ _ ⟨⟩)).trans hsignals⟩
  · rintro calls ⟨rfl, hsignals⟩
    cases proc.status (itos pid) with
    | ok status => exact ⟨rfl, hsignals⟩
    | error e => exact ⟨⟨e, rfl⟩, hsignals⟩

theorem getProcessUID_computes (hK : Presents K proc) (pid : ℤ) :
    Computes (getProcessUID K pid) (Task.getProcessUID proc pid) :=
  (readStatus_computes hK pid).bind fun _ => Computes.pure _

theorem prisonerProcessesIn_computes (hK : Presents K proc) (entries : List ProcEntry) :
    Computes (prisonerProcessesIn K prisoner entries)
      (Task.prisonerProcessesIn proc prisoner entries) := by
  induction entries with
  | nil => exact Computes.pure []
  | cons entry entries ih =>
    rw [prisonerProcessesIn, Task.prisonerProcessesIn]
    split
    · exact (getProcessUID_computes hK _).bind fun uid => ih.bind fun pids => Computes.pure _
    · exact ih

/-- The program that goes through `/proc` finds what is shown there. -/
theorem getPrisonerProcesses_computes (hK : Presents K proc) :
    Computes (getPrisonerProcesses K prisoner) (Task.getPrisonerProcesses proc prisoner) := by
  intro signals
  refine Triple.bind (Q := fun a calls => a = proc.entries ∧ signalsOf calls = signals)
    (Triple.call_answer ?_) fun a => ?_
  · intro calls hsignals
    exact ⟨hK.entries calls, (signalsOf_append (by rintro _ _ ⟨⟩)).trans hsignals⟩
  · rintro calls ⟨rfl, hsignals⟩
    exact prisonerProcessesIn_computes hK _ signals calls hsignals

/-- All processes that are found get the signal. -/
theorem killPids_signals (hK : Presents K proc) (soft : Bool) {pids : List ℤ}
    (hpids : ∀ pid ∈ pids, Task.getProcessUID proc pid = .ok (prisoner : ℤ)) (signals : List (ℤ × ℕ)) :
    Triple (fun calls => signalsOf calls = signals) (killPids K prisoner soft pids)
      (fun _ calls => signalsOf calls = signals ++ pids.map (·, stopSignal soft))
      fun _ _ => False := by
  induction pids generalizing signals with
  | nil => exact Triple.pure fun calls h => h.trans (List.append_nil _).symm
  | cons pid pids ih =>
    obtain ⟨hpid, hpids⟩ := List.forall_mem_cons.mp hpids
    refine Triple.bind (Q := fun uid calls => uid = (prisoner : ℤ) ∧ signalsOf calls = signals)
      (Triple.weaken (getProcessUID_computes hK pid signals) (fun _ h => h) ?_ ?_) fun uid => ?_
    · rintro uid calls ⟨huid, hsignals⟩
      exact ⟨Except.ok.inj (huid.symm.trans hpid), hsignals⟩
    · rintro _ calls ⟨⟨e, he⟩, -⟩
      cases hpid.symm.trans he
    refine Triple.ite (fun hne => ?_) fun _ => ?_
    · rintro calls ⟨rfl, -⟩
      exact absurd rfl hne
    refine Triple.bind (Q := fun _ calls => signalsOf calls = signals ++ [(pid, stopSignal soft)])
      (Triple.call fun calls a h => ?_) fun _ => ?_
    · rw [signalsOf, List.filterMap_append, ← signalsOf, h.2]
      rfl
    · refine Triple.bind (ih hpids _) fun _ => Triple.pure fun calls h => ?_
      rw [h, List.map_cons, List.append_assoc]
      rfl

/-- The processes that are shown of a prisoner are his when they are looked at again. -/
theorem getProcessUID_of_mem {shown : List Shown} (h : Shows proc shown)
    (hhigh : (prisoner : ℤ) < maxInt) :
    ∀ pid ∈ shown.filterMap (Shown.pidOf prisoner),
      Task.getProcessUID proc pid = .ok (prisoner : ℤ) := by
  intro pid hpid
  obtain ⟨x, hx, hpidOf⟩ := List.mem_filterMap.mp hpid
  match x, hx, hpidOf with
  | .process pid' (some s), hx, hpidOf =>
    rw [Shown.pidOf] at hpidOf
    split at hpidOf
    · rename_i huid
      obtain rfl := Option.some.inj hpidOf
      rw [Task.getProcessUID, (h.process pid' (some s) hx).2.2]
      refine congrArg Except.ok ?_
      rw [Option.elim_some, Task.uidIn_text]
      omega
    · cases hpidOf

/-- The program sends no signal. -/
def Silent (m : Sys α) : Prop :=
  ∀ signals, Keeps (fun calls => signalsOf calls = signals) m

namespace Silent

theorem pure (a : α) : Silent (Pure.pure a) :=
  fun _ => Triple.pure fun _ h => h

theorem throw (e : Ending) : Silent (throw e : Sys α) :=
  fun _ => Triple.throw fun _ h => h

theorem bind {m : Sys α} {f : α → Sys β} (hm : Silent m) (hf : ∀ a, Silent (f a)) :
    Silent (m >>= f) :=
  fun signals => Triple.bind (hm signals) fun a => hf a signals

theorem ite {c : Prop} [Decidable c] {m m' : Sys α} (hm : Silent m) (hm' : Silent m') :
    Silent (if c then m else m') :=
  fun signals => Triple.ite (fun _ => hm signals) fun _ => hm' signals

theorem call {c : Call} (hc : ∀ pid signal, c ≠ .kill pid signal) :
    Silent (VplJail.call K.answer c) :=
  fun _ => Triple.call fun _ _ h => (signalsOf_append hc).trans h

theorem attempt (op : Op) : Silent (attempt K op) :=
  (call (by rintro _ _ ⟨⟩)).bind fun _ => pure _

theorem check (op : Op) (failure : Failure) : Silent (check K op failure) := by
  refine bind (call (by rintro _ _ ⟨⟩)) fun result => ?_
  exact ite (pure _) (throw _)

end Silent

theorem becomePrisonerOf_silent : Silent (becomePrisonerOf K prisoner) := by
  refine (Silent.check _ _).bind fun _ => (Silent.check _ _).bind fun _ => ?_
  refine Silent.bind (Silent.call (by rintro _ _ ⟨⟩)) fun uid => ?_
  refine Silent.ite (Silent.throw _) ?_
  refine Silent.bind (Silent.call (by rintro _ _ ⟨⟩)) fun euid => ?_
  refine Silent.ite (Silent.throw _) ?_
  refine (Silent.attempt _).bind fun _ => (Silent.attempt _).bind fun _ =>
    (Silent.attempt _).bind fun _ => ?_
  exact (Silent.call (by rintro _ _ ⟨⟩)).bind fun _ => Silent.pure _

theorem waitPids_silent (pids : List ℤ) : Silent (waitPids K pids) := by
  induction pids with
  | nil => exact Silent.pure _
  | cons pid pids ih =>
    exact (Silent.call (by rintro _ _ ⟨⟩)).bind fun _ => ih.bind fun _ => Silent.pure _

theorem waitChild_silent (pid : ℤ) (waits : ℕ) : Silent (waitChild K pid waits) := by
  induction waits with
  | zero => exact Silent.pure _
  | succ waits ih =>
    refine Silent.bind (Silent.call (by rintro _ _ ⟨⟩)) fun wret => ?_
    exact Silent.ite (Silent.pure _) ih

/-- These signals have been sent, and perhaps that of plan B. -/
def UpToPlanB (soft : Bool) (signals : List (ℤ × ℕ)) (calls : Calls Answer) : Prop :=
  ∃ planB, (planB = [] ∨ planB = [(-1, stopSignal soft)]) ∧ signalsOf calls = signals ++ planB

theorem UpToPlanB.of_eq {soft : Bool} {calls : Calls Answer} (h : signalsOf calls = signals) :
    UpToPlanB soft signals calls :=
  ⟨[], .inl rfl, h.trans (List.append_nil _).symm⟩

theorem Silent.upToPlanB {m : Sys α} (hm : Silent m) (soft : Bool) (signals : List (ℤ × ℕ)) :
    Triple (fun calls => signalsOf calls = signals) m (fun _ => UpToPlanB soft signals)
      fun _ => UpToPlanB soft signals :=
  Triple.weaken (hm signals) (fun _ h => h) (fun _ _ h => .of_eq h) fun _ _ h => .of_eq h

/-- Plan B sends at most one signal. -/
theorem killAll_signals (soft : Bool) (signals : List (ℤ × ℕ)) :
    Triple (fun calls => signalsOf calls = signals) (killAll K prisoner soft) (fun _ _ => False)
      fun _ => UpToPlanB soft signals := by
  refine Triple.tryCatch (E := fun _ => UpToPlanB soft signals) ?_ fun _ => Triple.throw fun _ h => h
  refine Triple.bind (Q := fun _ calls => signalsOf calls = signals)
    (Triple.weaken (becomePrisonerOf_silent signals) (fun _ h => h) (fun _ _ h => h)
      fun _ _ h => .of_eq h) fun _ => ?_
  refine Triple.bind (Q := fun _ calls => signalsOf calls = signals ++ [(-1, stopSignal soft)])
    (Triple.call fun calls a h => ?_) fun _ => ?_
  · rw [signalsOf, List.filterMap_append, ← signalsOf, h]
    rfl
  · exact Triple.throw fun calls h => ⟨_, .inr rfl, h⟩

theorem stopPrisonerProcess_signals {host : Host} {shown : List Shown} (hK : Presents K proc)
    (hshows : Shows proc shown) (hhigh : (prisoner : ℤ) < maxInt)
    (hprisoner : host.cfg.isPrisonerUID prisoner = true) (soft : Bool) :
    Triple (fun calls => signalsOf calls = []) (stopPrisonerProcess K host prisoner soft)
      (fun _ => UpToPlanB soft ((shown.filterMap (Shown.pidOf prisoner)).map (·, stopSignal soft)))
      fun _ => UpToPlanB soft
        ((shown.filterMap (Shown.pidOf prisoner)).map (·, stopSignal soft)) := by
  have hfound : Task.getPrisonerProcesses proc prisoner =
      .ok (shown.filterMap (Shown.pidOf prisoner)) := by
    rw [Task.getPrisonerProcesses, hshows.entries]
    exact Task.prisonerProcessesIn_of_shows hshows (Int.natCast_nonneg _) hhigh
      (List.Subset.refl shown)
  generalize hbase : (shown.filterMap (Shown.pidOf prisoner)).map (·, stopSignal soft) = base
  rw [stopPrisonerProcess, if_neg (by rw [hprisoner]; exact Bool.noConfusion)]
  refine Triple.bind (Q := fun pids calls =>
    pids = shown.filterMap (Shown.pidOf prisoner) ∧ signalsOf calls = [])
    (Triple.weaken (getPrisonerProcesses_computes hK []) (fun _ h => h) ?_ ?_) fun pids => ?_
  · rintro pids calls ⟨hpids, hsignals⟩
    exact ⟨Except.ok.inj (hpids.symm.trans hfound), hsignals⟩
  · rintro _ calls ⟨⟨e, he⟩, -⟩
    cases hfound.symm.trans he
  refine Triple.bind (Q := fun _ calls => signalsOf calls = base) ?_ fun pidsKilled => ?_
  · rintro calls ⟨rfl, hsignals⟩
    refine Triple.weaken (killPids_signals hK soft (getProcessUID_of_mem hshows hhigh) [])
      (fun _ h => h) (fun _ _ h => h.trans ?_) (fun _ _ h => h.elim) calls hsignals
    rw [List.nil_append, hbase]
  refine Triple.bind (Q := fun _ calls => signalsOf calls = base)
    (Triple.weaken (waitPids_silent pidsKilled base) (fun _ h => h) (fun _ _ h => h)
      fun _ _ h => .of_eq h) fun nkilled => ?_
  refine Triple.ite (fun _ => (Silent.pure _).upToPlanB soft base) fun _ => ?_
  refine Triple.bind (Q := fun _ calls => signalsOf calls = base)
    (Triple.call fun calls a h => (signalsOf_append (by rintro _ _ ⟨⟩)).trans h) fun pid => ?_
  refine Triple.ite (fun _ => (Silent.pure _).upToPlanB soft base) fun _ => ?_
  refine Triple.ite (fun _ => ?_) fun _ => ?_
  · exact Triple.weaken (killAll_signals soft base) (fun _ h => h) (fun _ _ h => h.elim) fun _ _ h => h
  · exact ((waitChild_silent pid 20).bind fun _ => Silent.pure _).upToPlanB soft base

/-- Every process of the prisoner gets the signal, whatever name it gives itself. What comes later is at
most the one signal of plan B. -/
theorem signalsOf_stopPrisonerProcess {host : Host} {shown : List Shown} (hK : Presents K proc)
    (hshows : Shows proc shown) (hhigh : (prisoner : ℤ) < maxInt)
    (hprisoner : host.cfg.isPrisonerUID prisoner = true) (soft : Bool) :
    ∃ planB, (planB = [] ∨ planB = [(-1, stopSignal soft)]) ∧
      signalsOf ((stopPrisonerProcess K host prisoner soft).run.run []).2 =
        (shown.filterMap (Shown.pidOf prisoner)).map (·, stopSignal soft) ++ planB :=
  Triple.final (stopPrisonerProcess_signals hK hshows hhigh hprisoner soft) rfl

/-- A kernel that goes on showing the processes. -/
def unimpressed : Kernel where
  answer
    | _, .listProcesses => (Task.someProc.entries : Option (List ProcEntry))
    | _, .readStatus pid =>
        ((Task.someProc.status (itos pid)).mapError ofThrown : Except Failure Bytes)
    | _, .fork => (4712 : ℤ)
    | calls, c => (permissive []).answer calls c
  sort := SortBySize.stable
  strerror _ := []

theorem presents_unimpressed : Presents unimpressed Task.someProc :=
  ⟨fun _ => rfl, fun _ _ => rfl⟩

theorem signalsOf_stopPrisonerProcess_disguised :
    ∃ planB, (planB = [] ∨ planB = [(-1, 9)]) ∧
      signalsOf ((stopPrisonerProcess unimpressed hostWithTmp 12345 false).run.run []).2 =
        [(4711, 9)] ++ planB :=
  signalsOf_stopPrisonerProcess presents_unimpressed Task.shows_someProc (by decide) rfl false

end Presents

/-- A kernel with one process, which ends when it gets a signal, and which is listed after that. -/
def oneProcess : Kernel where
  answer
    | _, .listProcesses => (some [⟨itos 4711, true⟩] : Option (List ProcEntry))
    | calls, .readStatus _ =>
        (.ok (if calls.length < 4 then Task.disguised.text else []) : Except Failure Bytes)
    | _, .fork => (4712 : ℤ)
    | _, .waitpid pid => (pid : ℤ)
    | calls, c => (permissive []).answer calls c
  sort := SortBySize.stable
  strerror _ := []

/-- The calls of `cleanTask` before the signal. -/
def beforeSignal : Calls Answer :=
  [⟨.markCleaning, .ok ()⟩, ⟨.listProcesses, some [⟨itos 4711, true⟩]⟩,
    ⟨.readStatus 4711, .ok Task.disguised.text⟩, ⟨.readStatus 4711, .ok Task.disguised.text⟩]

/-- The calls from there to the removal of the files. -/
def afterSignal : Calls Answer :=
  [⟨.waitpid 4711, (4711 : ℤ)⟩, ⟨.listProcesses, some [⟨itos 4711, true⟩]⟩,
    ⟨.readStatus 4711, .ok []⟩, ⟨.fork, (4712 : ℤ)⟩, ⟨.waitpid 4712, (4712 : ℤ)⟩,
    ⟨.listProcesses, some [⟨itos 4711, true⟩]⟩, ⟨.readStatus 4711, .ok []⟩]

/-- The last calls. -/
def lastCalls : Calls Answer :=
  [⟨.isAvailable, true⟩, ⟨.cgroup (ascii "p12345") .construct, (none : Option Failure)⟩,
    ⟨.cgroup (ascii "p12345") .removeCgroup, (none : Option Failure)⟩]

theorem run_oneProcess : ((cleanTask oneProcess hostWithTmp (some 12345)).run.run []).2 =
    beforeSignal ++ ⟨.kill 4711 15, ()⟩ :: (afterSignal ++
      ⟨.cleanPrisonerFiles, .ok ()⟩ :: lastCalls) := by
  rfl

theorem kill_justified_oneProcess : KillJustified hostWithTmp 12345 beforeSignal 4711 :=
  kill_justified oneProcess hostWithTmp 12345 _ _ _ _ run_oneProcess

theorem cleanPrisonerFiles_justified_oneProcess :
    RemovalJustified 12345 (beforeSignal ++ ⟨.kill 4711 15, ()⟩ :: afterSignal) :=
  cleanPrisonerFiles_justified oneProcess hostWithTmp 12345 _ _ lastCalls
    run_oneProcess

end VplJail.Jail.Isolation
