import VplJail.Common.CriticalSection
import VplJail.Server.Daemon

/-!
# The children of the server

The keys of `children` are the processes that the server has forked and not reaped, and each of them
is counted once when it is reaped, for the address that it was started for. By
`tableExact_and_countsOnce_iff` this holds in a state that the server reaches if and only if no
`fork` has failed: `launch` and `periodicTasks` enter the result of a failed `fork` too, as the pid
-1, which no `waitpid` removes.
-/

namespace VplJail.Server

/-! ## The moves of a step -/

/-- What a step does to the system, in small moves. -/
inductive Move : System → System → Prop
  | accept (s : System) (now : ℤ) :
      Move s { s with
        daemon := s.daemon.cleanOld now
        history := s.history ++ [.accepted now] }
  | reject (s : System) (IP : Bytes) :
      Move s { s with
        daemon := Daemon.countRequest IP .internalError
          { s.daemon with
            statistics := { s.daemon.statistics with rejected := s.daemon.statistics.rejected + 1 } }
        history := s.history ++ [.rejected IP] }
  | fork (s : System) (now pid : ℤ) (origin : Origin) (h0 : 0 < pid) (hnew : pid ∉ s.processes) :
      Move s { s with
        daemon := { s.daemon with children := s.daemon.children.insert pid ⟨origin.IP, now⟩ }
        processes := s.processes.insert pid ⟨origin, none⟩
        history := s.history ++ [.forked pid origin] }
  | failFork (s : System) (now : ℤ) (origin : Origin) :
      Move s { s with
        daemon := { s.daemon with children := s.daemon.children.insert (-1) ⟨origin.IP, now⟩ }
        history := s.history ++ [.forkFailed origin] }
  | terminate (s : System) (pid : ℤ) (origin : Origin) (status : WaitStatus)
      (h : s.processes[pid]? = some ⟨origin, none⟩) :
      Move s { s with
        processes := s.processes.insert pid ⟨origin, some status⟩
        history := s.history ++ [.ended pid] }
  | reap (s : System) (pid : ℤ) (origin : Origin) (status : WaitStatus)
      (h : s.processes[pid]? = some ⟨origin, some status⟩) :
      Move s { s with
        daemon := s.daemon.reap pid status
        processes := s.processes.erase pid
        history := s.history ++ [.reaped pid origin status] }
  | idle (s : System) (nextCheckTime : ℤ) (harvesting : Bool) :
      Move s { s with daemon := { s.daemon with nextCheckTime }, harvesting }

theorem isBanned_fst (fail2ban now : ℤ) (IP : Bytes) (d : Daemon) :
    (d.isBanned fail2ban now IP).1 = d.cleanOld now := by
  unfold Daemon.isBanned
  cases h : (d.cleanOld now).logs[IP]? <;> simp [h]

theorem launch_eq (fail2ban now : ℤ) (IP : Bytes) (fork : ℤ) (d : Daemon) :
    d.launch fail2ban now IP fork =
      if (d.isBanned fail2ban now IP).2 then
        Daemon.countRequest IP .internalError
          { d.cleanOld now with
            statistics :=
              { (d.cleanOld now).statistics with
                rejected := (d.cleanOld now).statistics.rejected + 1 } }
      else
        { d.cleanOld now with children := (d.cleanOld now).children.insert fork ⟨IP, now⟩ } := by
  have h1 := isBanned_fst fail2ban now IP d
  unfold Daemon.launch
  generalize d.isBanned fail2ban now IP = r at h1 ⊢
  obtain ⟨d', b⟩ := r
  obtain rfl : d' = d.cleanOld now := h1
  cases b <;> rfl

section
variable {fail2ban : ℤ} {s s' : System}

/-- The process of a `fork`, and its entry in `children`. -/
theorem move_forkProcess {now : ℤ} (origin : Origin) {fork : Option ℤ}
    (h : System.forkProcess origin fork
      { s with daemon :=
        { s.daemon with
          children := s.daemon.children.insert (forkResult fork) ⟨origin.IP, now⟩ } } = some s') :
    Move s s' := by
  cases fork with
  | none =>
      obtain rfl := Option.some.inj h
      exact .failFork s now origin
  | some pid =>
      simp only [System.forkProcess] at h
      split_ifs at h with hpid
      obtain rfl := Option.some.inj h
      exact .fork s now pid origin hpid.1 hpid.2

theorem moves_launch {now : ℤ} {IP : Bytes} {fork : Option ℤ}
    (h : s.launch fail2ban now IP fork = some s') : Relation.ReflTransGen Move s s' := by
  -- `isBanned` comes first in both cases, and may clear the logs
  refine .head (.accept s now) (.single ?_)
  simp only [System.launch, launch_eq] at h
  split_ifs at h with hbanned
  · obtain rfl := Option.some.inj h
    rw [List.append_cons s.history _ [.rejected IP]]
    exact .reject { s with
      daemon := s.daemon.cleanOld now
      history := s.history ++ [.accepted now] } IP
  · exact move_forkProcess (s := { s with
      daemon := s.daemon.cleanOld now
      history := s.history ++ [.accepted now] }) (.connection IP) h

theorem moves_periodicTasks {now : ℤ} {fork : Option ℤ}
    (h : s.periodicTasks now fork = some s') : Relation.ReflTransGen Move s s' := by
  simp only [System.periodicTasks, Daemon.periodicTasks] at h
  split_ifs at h with hdue
  · refine .head (.idle s (now + 5 * 60) s.harvesting) (.single ?_)
    exact move_forkProcess (s := { s with
      daemon := { s.daemon with nextCheckTime := now + 5 * 60 } }) .helper h
  · obtain rfl := Option.some.inj h
    exact .refl

theorem moves_terminate {pid : ℤ} {status : WaitStatus} (h : s.terminate pid status = some s') :
    Relation.ReflTransGen Move s s' := by
  unfold System.terminate at h
  split at h
  · next origin hpid =>
      obtain rfl := Option.some.inj h
      exact .single (.terminate s pid origin status hpid)
  · cases h

theorem moves_reap {pid : ℤ} (h : s.reap pid = some s') : Relation.ReflTransGen Move s s' := by
  unfold System.reap at h
  split at h
  · next origin status hpid =>
      split_ifs at h
      obtain rfl := Option.some.inj h
      exact .single (.reap s pid origin status hpid)
  · cases h

theorem moves_step {e : Event} (h : s.step fail2ban e = some s') :
    Relation.ReflTransGen Move s s' := by
  cases e with
  | launch now IP fork =>
      simp only [System.step] at h
      split_ifs at h
      exact moves_launch h
  | periodicTasks now fork =>
      simp only [System.step] at h
      split_ifs at h
      exact moves_periodicTasks h
  | terminate pid status => exact moves_terminate h
  | harvest =>
      simp only [System.step] at h
      split_ifs at h
      obtain rfl := Option.some.inj h
      exact .single (.idle s s.daemon.nextCheckTime true)
  | waitpid wret =>
      cases wret with
      | none =>
          simp only [System.step] at h
          split_ifs at h
          obtain rfl := Option.some.inj h
          exact .single (.idle s s.daemon.nextCheckTime false)
      | some pid =>
          simp only [System.step] at h
          split_ifs at h
          exact moves_reap h

theorem moves_of_reaches (h : System.Reaches fail2ban s) : Relation.ReflTransGen Move {} s := by
  induction h with
  | refl => exact .refl
  | tail _ hstep ih =>
      obtain ⟨e, he⟩ := hstep
      exact ih.trans (moves_step he)

end

/-! ## What has been counted -/

/-- The time of the next clear and what has happened since the last one, of which `cleanOld` makes one
every five minutes, when a connection is accepted. -/
def recent (history : List Happening) : ℤ × List Happening :=
  history.foldl (fun (nextClear, since) happening =>
    match happening with
    | .accepted now => if now < nextClear then (nextClear, since) else (now + 5 * 60, [])
    | _ => (nextClear, since ++ [happening])) (0, [])

/-- What is counted for something that has happened: a rejection as a failure for the address, and a
reaped process with its exit status for the address that it was started for. -/
def Happening.request : Happening → Option (Bytes × ExitStatus)
  | rejected IP => some (IP, .internalError)
  | reaped _ origin status => some (origin.IP, status.exitStatus)
  | _ => none

/-- The logs that count each of the given requests once. -/
def logsOf (requests : List (Bytes × ExitStatus)) : Logs :=
  requests.foldl (fun logs (IP, es) => countLog logs IP es) ∅

/-- The address that a process has been started for. -/
def Process.IP (p : Process) : Bytes :=
  p.origin.IP

/-- Whether a process has been reaped. -/
def Happening.isReaped : Happening → Bool
  | reaped .. => true
  | _ => false

/-- Whether a request is counted among the errors. -/
def isError (request : Bytes × ExitStatus) : Bool :=
  request.2 ≠ .neutral ∧ request.2 ≠ .success

/-- The keys of `children` are the processes that have been forked and not been reaped, each with the
address that it was started for. -/
def System.TableExact (s : System) : Prop :=
  ∀ pid : ℤ, s.daemon.children[pid]?.map Child.IP = s.processes[pid]?.map Process.IP

/-- Each process that has been reaped, and each rejection, has been counted once. -/
structure System.CountsOnce (s : System) : Prop where
  logs : s.daemon.logs = logsOf ((recent s.history).2.filterMap (·.request))
  requests : s.daemon.statistics.requests = s.history.countP (·.isReaped)
  errors : s.daemon.statistics.errors = (s.history.filterMap (·.request)).countP isError

/-! ## The invariant -/

/-- What holds in every state that the server reaches. -/
structure Invariant (s : System) : Prop extends s.CountsOnce where
  nextClear : s.daemon.nextClear = (recent s.history).1
  pos : ∀ pid ∈ s.processes, 0 < pid
  children : ∀ pid : ℤ, pid ≠ -1 →
    s.daemon.children[pid]?.map Child.IP = s.processes[pid]?.map Process.IP
  failed : -1 ∈ s.daemon.children ↔ ∃ origin, Happening.forkFailed origin ∈ s.history

theorem recent_append_accepted (history : List Happening) (now : ℤ) :
    recent (history ++ [.accepted now]) =
      if now < (recent history).1 then recent history else (now + 5 * 60, []) := by
  simp [recent]

theorem recent_append {happening : Happening} (history : List Happening)
    (h : ∀ now, happening ≠ .accepted now) :
    recent (history ++ [happening]) =
      ((recent history).1, (recent history).2 ++ [happening]) := by
  cases happening with
  | accepted now => exact absurd rfl (h now)
  | _ => simp [recent]

@[simp]
theorem logsOf_append (requests : List (Bytes × ExitStatus)) (request : Bytes × ExitStatus) :
    logsOf (requests ++ [request]) = countLog (logsOf requests) request.1 request.2 := by
  simp [logsOf]

theorem countRequest_statistics_errors (IP : Bytes) (es : ExitStatus) (d : Daemon) :
    (d.countRequest IP es).statistics.errors =
      d.statistics.errors + if isError (IP, es) then 1 else 0 := by
  by_cases hn : es = .neutral <;> by_cases hs : es = .success <;>
    simp [Daemon.countRequest, isError, hn, hs]

@[simp]
theorem countRequest_statistics_requests (IP : Bytes) (es : ExitStatus) (d : Daemon) :
    (d.countRequest IP es).statistics.requests = d.statistics.requests := by
  simp only [Daemon.countRequest]
  split <;> rfl

theorem invariant_init : Invariant {} where
  logs := rfl
  requests := rfl
  errors := rfl
  nextClear := rfl
  pos pid h := by simp at h
  children pid _ := by simp
  failed := by simp

section
variable {s s' : System}

/-- Something that happens between two clears is counted by its request. -/
theorem System.CountsOnce.append (h : s.CountsOnce) {happening : Happening}
    (haccepted : ∀ now, happening ≠ .accepted now)
    (hhistory : s'.history = s.history ++ [happening])
    (hlogs : s'.daemon.logs =
      happening.request.elim s.daemon.logs fun r => countLog s.daemon.logs r.1 r.2)
    (hrequests : s'.daemon.statistics.requests =
      s.daemon.statistics.requests + if happening.isReaped then 1 else 0)
    (herrors : s'.daemon.statistics.errors =
      s.daemon.statistics.errors + if happening.request.any isError then 1 else 0) :
    s'.CountsOnce where
  logs := by
    rw [hlogs, hhistory, recent_append _ haccepted, List.filterMap_append, h.logs]
    cases hr : happening.request <;> simp [hr]
  requests := by rw [hrequests, hhistory, List.countP_append, h.requests, List.countP_singleton]
  errors := by
    rw [herrors, hhistory, List.filterMap_append, List.countP_append, h.errors]
    cases hr : happening.request <;> simp [hr, List.countP_singleton]

theorem Invariant.accept (h : Invariant s) (now : ℤ) :
    Invariant { s with
      daemon := s.daemon.cleanOld now
      history := s.history ++ [.accepted now] } := by
  have hrecent := recent_append_accepted s.history now
  rw [← h.nextClear] at hrecent
  unfold Daemon.cleanOld
  split_ifs at hrecent ⊢ with hnow
  · -- nothing is cleared before its time
    exact {
      logs := by rw [hrecent]; exact h.logs
      requests := by simpa [Happening.isReaped] using h.requests
      errors := by simpa [Happening.request] using h.errors
      nextClear := by rw [hrecent]; exact h.nextClear
      pos := h.pos
      children := h.children
      failed := by simpa using h.failed }
  · exact {
      logs := by rw [hrecent]; rfl
      requests := by simpa [Happening.isReaped] using h.requests
      errors := by simpa [Happening.request] using h.errors
      nextClear := by rw [hrecent]
      pos := h.pos
      children := h.children
      failed := by simpa using h.failed }

theorem Invariant.reject (h : Invariant s) (IP : Bytes) :
    Invariant { s with
      daemon := Daemon.countRequest IP .internalError
        { s.daemon with
          statistics := { s.daemon.statistics with rejected := s.daemon.statistics.rejected + 1 } }
      history := s.history ++ [.rejected IP] } where
  toCountsOnce := h.toCountsOnce.append (by simp) rfl rfl rfl
    (countRequest_statistics_errors IP .internalError _)
  nextClear := by rw [recent_append _ (by simp)]; exact h.nextClear
  pos := h.pos
  children := h.children
  failed := by simpa [Daemon.countRequest] using h.failed

theorem Invariant.fork (h : Invariant s) (now pid : ℤ) (origin : Origin) (h0 : 0 < pid) :
    Invariant { s with
      daemon := { s.daemon with children := s.daemon.children.insert pid ⟨origin.IP, now⟩ }
      processes := s.processes.insert pid ⟨origin, none⟩
      history := s.history ++ [.forked pid origin] } where
  toCountsOnce := h.toCountsOnce.append (by simp) rfl rfl rfl rfl
  nextClear := by rw [recent_append _ (by simp)]; exact h.nextClear
  pos pid' hpid' := by
    rcases Std.TreeMap.mem_insert.mp hpid' with heq | hold
    · rw [Std.LawfulEqCmp.compare_eq_iff_eq] at heq
      exact heq ▸ h0
    · exact h.pos pid' hold
  children pid' hpid' := by
    simp only [Std.TreeMap.getElem?_insert]
    split
    · rfl
    · exact h.children pid' hpid'
  failed := by
    have hne : pid ≠ -1 := by omega
    simpa [hne] using h.failed

theorem Invariant.failFork (h : Invariant s) (now : ℤ) (origin : Origin) :
    Invariant { s with
      daemon := { s.daemon with children := s.daemon.children.insert (-1) ⟨origin.IP, now⟩ }
      history := s.history ++ [.forkFailed origin] } where
  toCountsOnce := h.toCountsOnce.append (by simp) rfl rfl rfl rfl
  nextClear := by rw [recent_append _ (by simp)]; exact h.nextClear
  pos := h.pos
  children pid hpid := by
    have hne : -1 ≠ pid := hpid.symm
    simpa [Std.TreeMap.getElem?_insert, hne] using h.children pid hpid
  failed := by simp

theorem Invariant.terminate (h : Invariant s) {pid : ℤ} {origin : Origin} (status : WaitStatus)
    (hpid : s.processes[pid]? = some ⟨origin, none⟩) :
    Invariant { s with
      processes := s.processes.insert pid ⟨origin, some status⟩
      history := s.history ++ [.ended pid] } where
  toCountsOnce := h.toCountsOnce.append (by simp) rfl rfl rfl rfl
  nextClear := by rw [recent_append _ (by simp)]; exact h.nextClear
  pos pid' hpid' := by
    rcases Std.TreeMap.mem_insert.mp hpid' with heq | hold
    · rw [Std.LawfulEqCmp.compare_eq_iff_eq] at heq
      exact h.pos pid' (heq ▸ Std.TreeMap.mem_iff_isSome_getElem?.mpr (by simp [hpid]))
    · exact h.pos pid' hold
  children pid' hpid' := by
    rw [h.children pid' hpid', Std.TreeMap.getElem?_insert]
    split
    · next heq =>
        rw [Std.LawfulEqCmp.compare_eq_iff_eq] at heq
        subst heq
        simp [hpid, Process.IP]
    · rfl
  failed := by simpa using h.failed

theorem Invariant.reap (h : Invariant s) {pid : ℤ} {origin : Origin} {status : WaitStatus}
    (hpid : s.processes[pid]? = some ⟨origin, some status⟩) :
    Invariant { s with
      daemon := s.daemon.reap pid status
      processes := s.processes.erase pid
      history := s.history ++ [.reaped pid origin status] } := by
  have hmem : pid ∈ s.processes := Std.TreeMap.mem_iff_isSome_getElem?.mpr (by simp [hpid])
  -- a process has a positive pid, so that its entry in the table is its own
  have hne : pid ≠ -1 := by
    have := h.pos pid hmem
    omega
  obtain ⟨child, hchild, hIP⟩ : ∃ child, s.daemon.children[pid]? = some child ∧
      child.IP = origin.IP := by
    have := h.children pid hne
    simpa [hpid, Process.IP] using this
  have hreap : s.daemon.reap pid status = Daemon.countRequest origin.IP status.exitStatus
      { s.daemon with
        statistics := { s.daemon.statistics with requests := s.daemon.statistics.requests + 1 }
        children := s.daemon.children.erase pid } := by
    simp only [Daemon.reap, Daemon.processChildEnd, hchild, Option.getD_some, hIP]
  rw [hreap]
  exact {
    toCountsOnce := h.toCountsOnce.append (by simp) rfl rfl
      (countRequest_statistics_requests origin.IP status.exitStatus _)
      (countRequest_statistics_errors origin.IP status.exitStatus _)
    nextClear := by rw [recent_append _ (by simp)]; exact h.nextClear
    pos := fun pid' hpid' => h.pos pid' (Std.TreeMap.mem_of_mem_erase hpid')
    children := fun pid' hpid' => by
      simp only [Daemon.countRequest, Std.TreeMap.getElem?_erase]
      split
      · rfl
      · exact h.children pid' hpid'
    failed := by simpa [Daemon.countRequest, hne] using h.failed }

theorem Invariant.move (h : Invariant s) (hmove : Move s s') : Invariant s' := by
  cases hmove with
  | accept now => exact h.accept now
  | reject IP => exact h.reject IP
  | fork now pid origin h0 => exact h.fork now pid origin h0
  | failFork now origin => exact h.failFork now origin
  | terminate pid origin status hpid => exact h.terminate status hpid
  | reap pid origin status hpid => exact h.reap hpid
  | idle nextCheckTime harvesting => exact { h with }

theorem invariant_of_reaches_init {fail2ban : ℤ} (h : System.Reaches fail2ban s) : Invariant s :=
  invariant_of_reaches (fun _ _ hs hmove => hs.move hmove) (moves_of_reaches h) invariant_init

/-- The table is exact unless a `fork` has failed. -/
theorem Invariant.tableExact_iff (h : Invariant s) :
    s.TableExact ↔ ∀ origin, Happening.forkFailed origin ∉ s.history := by
  have hprocesses : s.processes[(-1 : ℤ)]? = none := by
    refine Std.TreeMap.getElem?_eq_none fun hmem => ?_
    have := h.pos (-1) hmem
    omega
  have hfailed : -1 ∉ s.daemon.children ↔ ∀ origin, Happening.forkFailed origin ∉ s.history := by
    rw [h.failed, not_exists]
  rw [← hfailed]
  constructor
  · -- no process has the pid -1
    intro hexact hmem
    have hIP := hexact (-1)
    obtain ⟨child, hchild⟩ :=
      Option.isSome_iff_exists.mp (Std.TreeMap.mem_iff_isSome_getElem?.mp hmem)
    simp [hprocesses, hchild] at hIP
  · intro hmem pid
    by_cases hpid : pid = -1
    · subst hpid
      rw [hprocesses, Std.TreeMap.getElem?_eq_none hmem]
      rfl
    · exact h.children pid hpid

/-- In a state that the server reaches, the table of the children is exact and each child that has
been reaped has been counted once, for the address that it was started for, if and only if no `fork`
has failed. -/
theorem tableExact_and_countsOnce_iff {fail2ban : ℤ} (h : System.Reaches fail2ban s) :
    s.TableExact ∧ s.CountsOnce ↔ ∀ origin, Happening.forkFailed origin ∉ s.history := by
  have hinv := invariant_of_reaches_init h
  rw [hinv.tableExact_iff]
  exact and_iff_left hinv.toCountsOnce

end

/-- A process that ends and is reaped leaves an empty table. -/
theorem tableExact_and_countsOnce_iff_reaped : ∃ s,
    System.run 0 [.launch 100 (ascii "10.0.0.1") (some 7), .terminate 7 (.exited 3), .harvest,
      .waitpid (some 7)] {} = some s ∧ s.TableExact ∧ s.CountsOnce := by
  obtain ⟨s, hs, hhistory⟩ : ∃ s,
      System.run 0 [.launch 100 (ascii "10.0.0.1") (some 7), .terminate 7 (.exited 3), .harvest,
        .waitpid (some 7)] {} = some s ∧
      s.history = [.accepted 100, .forked 7 (.connection (ascii "10.0.0.1")), .ended 7,
        .reaped 7 (.connection (ascii "10.0.0.1")) (.exited 3)] :=
    ⟨_, rfl, rfl⟩
  have hreach := System.reaches_of_run .refl hs
  exact ⟨s, hs, (tableExact_and_countsOnce_iff hreach).mpr (by simp [hhistory])⟩

/-- A `fork` that fails leaves the pid -1 in the table. -/
theorem not_tableExact_of_forkFailed : ¬ ∀ fail2ban (s : System),
    s.Reaches fail2ban → s.TableExact ∧ s.CountsOnce := by
  intro h
  obtain ⟨s, hs, hne⟩ : ∃ s,
      System.run 0 [.launch 100 (ascii "10.0.0.1") none] {} = some s ∧
      s.daemon.children[(-1 : ℤ)]?.map Child.IP ≠ s.processes[(-1 : ℤ)]?.map Process.IP :=
    ⟨_, rfl, by decide⟩
  exact hne ((h 0 s (System.reaches_of_run .refl hs)).1 (-1))

end VplJail.Server
