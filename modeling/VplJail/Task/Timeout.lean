import VplJail.Task.World

/-!
# The end of the time of a task

`getState` ends a task whose time is over, but it first returns `starting` for a task without a
compiler.
-/

namespace VplJail.Task

open ConfigurationFile Util

variable {cfg : Configuration} {env : Env} {pm : ProcessMonitor} {w : World} {info : Info}

/-- The time of a task is over. -/
structure Overdue (env : Env) (info : Info) : Prop where
  started : 0 < info.startTime
  past : info.startTime ≤ env.now
  elapsed : info.startTime + info.maxtime + harvestTimeout < env.now

/-- `getState` cleans the task and returns `stopped`. -/
def EndsTask (cfg : Configuration) (env : Env) (pm : ProcessMonitor) (info : Info) (w : World) :
    Prop :=
  getState cfg env pm w =
    (cleanTask cfg env { pm with info := info } w, .ok ({ pm with info := info }, .stopped))

theorem stateOf_of_overdue (h : Overdue env info) (uid : ℕ) (w : World) :
    stateOf cfg env uid info w = if info.compilerPid = 0 then some .starting else none := by
  have hstart := h.started
  have hpast := h.past
  unfold stateOf
  split
  · rfl
  · rw [if_neg (by omega), if_pos h.elapsed]

/-- A task whose time is over ends when a compiler has been set, and only then. -/
theorem endsTask_iff (hinfo : readInfo (w.files (processConfigFile cfg pm.prisoner)) = .ok info)
    (h : Overdue env info) : EndsTask cfg env pm info w ↔ info.compilerPid ≠ 0 := by
  have hstate := getState_of_readInfo env pm hinfo
  rw [stateOf_of_overdue h] at hstate
  unfold EndsTask
  rw [hstate]
  by_cases hpid : info.compilerPid = 0
  · rw [if_pos hpid]
    refine iff_of_false (fun heq => ?_) (not_not.mpr hpid)
    cases (Prod.mk.inj (Except.ok.inj (Prod.mk.inj heq).2)).2
  · rw [if_neg hpid]
    exact iff_of_true rfl hpid

/-- A world with the configuration of one task. -/
def worldWith (content : String) : World where
  files := fun path =>
    if path = processConfigFile .default 10001 then some (ascii content) else none
  homes := fun _ => none
  processes := fun _ => []

/-- A task that started long ago, with a compiler. -/
def overdueTask (compilerPid : ℤ) : Info where
  maxtime := 0
  maxfilesize := 0
  maxmemory := 0
  maxprocesses := 0
  adminticket := []
  executionticket := []
  monitorticket := []
  httpPassthroughticket := []
  localwebserver := []
  cleaning := false
  startTime := 5
  interactive := false
  lang := []
  compilerPid := compilerPid
  runnerPid := 0
  monitorPid := 0

theorem endsTask_iff_seven : EndsTask .default ⟨100, fun _ => true, fun _ => false⟩
    ⟨10001, .admin, overdueTask 0⟩ (overdueTask 7) (worldWith "STARTTIME=5\nCOMPILER_PID=7\n") :=
  (endsTask_iff (by decide +kernel) ⟨by decide, by decide, by decide⟩).mpr (by decide)

/-- A task without a compiler is `starting` for ever. -/
theorem not_endsTask_starting :
    readInfo ((worldWith "STARTTIME=5\n").files (processConfigFile .default 10001)) =
        .ok (overdueTask 0) ∧
      Overdue ⟨100, fun _ => false, fun _ => false⟩ (overdueTask 0) ∧
      (getState .default ⟨100, fun _ => false, fun _ => false⟩ ⟨10001, .admin, overdueTask 0⟩
        (worldWith "STARTTIME=5\n")).2 = .ok (⟨10001, .admin, overdueTask 0⟩, .starting) := by
  refine ⟨by decide +kernel, ⟨by decide, by decide, by decide⟩, ?_⟩
  rw [getState_of_readInfo _ _ (show _ = ReadInfo.ok (overdueTask 0) by decide +kernel)]
  rfl

end VplJail.Task
