import VplJail.Task.Locking

/-!
# No deadlock

Whatever an operation finds, and on every branch that an exception leaves, it takes the global lock
only while it holds nothing, takes the lock of a task while it holds at most the global one, and
gives back what it has taken (`balanced_run`). So no process asks for a lock of its own or waits in
a circle (`deadlockFree_of_reaches`).
-/

namespace VplJail.Task.Locking

open LockOrder ConfigurationFile Util

/-! ## The order of the locks -/

/-- The global lock comes first. The locks of two tasks have no order. -/
instance : Preorder LockId where
  le lock other := lock = other ∨ lock = .global
  lt lock other := lock = .global ∧ other ≠ .global
  le_refl lock := .inl rfl
  le_trans lock other last := by
    rintro (rfl | rfl) hle
    · exact hle
    · exact .inr rfl
  lt_iff_le_not_ge lock other := by
    constructor
    · rintro ⟨rfl, hother⟩
      exact ⟨.inr rfl, fun hle => hother (hle.elim id id)⟩
    · rintro ⟨rfl | rfl, hnot⟩
      · exact absurd (.inl rfl) hnot
      · exact ⟨rfl, fun hother => hnot (.inr hother)⟩

theorem LockId.not_global_gt {lock : LockId} : ¬ lock < .global :=
  fun h => h.2 rfl

/-- Two locks are not those of one file. -/
theorem LockId.name_injective : Function.Injective LockId.name := by
  have hglobal (n : ℤ) : name global ≠ name (task n) := fun h => by
    have hhead := congrArg List.head? h
    cases hhead
  intro lock other h
  cases lock with
  | global =>
    cases other with
    | global => rfl
    | task n => exact absurd h (hglobal n)
  | task m =>
    cases other with
    | global => exact absurd h.symm (hglobal m)
    | task n => exact congrArg task (itos_injective (List.append_cancel_left h))

/-- Nothing comes after the lock of a task. -/
instance : WellFoundedGT LockId where
  wf := by
    have htask (n : ℤ) : Acc (fun lock other : LockId => lock > other) (.task n) :=
      ⟨_, fun other h => by cases h.1⟩
    refine ⟨fun lock => ?_⟩
    cases lock with
    | task n => exact htask n
    | global =>
      refine ⟨_, fun other h => ?_⟩
      cases other with
      | global => exact absurd rfl h.2
      | task n => exact htask n

theorem LockId.task_ne_global (n : ℤ) : task n ≠ global := nofun

theorem taskLock_ne_global (uid : ℕ) : taskLock uid ≠ .global := nofun

/-- At most the global lock is held. -/
def AtMostGlobal (held : List LockId) : Prop :=
  ∀ lock ∈ held, lock = .global

theorem atMostGlobal_nil : AtMostGlobal [] :=
  fun _ h => absurd h List.not_mem_nil

theorem atMostGlobal_global : AtMostGlobal [.global] :=
  fun _ h => List.mem_singleton.mp h

/-! ## The rules -/

section Rules

variable {held : List LockId} {α : Type}

theorem balanced_check : Balanced held check := by
  unfold check
  refine .bind (.see _) fun fault => ?_
  cases fault with
  | none => exact .pure _
  | some e => exact .throw e

/-- A lock above those that are held may be taken. -/
theorem balanced_locked {lock : LockId} {part : LockM α} (hlock : ∀ other ∈ held, other < lock)
    (hpart : Balanced (lock :: held) part) : Balanced held (locked lock part) := by
  unfold locked
  refine .ite ?_ (.throw _)
  exact .bind balanced_check fun _ => .holding hlock hpart

theorem balanced_lockedGlobal {part : LockM α} (hpart : Balanced [.global] part) :
    Balanced [] (locked .global part) :=
  balanced_locked (fun _ h => absurd h List.not_mem_nil) hpart

/-- The lock of a task may be taken next to the global one. -/
theorem balanced_lockedTask {lock : LockId} {part : LockM α} (hlock : lock ≠ .global)
    (hheld : AtMostGlobal held) (hpart : Balanced (lock :: held) part) :
    Balanced held (locked lock part) :=
  balanced_locked (fun other h => ⟨hheld other h, hlock⟩) hpart

/-- A section under both locks. -/
theorem balanced_lockedBoth {lock : LockId} {part : LockM α} (hlock : lock ≠ .global)
    (hpart : Balanced [lock, .global] part) : Balanced [] (locked .global (locked lock part)) :=
  balanced_lockedGlobal (balanced_lockedTask hlock atMostGlobal_global hpart)

theorem balanced_onFiles (x : FileM α) : Balanced held (onFiles x) :=
  ⟨ordered_attempt _ _ _ _⟩

theorem balanced_ignore {x : LockM α} (hx : Balanced held x) : Balanced held (ignore x) :=
  hx.bind fun _ => .pure _

theorem balanced_quietly {x : LockM Unit} (hx : Balanced held x) : Balanced held (quietly x) :=
  hx.tryCatch fun _ => .pure _

end Rules

/-! ## Sections -/

section Sections

variable {held : List LockId} (cfg : Configuration)

theorem balanced_removeTree (path : Bytes) : Balanced held (removeTree path) :=
  .bind balanced_check fun _ => .act _

theorem balanced_handOver (homePath : Bytes) (what : String) :
    Balanced held (handOver homePath what) := by
  unfold handOver
  refine .bind (.see _) fun errno => ?_
  cases errno with
  | none => exact .pure _
  | some reason => exact .bind (balanced_removeTree homePath) fun _ => .throw _

theorem balanced_tryPrisoner (uid : ℕ) : Balanced held (tryPrisoner cfg uid) := by
  unfold tryPrisoner
  refine .bind (.ofExcept _) fun prisoner => .bind (.atomic _) fun control => ?_
  cases control with
  | failed reason => exact .throw _
  | eexist => exact .pure _
  | created =>
    refine .bind (.atomic _) fun home => ?_
    cases home with
    | failed reason => exact .throw _
    | eexist => exact .bind (balanced_removeTree _) fun _ => .bind (.act _) fun _ => .pure _
    | created =>
      exact .bind (balanced_handOver _ _) fun _ => .bind (balanced_handOver _ _) fun _ => .pure _

theorem balanced_tryPrisoners (draws : ℕ → Draw) (left i : ℕ) :
    Balanced held (tryPrisoners cfg draws left i) := by
  induction left generalizing i with
  | zero => exact .throw _
  | succ left ih =>
    refine .bind (balanced_tryPrisoner cfg _) fun selected => ?_
    cases selected with
    | none => exact ih (i + 1)
    | some prisoner => exact .pure _

theorem balanced_anyExists (paths : List Bytes) : Balanced held (anyExists paths) := by
  induction paths with
  | nil => exact .pure _
  | cons path paths ih => exact .bind (.see _) fun _ => .ite (.pure _) ih

theorem balanced_drawTickets (tickets : Tickets) (redrawn : List Tickets) :
    Balanced held (drawTickets cfg tickets redrawn) := by
  induction redrawn generalizing tickets with
  | nil => exact .pure _
  | cons next more ih =>
    exact .bind (balanced_anyExists _) fun _ => .ite (ih next) (.pure _)

theorem balanced_markCleaning (configFile : Bytes) : Balanced held (markCleaning configFile) := by
  unfold markCleaning
  refine .bind (.see _) fun _ => .ite ?_ (.pure _)
  refine .bind (.tryCatch (balanced_onFiles _) fun _ => .pure _) fun found => ?_
  cases found.bind fun content => readConfiguration content ∅ with
  | none => exact .pure _
  | some data => exact .bind (balanced_quietly (balanced_onFiles _)) fun _ => .pure _

theorem balanced_cleanPrisonerFilesLocked (pdir : Bytes) :
    Balanced held (cleanPrisonerFilesLocked cfg pdir) := by
  unfold cleanPrisonerFilesLocked
  refine .bind (balanced_markCleaning _) fun data => .bind (balanced_onFiles _) fun _ => ?_
  have hcontrol :=
    balanced_quietly (@balanced_removeTree held (cfg.controlPath ++ ascii "/" ++ pdir))
  exact .ite (.bind (balanced_quietly (balanced_removeTree _)) fun _ => hcontrol) hcontrol

theorem balanced_isZombie (pdir : Bytes) (maxAge : ℤ) (checkControlDir requireNoHome : Bool) :
    Balanced held (isZombie cfg pdir maxAge checkControlDir requireNoHome) := by
  unfold isZombie
  refine .ite (.bind (.see _) fun _ => ?_) (.bind (.see _) fun _ => ?_)
  · exact .ite (.ite (.bind (.see _) fun _ => .pure _) (.pure _))
      (.pure _)
  · exact .ite (.pure _) (.see _)

end Sections

/-! ## Operations -/

section Operations

variable (cfg : Configuration) (pid : ℤ) (pm : ProcessMonitor)

theorem balanced_newTask (draws : ℕ → Draw) (tickets : Tickets) (redrawn : List Tickets) :
    Balanced [] (newTask cfg draws tickets redrawn) := by
  have hselect : Balanced [] (selectPrisoner cfg draws) := by
    unfold selectPrisoner
    exact .ite (.throw _) (.ite (.throw _)
      (balanced_lockedGlobal (balanced_tryPrisoners cfg draws _ _)))
  unfold newTask
  refine .bind hselect fun prisoner => balanced_lockedBoth (taskLock_ne_global _) ?_
  refine .bind (balanced_drawTickets cfg tickets redrawn) fun tickets => ?_
  refine .bind (balanced_onFiles _) fun _ => ?_
  have hrest : Balanced [taskLock prisoner, .global] (do
      writeTicket cfg prisoner tickets.execution (ascii "2")
      let info := newInfo tickets (← time)
      onFiles (storeInfo cfg prisoner info)
      pure ⟨prisoner, .admin, info⟩ : LockM ProcessMonitor) :=
    .bind (balanced_onFiles _) fun _ => .bind (.see _) fun _ => .bind (balanced_onFiles _) fun _ =>
      .pure _
  -- direct execution has no ticket for a monitor
  cases tickets.monitor with
  | none => exact hrest
  | some monitor => exact .bind (balanced_onFiles _) fun _ => hrest

theorem balanced_monitorize {held : List LockId} (hheld : AtMostGlobal held) :
    Balanced held (monitorize cfg pid pm) := by
  unfold monitorize
  exact .ite (.pure _)
    (balanced_lockedTask (taskLock_ne_global _) hheld (balanced_onFiles _))

/-- The constructor holds the global lock when it takes that of the task, as a monitor twice. -/
theorem balanced_ofTicket (ticket : Bytes) : Balanced [] (ofTicket cfg pid ticket) := by
  unfold ofTicket
  refine .ite (balanced_lockedGlobal ?_) (.throw _)
  unfold openTicket
  refine .bind (.see _) fun _ => .ite ?_ (.throw _)
  refine .bind (balanced_onFiles _) fun content => .bind (.ofExcept _) fun r => ?_
  refine .bind (balanced_onFiles _) fun _ => ?_
  have hopen := balanced_lockedTask (taskLock_ne_global r.1) atMostGlobal_global
    (balanced_onFiles (openTask cfg r.1))
  refine .bind hopen fun info => ?_
  exact balanced_monitorize cfg pid _ atMostGlobal_global

theorem balanced_stopPrisonerProcess {held : List LockId} (uid : ℕ) (soft : Bool) :
    Balanced held (stopPrisonerProcess cfg uid soft) := by
  unfold stopPrisonerProcess
  exact .ite (.atomic _) (.pure _)

theorem balanced_stopPrisonerProcesses {held : List LockId} (uid left : ℕ) :
    Balanced held (stopPrisonerProcesses cfg uid left) := by
  induction left with
  | zero => exact .pure _
  | succ left ih =>
    exact .bind (balanced_stopPrisonerProcess cfg uid false) fun _ => .ite ih (.pure _)

theorem balanced_activeProcesses {held : List LockId} (uid : ℕ) (pids : List ℤ) :
    Balanced held (activeProcesses pid uid pids) := by
  induction pids with
  | nil => exact .pure _
  | cons found pids ih =>
    exact .bind (.ite (.pure _) (.see _)) fun _ => .bind ih fun _ => .pure _

/-- Between its two sections `cleanTask` holds nothing. -/
theorem balanced_cleanTask : Balanced [] (cleanTask cfg pid pm) := by
  unfold cleanTask
  refine .ite (.pure _) (.bind (balanced_lockedBoth (taskLock_ne_global _) ?_) fun _ => ?_)
  · exact .bind (balanced_markCleaning _) fun _ => balanced_onFiles _
  refine .bind (balanced_stopPrisonerProcess cfg _ true) fun _ => ?_
  refine .bind (balanced_stopPrisonerProcesses cfg _ _) fun _ => .bind (.see _) fun pids => ?_
  refine .bind (balanced_activeProcesses pid _ pids) fun _ => .ite (.pure _) ?_
  exact balanced_lockedBoth (LockId.task_ne_global _) (balanced_cleanPrisonerFilesLocked cfg _)

theorem balanced_waitExistFile {held : List LockId} (path : Bytes) (limit : ℕ) :
    Balanced held (waitExistFile path limit) := by
  induction limit with
  | zero => exact .pure _
  | succ limit ih => exact .bind (.see _) fun _ => .ite (.pure _) ih

theorem balanced_cleanAndStop : Balanced [] (cleanAndStop cfg pid pm) :=
  .bind (balanced_cleanTask cfg pid pm) fun _ => .pure _

theorem balanced_stateWithoutRunner (elapsedTime : ℤ) :
    Balanced [] (stateWithoutRunner cfg pid pm elapsedTime) := by
  unfold stateWithoutRunner
  refine .ite (balanced_cleanAndStop cfg pid pm) (.ite (.pure _) ?_)
  refine .bind (balanced_waitExistFile _ _) fun _ => .bind (.see _) fun _ => ?_
  exact .ite (.bind (.see _) fun _ => .ite (.pure _) (.pure _)) (.pure _)

theorem balanced_stateWithRunner {held : List LockId} : Balanced held (stateWithRunner cfg pm) := by
  unfold stateWithRunner
  refine .bind (.see _) fun _ => .ite (.pure _) (.ite (.pure _) ?_)
  refine .bind (balanced_waitExistFile _ _) fun _ => .bind (.see _) fun _ => ?_
  exact .ite (.pure _) (.pure _)

/-- Behind `readInfo` nothing is held, so the end of a task may take both locks. -/
theorem balanced_stateOfInfo : Balanced [] (stateOfInfo cfg pid pm) := by
  unfold stateOfInfo
  refine .ite (.pure _) (.bind (.see _) fun currentTime => .ite (.pure _) ?_)
  refine .ite (balanced_cleanAndStop cfg pid pm) (.bind (.see _) fun _ => .ite (.pure _) ?_)
  refine .ite (balanced_cleanAndStop cfg pid pm) (.ite ?_ (balanced_stateWithRunner cfg pm))
  exact balanced_stateWithoutRunner cfg pid pm _

theorem balanced_readInfoUnlessCleaning {held : List LockId} (uid : ℕ) :
    Balanced held (readInfoUnlessCleaning cfg uid) :=
  .tryCatch (.bind (balanced_onFiles _) fun _ => .pure _)
    fun _ => .ite (.pure _) (.throw _)

theorem balanced_getState : Balanced [] (getState cfg pid pm) := by
  unfold getState
  refine .bind (.see _) fun _ => .ite ?_ (.pure _)
  refine .bind (balanced_lockedTask (taskLock_ne_global _) atMostGlobal_nil ?_) fun found => ?_
  · exact .bind (.see _) fun _ => .ite (balanced_readInfoUnlessCleaning cfg _) (.pure _)
  · cases found with
    | none => exact .pure _
    | some info => exact balanced_stateOfInfo cfg pid _

theorem balanced_isRunning : Balanced [] (isRunning cfg pid pm) :=
  .bind (balanced_getState cfg pid pm) fun _ => .pure _

theorem balanced_isMonitored : Balanced [] (isMonitored cfg pid pm) := by
  unfold isMonitored
  refine .bind (.see _) fun _ => .ite ?_ (.pure _)
  refine .bind (balanced_lockedTask (taskLock_ne_global _) atMostGlobal_nil ?_) fun found => ?_
  · refine .bind (balanced_onFiles _) fun info => .ite (.ite (.pure _) ?_) (.pure _)
    exact .bind (.see _) fun _ => .pure _
  · obtain ⟨info, answer⟩ := found
    cases answer with
    | some answer => exact .pure _
    | none => exact balanced_isRunning cfg pid _

theorem balanced_hasActiveMonitor : Balanced [] (hasActiveMonitor cfg pm) := by
  unfold hasActiveMonitor
  refine .bind (.see _) fun _ => .ite ?_ (.pure _)
  refine balanced_lockedTask (taskLock_ne_global _) atMostGlobal_nil ?_
  refine .bind (balanced_readInfoUnlessCleaning cfg _) fun found => ?_
  cases found with
  | none => exact .pure _
  | some info => exact .ite (.see _) (.pure _)

theorem balanced_cleanZombiePrisonerFiles (pdir : Bytes) (maxAge : ℤ)
    (checkControlDir requireNoHome : Bool) :
    Balanced [] (cleanZombiePrisonerFiles cfg pdir maxAge checkControlDir requireNoHome) := by
  unfold cleanZombiePrisonerFiles
  refine balanced_lockedBoth (LockId.task_ne_global _) ?_
  refine .bind (balanced_isZombie cfg pdir _ _ _) fun _ => .ite ?_ (.pure _)
  exact .bind (balanced_cleanPrisonerFilesLocked cfg pdir) fun _ => .pure _

/-- What the constructor or `getState` throws has given the locks back before it is caught. -/
theorem balanced_cleanZombieTask (task : Bytes) : Balanced [] (cleanZombieTask cfg pid task) := by
  have hcheck (configFile : Bytes) : Balanced [] (checkTask cfg pid configFile) := by
    unfold checkTask
    refine .bind (balanced_onFiles _) fun content => ?_
    cases content.bind fun content => readConfiguration content ∅ with
    | none => exact .throw _
    | some data =>
      refine .bind (balanced_ofTicket cfg pid _) fun pm => ?_
      exact .bind (balanced_getState cfg pid pm) fun _ => .pure _
  unfold cleanZombieTask
  refine .bind (.see _) fun _ => .ite (.bind (.see _) fun _ => ?_) (.pure _)
  refine .ite (.tryCatch (hcheck _) fun _ => ?_) (balanced_cleanZombiePrisonerFiles cfg _ _ _ _)
  exact balanced_cleanZombiePrisonerFiles cfg _ _ _ _

theorem balanced_cleanZombieHome (home : Bytes) : Balanced [] (cleanZombieHome cfg home) := by
  unfold cleanZombieHome
  refine .bind (.see _) fun _ => .ite (.bind (.see _) fun _ => ?_) (.pure _)
  exact .ite (.pure _) (balanced_cleanZombiePrisonerFiles cfg _ _ _ _)

theorem balanced_cleanZombieTasks : Balanced [] (cleanZombieTasks cfg pid) := by
  unfold cleanZombieTasks
  refine .bind (.see _) fun tasks => ?_
  have hloops (homes : List Bytes) : Balanced [] (do
      tasks.forM fun task => do
        let _ ← cleanZombieTask cfg pid task
      homes.forM fun home => do
        let _ ← cleanZombieHome cfg home : LockM Unit) := by
    refine .bind (.forM fun task => ?_) fun _ => .forM fun home => ?_
    · exact .bind (balanced_cleanZombieTask cfg pid task) fun _ => .pure _
    · exact .bind (balanced_cleanZombieHome cfg home) fun _ => .pure _
  exact .ite (.bind (.see _) hloops) (hloops [])

/-- Every operation takes the locks in order and gives them back. -/
theorem balanced_run (op : Operation) : Balanced [] (op.run cfg pid) := by
  have htask {uid : ℕ} {α : Type} {part : LockM α} (hpart : Balanced [taskLock uid] part) :
      Balanced [] (locked (taskLock uid) part) :=
    balanced_lockedTask (taskLock_ne_global uid) atMostGlobal_nil hpart
  cases op with
  | newTask draws tickets redrawn =>
    exact balanced_ignore (balanced_newTask cfg draws tickets redrawn)
  | ofTicket ticket => exact balanced_ignore (balanced_ofTicket cfg pid ticket)
  | getState pm => exact balanced_ignore (balanced_getState cfg pid pm)
  | isRunning pm => exact balanced_ignore (balanced_isRunning cfg pid pm)
  | isMonitored pm => exact balanced_ignore (balanced_isMonitored cfg pid pm)
  | hasActiveMonitor pm => exact balanced_ignore (balanced_hasActiveMonitor cfg pm)
  | setRunner pm =>
    exact balanced_ignore (.ite (.pure _) (htask (.bind (.see _) fun _ => balanced_onFiles _)))
  | setCompiler pm =>
    exact balanced_ignore (.ite (.pure _) (htask (.bind (.see _) fun _ => balanced_onFiles _)))
  | monitorize pm => exact balanced_ignore (balanced_monitorize cfg pid pm atMostGlobal_nil)
  | setExtraInfo pm el ri lang => exact balanced_ignore (htask (balanced_onFiles _))
  | getResult pm =>
    exact balanced_ignore (.ite (.throw _) (.ite (.throw _) (htask (balanced_onFiles _))))
  | getCompilation pm =>
    exact balanced_ignore (.ite (.throw _) (htask (.bind (balanced_onFiles _) fun _ => .pure _)))
  | setCompilationOutput pm compilation =>
    rw [Operation.run, setCompilationOutput]
    exact htask (balanced_onFiles _)
  | setExecutionOutput pm execution executed =>
    rw [Operation.run, setExecutionOutput]
    exact htask (balanced_onFiles _)
  | getHttpPassthroughTicket pm ticket redrawn =>
    exact balanced_ignore (balanced_lockedBoth (taskLock_ne_global _) (balanced_onFiles _))
  | getLocalWebServer pm =>
    exact balanced_ignore (htask (.bind (.see _) fun _ => balanced_onFiles _))
  | cleanTask pm => exact balanced_cleanTask cfg pid pm
  | cleanZombieTasks => exact balanced_cleanZombieTasks cfg pid

end Operations

/-! ## Runs -/

/-- No process asks for a lock of its own, has the locks of two tasks, or asks for the global lock
while it has that of a task, and no processes wait for each other in a circle. -/
structure DeadlockFree (s : System ℤ LockId Shared (Except Thrown Unit)) : Prop where
  own : ∀ pid lock, s.Requests pid lock → s.holder lock ≠ some pid
  task : ∀ pid m n, s.holder (.task m) = some pid → s.holder (.task n) = some pid → m = n
  global : ∀ pid n, s.Requests pid .global → s.holder (.task n) ≠ some pid
  circle : ∀ pid, ¬ Relation.TransGen s.WaitsFor pid pid

section Runs

variable {cfg : Configuration} {shared : Shared} {s : System ℤ LockId Shared (Except Thrown Unit)}

theorem disciplined_of_run (h : Reaches (body cfg) (System.initial shared) s) : Disciplined s :=
  disciplined_of_reaches (fun pid op => (balanced_run cfg pid op).ordered) h

/-- However many processes run operations in whatever order of their steps, there is no deadlock. -/
theorem deadlockFree_of_reaches (cfg : Configuration) (shared : Shared)
    (s : System ℤ LockId Shared (Except Thrown Unit))
    (h : Reaches (body cfg) (System.initial shared) s) : DeadlockFree s := by
  have hs := disciplined_of_run h
  refine ⟨fun pid lock hlock => ?_, fun pid m n hm hn => ?_, fun pid n hglobal hn => ?_, ?_⟩
  · exact fun hself => lt_irrefl lock (hs.lt_of_requests hlock hself)
  · -- neither lock of two tasks comes before the other
    by_contra hne
    rcases hs.lt_or_lt (fun heq => hne (LockId.task.inj heq)) hm hn with hlt | hlt
    · cases hlt.1
    · cases hlt.1
  · exact LockId.not_global_gt (hs.lt_of_requests hglobal hn)
  · exact hs.not_waitsFor

/-- A server without files. -/
def emptyServer : Shared where
  files _ := none
  dirs _ := none
  names _ := []
  processes _ := []
  env := ⟨0, fun _ => false, fun _ => false⟩
  existing _ := false
  errno := none
  fault := none

/-- A task to clean. -/
def someTask : ProcessMonitor :=
  ⟨10001, .admin, createdTask⟩

/-- An operation that starts with the global lock. -/
theorem exists_body_cleanTask (pid : ℤ) :
    ∃ next rest, body .default pid (.cleanTask someTask) = .step id next ∧
      next emptyServer = .lock .global rest := by
  have hlock : isLockName LockId.global.name = true := by decide +kernel
  have hprisoner : ¬ someTask.prisoner = 2 ^ 32 - 1 := by decide
  rw [body, Operation.run, cleanTask, if_neg hprisoner, locked, if_pos hlock]
  exact ⟨_, _, rfl, rfl⟩

/-- It comes to ask for the lock. -/
theorem exists_reaches_requests (pid : ℤ) {s : System ℤ LockId Shared (Except Thrown Unit)}
    (hidle : s.procs pid = none) (hshared : s.shared = emptyServer) :
    ∃ rest, Reaches (body .default) s
      { s with procs := Function.update s.procs pid (some (.lock .global rest)) } := by
  obtain ⟨next, rest, hbody, hnext⟩ := exists_body_cleanTask pid
  have hcall : Step (body .default) s _ := .call pid (.cleanTask someTask) hidle
  rw [hbody] at hcall
  refine ⟨rest, .tail (.single hcall) ?_⟩
  have htick : Step (body .default)
      { s with procs := Function.update s.procs pid (some (.step id next)) } _ :=
    .tick pid (Function.update_self ..)
  dsimp only at htick
  rw [hshared, hnext, Function.update_idem] at htick
  have hsame : s.shared = id emptyServer := hshared
  rw [hsame]
  exact htick

/-- One process waits for another one. -/
theorem deadlockFree_waiting : ∃ s : System ℤ LockId Shared (Except Thrown Unit),
    s.WaitsFor 2 1 ∧ DeadlockFree s := by
  obtain ⟨rest, hfirst⟩ := exists_reaches_requests 1 (s := System.initial emptyServer) rfl rfl
  obtain ⟨rest', hsecond⟩ := exists_reaches_requests 2 (s := {
    shared := emptyServer
    holder := Function.update (fun _ => none) .global (some 1)
    procs := Function.update (Function.update (fun _ => none) 1 (some (.lock .global rest))) 1
      (some rest) }) rfl rfl
  have hlock := hfirst.tail (.lock 1 (Function.update_self ..) rfl)
  refine ⟨_, ?_, deadlockFree_of_reaches .default emptyServer _ (hlock.trans hsecond)⟩
  exact ⟨.global, ⟨rest', rfl⟩, rfl⟩

/-- While operations run, one of them can go on. -/
theorem exists_running_of_reaches (h : Reaches (body cfg) (System.initial shared) s) {pid : ℤ}
    (hpid : (s.procs pid).isSome) : ∃ other, (s.procs other).isSome ∧ ∀ m, ¬ s.WaitsFor other m :=
  (disciplined_of_run h).exists_running hpid

end Runs

end VplJail.Task.Locking
