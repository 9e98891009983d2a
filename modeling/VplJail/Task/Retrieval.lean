import VplJail.Common.Interference
import VplJail.Task.Results
import VplJail.Task.Updates

/-!
# Results that are ready

A `getState` call reads the configuration under the lock, and afterwards looks at processes and files
while the child of the request goes on. It finds a result only when the child has ended
(`terminated_of_retrieve`), unless the language of the request sets another compiler in the
configuration.
-/

namespace VplJail.Task

open CriticalSection Interference ConfigurationFile Util Locked

/-! ## The child -/

/-- How far the child of `commandRequest` is. -/
inductive Stage
  | preparing
  | compiling
  | compiled
  | launching
  | running
  | saved
  | terminated
deriving DecidableEq, Repr

/-- The state that `getState` and the child share. -/
structure Machine where
  world : World
  env : Env
  child : Stage

/-- A step of the child that others can see. Between them it writes files of the home and waits for
the programs that it starts. -/
inductive Action
  | setExtraInfo (el : ExecutionLimits) (lang : Bytes)
  | setCompiler
  | setCompilationOutput (output : Bytes)
  | launch
  | setRunner
  | setExecutionOutput (output : Bytes)
  | exit

section Child

variable (cfg : Configuration) (pid : ℤ) (pm : ProcessMonitor)

/-- The machine after a section of the child under the lock. An exception ends the child. -/
def Machine.after {α : Type} (m : Machine) (out : Files × Except Thrown α) (stage : Stage) :
    Machine :=
  match out with
  | (files, .ok _) => { m with world.files := files, child := stage }
  | (files, .error _) => { m with world.files := files, child := .terminated }

/-- A compiled program is there. -/
def World.isCompiled (uid : ℕ) (w : World) : Bool :=
  w.fileExists uid vplExecution || w.fileExists uid vplWexecution ||
    w.fileExists uid vplWebexecution

/-- The child of a request that is not interactive. It may end at any time. -/
def childStep (m : Machine) : Action → Option Machine
  | .setExtraInfo el lang =>
      if m.child = .preparing ∨ m.child = .launching then
        some (m.after ((Call.run cfg ⟨pm, .setExtraInfo el false lang⟩).run m.world.files) m.child)
      else none
  | .setCompiler =>
      if m.child = .preparing then
        some (m.after ((Call.run cfg ⟨pm, .setCompiler pid m.env.now⟩).run m.world.files) .compiling)
      else none
  | .setCompilationOutput output =>
      if m.child = .compiling then
        some (m.after (Prog.runExcept (setCompilationOutput cfg output pm) m.world.files) .compiled)
      else none
  | .launch =>
      if m.child = .compiled ∧ m.world.isCompiled pm.prisoner then
        some { m with child := .launching }
      else none
  | .setRunner =>
      if m.child = .launching ∧ m.world.fileExists pm.prisoner vplExecution then
        some (m.after ((Call.run cfg ⟨pm, .setRunner pid m.env.now⟩).run m.world.files) .running)
      else none
  | .setExecutionOutput output =>
      if m.child = .running then
        some (m.after (Prog.runExcept (setExecutionOutput cfg output true pm) m.world.files) .saved)
      else none
  | .exit => if m.child = .terminated then none else some { m with child := .terminated }

/-! ## `getState` step by step -/

/-- `Util::processExistsAndRunning`. The pid of the child is its own. -/
def Machine.processExistsAndRunning (m : Machine) (p : ℤ) : Bool :=
  decide (0 < p) && if p = pid then m.child != .terminated else m.env.running p

/-- The environment of a machine. -/
def Machine.envNow (m : Machine) : Env :=
  { m.env with running := fun p => if p = pid then m.child != .terminated else m.env.running p }

/-- `controlFileExists`: the task has a file of this name. -/
def Machine.controlFileExists (uid : ℕ) (name : String) (m : Machine) : Bool :=
  m.world.controlFileExists cfg uid (ascii name)

/-- `waitExistFile`, with the number of looks left. -/
def waitExistFile (uid : ℕ) (name : String) : ℕ → Prog Machine Unit
  | 0 => .done ()
  | limit + 1 => (ask (Machine.controlFileExists cfg uid name)).bind fun found =>
      if found then .done () else waitExistFile uid name limit

/-- `cleanTask`, and the state that is returned then. -/
def cleanAndStop (info : Info) : Prog Machine (Except Thrown ProcessState) :=
  .step (fun m => { m with world := cleanTask cfg m.env { pm with info := info } m.world }) fun _ =>
    .done (.ok .stopped)

/-- `getState` once it knows that there is no runner. -/
def stateWithoutRunner (info : Info) (elapsedTime : ℤ) :
    Prog Machine (Except Thrown ProcessState) :=
  if info.monitorPid = 0 ∧ ¬ info.hasMonitorTicket ∧ monitorstartTimeout < elapsedTime then
    cleanAndStop cfg pm info
  else if info.interactive then .done (.ok .beforeRunning)
  else (waitExistFile cfg pm.prisoner "compilation" 20).bind fun _ =>
    (ask (Machine.controlFileExists cfg pm.prisoner "compilation")).bind fun compilation =>
      if compilation then
        (ask fun m => m.world.fileExists pm.prisoner vplExecution).bind fun executable =>
          .done (.ok (if executable then .compiling else .retrieve))
      else .done (.ok .stopped)

/-- `getState` once it knows that there is a runner. -/
def stateWithRunner (info : Info) : Prog Machine (Except Thrown ProcessState) :=
  (ask (Machine.processExistsAndRunning pid · info.runnerPid)).bind fun aliveRunner =>
    if aliveRunner then .done (.ok .running)
    else if info.interactive then .done (.ok .stopped)
    else (waitExistFile cfg pm.prisoner "execution" 20).bind fun _ =>
      (ask (Machine.controlFileExists cfg pm.prisoner "execution")).bind fun execution =>
        .done (.ok (if execution then .retrieve else .stopped))

/-- `getState` behind `readInfo`. -/
def stateOfInfo (info : Info) : Prog Machine (Except Thrown ProcessState) :=
  if info.compilerPid = 0 then .done (.ok .starting)
  else (ask fun m => m.env.now).bind fun currentTime =>
    if currentTime < info.startTime ∨ info.startTime = 0 then .done (.ok .starting)
    else if info.startTime + info.maxtime + harvestTimeout < currentTime then
      cleanAndStop cfg pm info
    else (ask (Machine.processExistsAndRunning pid · info.compilerPid)).bind fun aliveCompiler =>
      if aliveCompiler ∧ info.runnerPid = 0 then .done (.ok .compiling)
      else if info.monitorPid = 0 ∧ info.hasMonitorTicket ∧
          monitorstartTimeout < currentTime - info.startTime then
        cleanAndStop cfg pm info
      else if info.runnerPid = 0 then
        stateWithoutRunner cfg pm info (currentTime - info.startTime)
      else stateWithRunner cfg pid pm info

/-- `getState`. A control directory is one with a configuration. -/
def observeState : Prog Machine (Except Thrown ProcessState) :=
  (ask fun m => (m.world.files (processConfigFile cfg pm.prisoner)).isSome).bind fun dirExists =>
    if dirExists then
      (ask fun m => m.world.files (processConfigFile cfg pm.prisoner)).bind fun
        | none => .done (.ok .stopped)
        | some content =>
            match readInfo (some content) with
            | .failed => .done (.error .unreadableConfig)
            | .cleaning _ => .done (.ok .stopped)
            | .ok info => stateOfInfo cfg pid pm info
    else .done (.ok .stopped)

end Child

/-! ## A machine that stands still -/

section Still

variable (cfg : Configuration) (pid : ℤ) (pm : ProcessMonitor)

theorem run_waitExistFile (uid : ℕ) (name : String) (limit : ℕ) (m : Machine) :
    (waitExistFile cfg uid name limit).run m = (m, ()) := by
  induction limit with
  | zero => rfl
  | succ limit ih =>
    rw [waitExistFile, Prog.run_bind, run_ask]
    split
    · rfl
    · exact ih

/-- The machine and the answer for what `stateOf` tells of a task. -/
def Machine.answer (m : Machine) (info : Info) :
    Option ProcessState → Machine × Except Thrown ProcessState
  | none => ({ m with world := cleanTask cfg m.env { pm with info := info } m.world }, .ok .stopped)
  | some state => (m, .ok state)

theorem Machine.answer_ite (m : Machine) (info : Info) (p : Prop) [Decidable p]
    (a b : Option ProcessState) : m.answer cfg pm info (if p then a else b) =
      if p then m.answer cfg pm info a else m.answer cfg pm info b :=
  apply_ite (m.answer cfg pm info) p a b

theorem run_stateWithoutRunner (info : Info) (elapsedTime : ℤ) (m : Machine) :
    (stateWithoutRunner cfg pm info elapsedTime).run m = m.answer cfg pm info
      (if info.monitorPid = 0 ∧ ¬ info.hasMonitorTicket ∧ monitorstartTimeout < elapsedTime then
        none
      else if info.interactive then some .beforeRunning
      else if m.world.controlFileExists cfg pm.prisoner (ascii "compilation") then
        if m.world.fileExists pm.prisoner vplExecution then some .compiling else some .retrieve
      else some .stopped) := by
  rw [stateWithoutRunner]
  simp only [run_ite, Machine.answer_ite]
  refine ite_congr rfl (fun _ => rfl) fun _ => ite_congr rfl (fun _ => rfl) fun _ => ?_
  rw [Prog.run_bind, run_waitExistFile, run_ask_bind, run_ite]
  refine ite_congr rfl (fun _ => ?_) fun _ => rfl
  rw [run_ask_bind]
  split <;> rfl

theorem run_stateWithRunner (info : Info) (m : Machine) :
    (stateWithRunner cfg pid pm info).run m = m.answer cfg pm info
      (if (m.envNow pid).processExistsAndRunning info.runnerPid then some .running
      else if info.interactive then some .stopped
      else if m.world.controlFileExists cfg pm.prisoner (ascii "execution") then some .retrieve
      else some .stopped) := by
  rw [stateWithRunner, run_ask_bind]
  simp only [run_ite, Machine.answer_ite]
  refine ite_congr rfl (fun _ => rfl) fun _ => ite_congr rfl (fun _ => rfl) fun _ => ?_
  rw [Prog.run_bind, run_waitExistFile, run_ask_bind]
  show (m, Except.ok (if m.world.controlFileExists cfg pm.prisoner (ascii "execution") then
    ProcessState.retrieve else ProcessState.stopped)) = _
  split <;> rfl

/-- While the others rest, `stateOf` is what the reads tell. -/
theorem run_stateOfInfo (info : Info) (m : Machine) :
    (stateOfInfo cfg pid pm info).run m =
      m.answer cfg pm info (stateOf cfg (m.envNow pid) pm.prisoner info m.world) := by
  rw [stateOfInfo, stateOf]
  simp only [run_ite, run_ask_bind, Machine.answer_ite]
  refine ite_congr rfl (fun _ => rfl) fun _ => ite_congr rfl (fun _ => rfl) fun _ =>
    ite_congr rfl (fun _ => rfl) fun _ => ite_congr rfl (fun _ => rfl) fun _ =>
    ite_congr rfl (fun _ => rfl) fun _ => ite_congr rfl (fun _ => ?_) fun _ => ?_
  · rw [run_stateWithoutRunner]
    simp only [Machine.answer_ite]
    rfl
  · rw [run_stateWithRunner]
    simp only [Machine.answer_ite]

/-- While the others rest, `getState` is a single step. -/
theorem run_observeState (m : Machine) :
    (observeState cfg pid pm).run m =
      ({ m with world := (getState cfg (m.envNow pid) pm m.world).1 },
        (getState cfg (m.envNow pid) pm m.world).2.map (·.2)) := by
  rw [observeState, run_ask_bind, getState]
  cases hfile : m.world.files (processConfigFile cfg pm.prisoner) with
  | none => rfl
  | some content =>
    dsimp only [Option.isSome_some]
    rw [if_pos rfl, run_ask_bind, hfile]
    dsimp only
    cases readInfo (some content) with
    | failed => rfl
    | cleaning info => rfl
    | ok info =>
      dsimp only
      rw [run_stateOfInfo]
      cases stateOf cfg (m.envNow pid) pm.prisoner info m.world <;> rfl

end Still

/-! ## The stored pids -/

/-- `lang` as `writeConfiguration` writes it sets no compiler. -/
def SetsNoCompiler (lang : Bytes) : Prop :=
  ∀ ps, assignments (lines (entryLine (ascii "LANG", lang) ++ [10])) = some ps →
    lastValue ps (ascii "COMPILER_PID") = none

theorem isEntry_lang {lang : Bytes} (h : IsValue lang) : IsEntry (ascii "LANG", lang) :=
  ⟨isKey_of_isWord (show isWord (ascii "LANG") = true by decide +kernel), h⟩

theorem lastValue_single_ne {k v key : Bytes} (h : k ≠ key) : lastValue [(k, v)] key = none := by
  simp [lastValue, h]

/-- A language on one line sets no compiler. -/
theorem setsNoCompiler_of_isValue {lang : Bytes} (h : IsValue lang) : SetsNoCompiler lang := by
  intro ps hps
  have hentry := isEntry_lang h
  have hno : ¬ ascii "LANG" <+: ascii "COMPILER_PID" := by decide +kernel
  rw [lines_entryLine hentry] at hps
  obtain ⟨k, v, hr⟩ := readLine_entryLine hentry.1 lang
  have hne : k ≠ ascii "COMPILER_PID" := fun hk => hno (hk ▸ prefix_of_readLine hentry hr)
  have hone : assignments [entryLine (ascii "LANG", lang)] = some [(k, v)] := by
    rw [assignments, hr]
    rfl
  rw [hone] at hps
  rw [← Option.some.inj hps]
  exact lastValue_single_ne hne

section StoredPids

variable {cfg : Configuration} {pid : ℤ} {data : ConfigData} {info info' : Info}

/-- A task stored with a language differs from one without in that entry alone. -/
theorem getElem?_store_lang (info : Info) (data : ConfigData) (lang key : Bytes) :
    ({ info with lang := lang }.store data)[key]? =
      if key = ascii "LANG" then some lang else ({ info with lang := [] }.store data)[key]? := by
  have hparams (lang : Bytes) : ({ info with lang := lang } : Info).params =
      info.params.take 12 ++ ([(ascii "LANG", lang)] ++ info.params.drop 13) := rfl
  have hback : lastValue (info.params.drop 13) (ascii "LANG") = none := rfl
  have hone (lang : Bytes) : lastValue [(ascii "LANG", lang)] key =
      if key = ascii "LANG" then some lang else none := by
    by_cases h : key = ascii "LANG"
    · simp [lastValue, h]
    · simp [lastValue, h, Ne.symm h]
  rw [Info.store, Info.store, getElem?_foldl_insert, getElem?_foldl_insert, hparams lang, hparams [],
    lastValue_append, lastValue_append, lastValue_append, lastValue_append, hone, hone]
  by_cases h : key = ascii "LANG"
  · rw [h, hback]
    simp
  · simp [h]

/-- The pids that are stored are read back if the language sets no compiler. -/
theorem pids_of_store {data' : ConfigData} (hdata : Storable data)
    (hinfo : { info with lang := [] }.Storable) (hlang : SetsNoCompiler info.lang)
    (hcompiler : -2 ^ 31 ≤ info.compilerPid ∧ info.compilerPid < 2 ^ 31)
    (hrunner : -2 ^ 31 ≤ info.runnerPid ∧ info.runnerPid < 2 ^ 31)
    (hdata' : readConfiguration (serialize (info.store data)) ∅ = some data') :
    (Info.ofData data').compilerPid = info.compilerPid ∧
      (Info.ofData data').runnerPid = info.runnerPid := by
  have hvalue : (info.store data)[ascii "LANG"]? = some info.lang := by
    exact (getElem?_store_lang info data info.lang _).trans (if_pos rfl)
  have hrest : ∀ k v, k ≠ ascii "LANG" → (info.store data)[k]? = some v → IsEntry (k, v) := by
    intro k v hk hv
    have hrest := (getElem?_store_lang info data info.lang k).trans (if_neg hk)
    exact hinfo.store hdata k v (hrest.symm.trans hv)
  have hkey (key : Bytes) (n : ℤ) (hn : -2 ^ 31 ≤ n ∧ n < 2 ^ 31) (heq : (61 : UInt8) ∉ key)
      (hstored : (info.store data)[key]? = some (itos n))
      (hlines : compare key (ascii "LANG") = .gt ∨ compare key (ascii "LANG") = .lt ∧
        ∀ os, assignments (lines (entryLine (ascii "LANG", info.lang) ++ [10])) = some os →
          lastValue os key = none) : atoi (valueOf data' key) = n := by
    have hback := getElem?_of_readConfiguration_around hvalue hrest hstored (isPlain_itos heq n)
      hlines hdata'
    rw [valueOf, hback, Option.getD_some, atoi_itos hn.1 hn.2]
  constructor
  · refine hkey (ascii "COMPILER_PID") _ hcompiler (by decide +kernel) ?_
      (.inr ⟨by decide +kernel, hlang⟩)
    rw [Info.store, getElem?_foldl_insert]
    rfl
  · refine hkey (ascii "RUNNER_PID") _ hrunner (by decide +kernel) ?_ (.inl (by decide +kernel))
    rw [Info.store, getElem?_foldl_insert]
    rfl

/-- A pid that is not set, or that of the child. -/
def IsOwn (pid p : ℤ) : Prop := p = 0 ∨ p = pid

/-- The pids of the stored task are those that the child has set. -/
def OwnPids (cfg : Configuration) (pid : ℤ) (uid : ℕ) (files : Files) : Prop :=
  ∀ data, readTask (files (processConfigFile cfg uid)) = some data →
    IsOwn pid (Info.ofData data).compilerPid ∧ IsOwn pid (Info.ofData data).runnerPid

theorem IsOwn.bounds {p : ℤ} (h : IsOwn pid p) (hpid : 0 < pid ∧ pid < 2 ^ 31) :
    -2 ^ 31 ≤ p ∧ p < 2 ^ 31 := by
  rcases h with rfl | rfl <;> omega

theorem storable_of_readTask {config : Option Bytes} {data : ConfigData}
    (h : readTask config = some data) : Storable data := by
  obtain ⟨content, -, hread⟩ := Option.bind_eq_some_iff.mp (readTask.eq_1 config ▸ h)
  exact storable_readConfiguration hread

/-- The pids of a task that a call stores. -/
theorem ownPids_call (hpid : 0 < pid ∧ pid < 2 ^ 31) {c : Call} {files : Files}
    (hown : OwnPids cfg pid c.pm.prisoner files)
    (hfields : ∀ info info', info.Storable → c.update.fields cfg files info = some info' →
      { info' with lang := [] }.Storable ∧ SetsNoCompiler info'.lang ∧
        (IsOwn pid info.compilerPid → IsOwn pid info'.compilerPid) ∧
        (IsOwn pid info.runnerPid → IsOwn pid info'.runnerPid)) :
    OwnPids cfg pid c.pm.prisoner ((c.run cfg).run files).1 := by
  intro data' h
  rw [config_run] at h
  cases hstored : c.stored cfg files with
  | none =>
    rw [hstored] at h
    exact hown data' h
  | some data =>
    rw [hstored, readTask, Option.bind_some] at h
    obtain ⟨read, info', hread, hfield, rfl⟩ := exists_of_stored hstored
    have hstorable := storable_of_readTask hread
    obtain ⟨hinfo', hlang, hcompiler, hrunner⟩ :=
      hfields _ info' (Info.storable_ofData hstorable) hfield
    have hcompiler := hcompiler (hown read hread).1
    have hrunner := hrunner (hown read hread).2
    have hback := pids_of_store hstorable hinfo' hlang (hcompiler.bounds hpid)
      (hrunner.bounds hpid) h
    rw [hback.1, hback.2]
    exact ⟨hcompiler, hrunner⟩

end StoredPids

/-! ## Runs -/

section Runs

variable (cfg : Configuration) (pid : ℤ) (pm : ProcessMonitor)

/-- The actions of the child but those that store a language which sets a compiler. -/
def Action.IsSafe : Action → Prop
  | .setExtraInfo _ lang => SetsNoCompiler lang
  | _ => True

/-- The stored pids stay as they are, if there are any. -/
def SamePids (uid : ℕ) (files files' : Files) : Prop :=
  ∀ data', readTask (files' (processConfigFile cfg uid)) = some data' →
    ∃ data, readTask (files (processConfigFile cfg uid)) = some data ∧
      (Info.ofData data').compilerPid = (Info.ofData data).compilerPid ∧
      (Info.ofData data').runnerPid = (Info.ofData data).runnerPid

/-- A step of the child, or anything that the programs of the prisoner, the other processes of the
server and time change while the pids stay as they are. -/
inductive MachineStep (allowed : Action → Prop) (m m' : Machine) : Prop
  | child {a : Action} (hallowed : allowed a) (h : childStep cfg pid pm m a = some m')
  | others (hchild : m'.child = m.child)
      (hpids : SamePids cfg pm.prisoner m.world.files m'.world.files)

/-- A task as `commandRequest` hands it to its child. -/
structure Fresh (m : Machine) : Prop where
  child : m.child = .preparing
  pids : OwnPids cfg 0 pm.prisoner m.world.files

end Runs

section Steps

variable {cfg : Configuration} {pid : ℤ} {pm : ProcessMonitor} {m m' : Machine}

@[simp] theorem Machine.after_files {α : Type} (m : Machine) (out : Files × Except Thrown α)
    (stage : Stage) : (m.after out stage).world.files = out.1 := by
  rcases out with ⟨files, _ | _⟩ <;> rfl

/-- A saved file changes no other. -/
theorem saveFile_of_ne {path k : Bytes} (h : k ≠ path) (content : Bytes) (files : Files) :
    (Prog.runExcept (saveFile path content) files).1 k = files k := by
  rw [saveFile, Prog.runExcept_ite]
  split
  · rw [run_putFile]
    exact Function.update_of_ne h _ _
  · rfl

theorem setCompilationOutput_config (output : Bytes) (pm : ProcessMonitor) (files : Files) :
    (Prog.runExcept (setCompilationOutput cfg output pm) files).1
      (processConfigFile cfg pm.prisoner) = files (processConfigFile cfg pm.prisoner) := by
  rw [setCompilationOutput, Prog.runExcept_bind, run_loadInfo]
  cases infoOrThrow (files (processConfigFile cfg pm.prisoner)) with
  | error e => rfl
  | ok info =>
    dsimp only
    rw [Prog.runExcept_bind, run_look]
    dsimp only
    rw [Prog.runExcept_ite]
    split
    · rfl
    · exact saveFile_of_ne (controlFile_ne_config (by decide +kernel)).symm _ _

theorem setExecutionOutput_config (output : Bytes) (executed : Bool) (pm : ProcessMonitor)
    (files : Files) :
    (Prog.runExcept (setExecutionOutput cfg output executed pm) files).1
      (processConfigFile cfg pm.prisoner) = files (processConfigFile cfg pm.prisoner) := by
  rw [setExecutionOutput, Prog.runExcept_bind, run_loadInfo]
  cases infoOrThrow (files (processConfigFile cfg pm.prisoner)) with
  | error e => rfl
  | ok info =>
    dsimp only
    rw [Prog.runExcept_bind, run_look]
    dsimp only
    rw [Prog.runExcept_ite, Prog.runExcept_ite]
    split
    · rfl
    · split
      · rw [Prog.runExcept_bind, run_look]
        dsimp only
        rw [Prog.runExcept_ite]
        split
        · rfl
        · exact saveFile_of_ne (controlFile_ne_config (by decide +kernel)).symm _ _
      · rfl

theorem OwnPids.congr {uid : ℕ} {files files' : Files} (h : OwnPids cfg pid uid files)
    (heq : files' (processConfigFile cfg uid) = files (processConfigFile cfg uid)) :
    OwnPids cfg pid uid files' := by
  intro data hdata
  rw [heq] at hdata
  exact h data hdata

/-- A step of the child stores no pid but its own. -/
theorem ownPids_childStep (hpid : 0 < pid ∧ pid < 2 ^ 31) {a : Action} (hsafe : a.IsSafe)
    (hown : OwnPids cfg pid pm.prisoner m.world.files)
    (h : childStep cfg pid pm m a = some m') : OwnPids cfg pid pm.prisoner m'.world.files := by
  cases a with
  | setExtraInfo el lang =>
    rw [childStep, Option.ite_none_right_eq_some] at h
    obtain ⟨-, rfl⟩ := h.imp_right Option.some.inj
    rw [Machine.after_files]
    refine ownPids_call hpid hown fun info info' hinfo hfields => ?_
    obtain rfl := Option.some.inj hfields
    exact ⟨{ hinfo with lang := isValue_nil }, hsafe, id, id⟩
  | setCompiler =>
    rw [childStep, Option.ite_none_right_eq_some] at h
    obtain ⟨-, rfl⟩ := h.imp_right Option.some.inj
    rw [Machine.after_files]
    refine ownPids_call hpid hown fun info info' hinfo hfields => ?_
    obtain rfl := Option.some.inj hfields
    -- the language is kept, and what was read fits on its line
    exact ⟨{ hinfo with lang := isValue_nil }, setsNoCompiler_of_isValue hinfo.lang,
      fun _ => .inr rfl, id⟩
  | setCompilationOutput output =>
    rw [childStep, Option.ite_none_right_eq_some] at h
    obtain ⟨-, rfl⟩ := h.imp_right Option.some.inj
    rw [Machine.after_files]
    exact hown.congr (setCompilationOutput_config output pm _)
  | launch =>
    rw [childStep, Option.ite_none_right_eq_some] at h
    obtain ⟨-, rfl⟩ := h.imp_right Option.some.inj
    exact hown
  | setRunner =>
    rw [childStep, Option.ite_none_right_eq_some] at h
    obtain ⟨-, rfl⟩ := h.imp_right Option.some.inj
    rw [Machine.after_files]
    refine ownPids_call hpid hown fun info info' hinfo hfields => ?_
    obtain rfl := Option.some.inj hfields
    exact ⟨{ hinfo with lang := isValue_nil }, setsNoCompiler_of_isValue hinfo.lang, id,
      fun _ => .inr rfl⟩
  | setExecutionOutput output =>
    rw [childStep, Option.ite_none_right_eq_some] at h
    obtain ⟨-, rfl⟩ := h.imp_right Option.some.inj
    rw [Machine.after_files]
    exact hown.congr (setExecutionOutput_config output true pm _)
  | exit =>
    rw [childStep, Option.ite_none_left_eq_some] at h
    obtain ⟨-, rfl⟩ := h.imp_right Option.some.inj
    exact hown

/-- A child that has ended does nothing more. -/
theorem childStep_terminated (h : m.child = .terminated) (a : Action) :
    childStep cfg pid pm m a = none := by
  cases a <;> simp [childStep, h]

/-- Own pids are kept. -/
theorem stable_ownPids (hpid : 0 < pid ∧ pid < 2 ^ 31) :
    Stable (MachineStep cfg pid pm Action.IsSafe)
      fun m => OwnPids cfg pid pm.prisoner m.world.files := by
  intro m m' hstep hown
  cases hstep with
  | child hsafe h => exact ownPids_childStep hpid hsafe hown h
  | others _ hpids =>
    intro data' hdata'
    obtain ⟨data, hdata, hcompiler, hrunner⟩ := hpids data' hdata'
    rw [hcompiler, hrunner]
    exact hown data hdata

/-- The end of the child is its end. -/
theorem stable_terminated (allowed : Action → Prop) :
    Stable (MachineStep cfg pid pm allowed) fun m => m.child = .terminated := by
  intro m m' hstep hend
  cases hstep with
  | child _ h =>
    rw [childStep_terminated hend] at h
    cases h
  | others hchild _ => exact hchild.trans hend

end Steps

/-! ## What `getState` knows -/

section Observe

variable {cfg : Configuration} {pid : ℤ} {pm : ProcessMonitor} {K : Machine → Prop}

/-- A result is reported for work that is done. -/
def OnlyFinished (r : Except Thrown ProcessState) (m : Machine) : Prop :=
  r = .ok .retrieve → m.child = .terminated

theorem quiet_waitExistFile (uid : ℕ) (name : String) (limit : ℕ) :
    Quiet (waitExistFile cfg uid name limit) := by
  induction limit with
  | zero => trivial
  | succ limit ih =>
    refine (quiet_ask _).bind fun found => ?_
    split
    · trivial
    · exact ih

theorem stable_true (R : Machine → Machine → Prop) : Stable R fun _ => True :=
  fun _ _ _ h => h

/-- No result is reported for a task that is stopped. -/
theorem knows_cleanAndStop (R : Machine → Machine → Prop) (info : Info) :
    Knows R OnlyFinished (cleanAndStop cfg pm info) K :=
  fun _ _ => ⟨fun _ => True, stable_true R, trivial, fun _ _ => nofun⟩

variable {allowed : Action → Prop}

/-- Without a runner, the end of the child has been seen. -/
theorem knows_stateWithoutRunner (info : Info) (elapsedTime : ℤ) :
    Knows (MachineStep cfg pid pm allowed) OnlyFinished
      (stateWithoutRunner cfg pm info elapsedTime) fun m => m.child = .terminated := by
  rw [stateWithoutRunner]
  split
  · exact knows_cleanAndStop _ info
  split
  · exact .done_of fun _ => nofun
  refine .of_quiet ?_ (stable_terminated allowed) fun r m hend _ => hend
  refine (quiet_waitExistFile _ _ _).bind fun _ => (quiet_ask _).bind fun compilation => ?_
  split
  · exact (quiet_ask _).bind fun _ => trivial
  · trivial

/-- A runner that is the child and does not run has ended. -/
theorem knows_stateWithRunner (hpid : 0 < pid) {info : Info} (hrunner : info.runnerPid = pid) :
    Knows (MachineStep cfg pid pm allowed) OnlyFinished (stateWithRunner cfg pid pm info) K := by
  refine .ask fun m _ => ?_
  by_cases halive : m.child = .terminated
  · refine ⟨_, stable_terminated allowed, halive, ?_⟩
    split
    · exact .done_of fun _ => nofun
    split
    · exact .done_of fun _ => nofun
    refine .of_quiet ?_ (stable_terminated allowed) fun r m hend _ => hend
    exact (quiet_waitExistFile _ _ _).bind fun _ => (quiet_ask _).bind fun _ => trivial
  · have hrun : m.processExistsAndRunning pid info.runnerPid = true := by
      simp [Machine.processExistsAndRunning, hrunner, hpid, halive]
    rw [hrun]
    exact ⟨fun _ => True, stable_true _, trivial, .done_of fun _ => nofun⟩

/-- The outline of `getState` behind `readInfo`. -/
theorem knows_stateOfInfo (hpid : 0 < pid) {info : Info} (hcompiler : IsOwn pid info.compilerPid)
    (hrunner : IsOwn pid info.runnerPid) :
    Knows (MachineStep cfg pid pm allowed) OnlyFinished (stateOfInfo cfg pid pm info)
      fun _ => True := by
  rw [stateOfInfo]
  split
  · exact .done_of fun _ => nofun
  rename_i hset
  have hcompiler : info.compilerPid = pid := hcompiler.resolve_left hset
  refine .ask_same (stable_true _) fun currentTime => ?_
  split
  · exact .done_of fun _ => nofun
  split
  · exact knows_cleanAndStop _ info
  refine .ask fun m _ => ?_
  by_cases halive : m.child = .terminated
  · -- the child is seen to have ended, whatever is looked at next
    refine ⟨_, stable_terminated allowed, halive, ?_⟩
    split
    · exact .done_of fun _ => nofun
    split
    · exact knows_cleanAndStop _ info
    split
    · exact knows_stateWithoutRunner info _
    · rename_i hrun
      exact knows_stateWithRunner hpid (hrunner.resolve_left hrun)
  · have hrun : m.processExistsAndRunning pid info.compilerPid = true := by
      simp [Machine.processExistsAndRunning, hcompiler, hpid, halive]
    refine ⟨fun _ => True, stable_true _, trivial, ?_⟩
    rw [hrun]
    split
    · exact .done_of fun _ => nofun
    rename_i hrunnerPid
    have hrunnerPid : info.runnerPid ≠ 0 := fun h => hrunnerPid ⟨rfl, h⟩
    split
    · exact knows_cleanAndStop _ info
    exact knows_stateWithRunner hpid (hrunner.resolve_left hrunnerPid)

/-- The outline of `getState`. -/
theorem knows_observeState (hpid : 0 < pid ∧ pid < 2 ^ 31) :
    Knows (MachineStep cfg pid pm Action.IsSafe) OnlyFinished (observeState cfg pid pm)
      fun m => OwnPids cfg pid pm.prisoner m.world.files := by
  refine .ask_same (stable_ownPids hpid) fun dirExists => ?_
  split
  swap
  · exact .done_of fun _ => nofun
  refine .ask fun m hown => ⟨fun _ => True, stable_true _, trivial, ?_⟩
  cases hfile : m.world.files (processConfigFile cfg pm.prisoner) with
  | none => exact .done_of fun _ => nofun
  | some content =>
    dsimp only
    cases hinfo : readInfo (some content) with
    | failed => exact .done_of fun _ => nofun
    | cleaning info => exact .done_of fun _ => nofun
    | ok info =>
      obtain ⟨_, data, hcontent, hread, rfl⟩ := readTask_of_readInfo hinfo
      obtain ⟨hcompiler, hrunner⟩ := hown data (by rw [hfile, hcontent]; exact hread)
      exact knows_stateOfInfo hpid.1 hcompiler hrunner

/-- A result is reported when the child has ended, and then the child does nothing more. -/
theorem terminated_of_retrieve (hpid : 0 < pid ∧ pid < 2 ^ 31) {m m' : Machine}
    (hfresh : Fresh cfg pm m)
    (hreach : Reaches (MachineStep cfg pid pm Action.IsSafe) (m, observeState cfg pid pm)
      (m', .done (.ok .retrieve))) :
    m'.child = .terminated ∧
      ∀ later, Relation.ReflTransGen (MachineStep cfg pid pm Action.IsSafe) m' later →
        later.child = .terminated ∧ ∀ a, childStep cfg pid pm later a = none := by
  have hown : OwnPids cfg pid pm.prisoner m.world.files := by
    intro data hdata
    obtain ⟨hcompiler, hrunner⟩ := hfresh.pids data hdata
    exact ⟨.inl (hcompiler.elim id id), .inl (hrunner.elim id id)⟩
  have hend := (knows_observeState hpid).of_reaches (stable_ownPids hpid) hown hreach rfl
  refine ⟨hend, fun later hlater => ?_⟩
  have hlater := invariant_of_reaches (fun m m' hm hstep => stable_terminated _ m m' hstep hm)
    hlater hend
  exact ⟨hlater, childStep_terminated hlater⟩

end Observe

/-! ## A language that sets a compiler -/

/-- The created task, with nothing compiled. -/
def createdMachine : Machine where
  world := ⟨createdFiles, fun _ => none, fun _ => []⟩
  env := ⟨1000, fun _ => false, fun _ => false⟩
  child := .preparing

/-- The created task in the memory of its child. -/
def createdMonitor : ProcessMonitor := ⟨10001, .admin, createdTask⟩

theorem fresh_createdMachine : Fresh .default createdMonitor createdMachine := by
  refine ⟨rfl, fun data hdata => ?_⟩
  have hinfo : readInfo (createdFiles (processConfigFile .default 10001)) = .ok createdTask := by
    rw [createdFiles, if_pos rfl]
    exact readInfo_serialize_store fits_createdTask isPlainData_empty
  obtain ⟨content, data', hcontent, hread, hfields⟩ := readTask_of_readInfo hinfo
  have hread : readTask (createdFiles (processConfigFile .default 10001)) = some data' := by
    rw [hcontent]
    exact hread
  obtain rfl := Option.some.inj (hdata.symm.trans hread)
  rw [← hfields]
  exact ⟨.inl rfl, .inl rfl⟩

/-- A child whose compilation fails, and that is asked for its state afterwards. -/
def compilationFails : List (Option {a : Action // a.IsSafe}) :=
  [some ⟨.setExtraInfo ⟨10, 10, 10, 10⟩ (ascii "c"),
      setsNoCompiler_of_isValue ⟨by decide +kernel, by decide +kernel, by decide +kernel⟩⟩,
    some ⟨.setCompiler, trivial⟩, some ⟨.setCompilationOutput (ascii "error"), trivial⟩,
    some ⟨.exit, trivial⟩] ++ List.replicate 7 none

theorem terminated_of_retrieve_compilationFails :
    ∃ m', Reaches (MachineStep .default 300 createdMonitor Action.IsSafe)
        (createdMachine, observeState .default 300 createdMonitor) (m', .done (.ok .retrieve)) ∧
      m'.child = .terminated := by
  have hreach := @reaches_of_result _ _ (MachineStep .default 300 createdMonitor Action.IsSafe) _
    (fun m (a : {a : Action // a.IsSafe}) => childStep .default 300 createdMonitor m a.1)
    (fun a _ _ h => .child a.2 h) compilationFails
    (createdMachine, observeState .default 300 createdMonitor) (.ok .retrieve) (by decide +kernel)
  exact ⟨_, hreach, (terminated_of_retrieve (by decide) fresh_createdMachine hreach).1⟩

/-- A request whose language sets a compiler, which is asked for its state while the child goes
on. -/
def languageSetsCompiler : List (Option Action) :=
  [some (.setExtraInfo ⟨10, 10, 10, 10⟩ (ascii "c\nCOMPILER_PID=9999")), none, none,
    some .setCompiler, some (.setCompilationOutput (ascii "error"))] ++ List.replicate 5 none

/-- The child is there when its result is reported. -/
theorem not_terminated_of_retrieve :
    Fresh .default createdMonitor createdMachine ∧
      ¬ ∀ m', Reaches (MachineStep .default 300 createdMonitor fun _ => True)
          (createdMachine, observeState .default 300 createdMonitor) (m', .done (.ok .retrieve)) →
        m'.child = .terminated := by
  refine ⟨fresh_createdMachine, fun h => ?_⟩
  obtain ⟨hresult, hchild⟩ : result (runSchedule (childStep .default 300 createdMonitor)
        languageSetsCompiler (createdMachine, observeState .default 300 createdMonitor)).2 =
          some (.ok .retrieve) ∧
      (runSchedule (childStep .default 300 createdMonitor) languageSetsCompiler
        (createdMachine, observeState .default 300 createdMonitor)).1.child = .compiled := by
    decide +kernel
  have hreach := @reaches_of_result _ _ (MachineStep .default 300 createdMonitor fun _ => True) _
    (childStep .default 300 createdMonitor) (fun _ _ _ h => .child trivial h) languageSetsCompiler _
    _ hresult
  rw [h _ hreach] at hchild
  cases hchild

end VplJail.Task
