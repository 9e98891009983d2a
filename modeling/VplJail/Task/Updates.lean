import VplJail.Task.Sections
import VplJail.Task.Survival

/-!
# Updates of the stored task

Six operations set fields of the stored task. Each writes all the fields, but it has read them again
under the lock, so that it sets its own (`updates_of_survives`) and no update is lost
(`no_lost_update`), as long as what is stored is read back.
-/

namespace VplJail.Task.Locked

open CriticalSection ConfigurationFile Util

/-! ## The operations -/

/-- An operation that sets fields, with what its process brings. -/
inductive Update
  | setExtraInfo (el : ExecutionLimits) (ri : Bool) (lang : Bytes)
  | setCompiler (pid now : ℤ)
  | setRunner (pid now : ℤ)
  | monitorize (pid : ℤ)
  | getHttpPassthroughTicket (ticket : Digits) (redrawn : List Digits)
  | getLocalWebServer (address : Option Bytes)

/-- A call of an operation on the copy of the task that its process has in memory. -/
structure Call where
  pm : ProcessMonitor
  update : Update

/-- The steps of an operation. -/
def Update.run (cfg : Configuration) : Update → ProcessMonitor → FileM ProcessMonitor
  | setExtraInfo el ri lang => Locked.setExtraInfo cfg el ri lang
  | setCompiler pid now => Locked.setCompiler cfg pid now
  | setRunner pid now => Locked.setRunner cfg pid now
  | monitorize pid => Locked.monitorize cfg pid
  | getHttpPassthroughTicket ticket redrawn => Locked.getHttpPassthroughTicket cfg ticket redrawn
  | getLocalWebServer address => Locked.getLocalWebServer cfg address

/-- The steps of a call. -/
def Call.run (cfg : Configuration) (c : Call) : Prog Files (Except Thrown ProcessMonitor) :=
  (c.update.run cfg c.pm).run

/-- The keys of the fields that an operation may set. -/
def Update.keys : Update → List Bytes
  | setExtraInfo _ _ _ => [ascii "MAXTIME", ascii "MAXFILESIZE", ascii "MAXMEMORY",
      ascii "MAXPROCESSES", ascii "INTERACTIVE", ascii "LANG"]
  | setCompiler _ _ => [ascii "COMPILER_PID", ascii "STARTTIME"]
  | setRunner _ _ => [ascii "RUNNER_PID", ascii "STARTTIME"]
  | monitorize _ => [ascii "MONITOR_PID"]
  | getHttpPassthroughTicket _ _ => [ascii "HTTPPASSTHROUGHTTICKET"]
  | getLocalWebServer _ => [addressKey]

/-! ## What an operation stores -/

/-- An operation that returns before it reads the task. -/
def Update.isIdle (security : SecurityLevel) : Update → Bool
  | setCompiler _ _ => security = .monitor
  | setRunner _ _ => security = .monitor
  | monitorize _ => security ≠ .monitor
  | _ => false

/-- The fields that an operation stores for a task that it has read. -/
def Update.fields (cfg : Configuration) (files : Files) (info : Info) : Update → Option Info
  | setExtraInfo el ri lang => some { info with
      maxtime := el.maxtime
      maxfilesize := el.maxfilesize
      maxmemory := el.maxmemory
      maxprocesses := el.maxprocesses
      interactive := ri
      lang := lang }
  | setCompiler pid now => some { info with startTime := now, compilerPid := pid }
  | setRunner pid now => some { info with startTime := now, runnerPid := pid }
  | monitorize pid => if info.monitorPid ≠ 0 then none else some { info with monitorPid := pid }
  | getHttpPassthroughTicket ticket redrawn =>
      if info.httpPassthroughticket ≠ [] then none
      else some { info with httpPassthroughticket := drawnTicket cfg files ticket redrawn }
  | getLocalWebServer address =>
      if info.localwebserver = [] then address.map fun address =>
        { info with localwebserver := address }
      else none

/-- The configuration that a call stores, if it does. -/
def Call.stored (cfg : Configuration) (files : Files) (c : Call) : Option ConfigData :=
  if c.update.isIdle c.pm.security then none
  else match infoOrThrow (files (processConfigFile cfg c.pm.prisoner)) with
    | .error _ => none
    | .ok info => (c.update.fields cfg files info).bind fun info' =>
        (readTask (files (processConfigFile cfg c.pm.prisoner))).map info'.store

/-- The files that an operation leaves before it stores the task. -/
def Update.change (cfg : Configuration) (uid : ℕ) (files : Files) (info : Info) :
    Update → Files × Except Thrown (Option Info)
  | monitorize pid =>
      (files, if info.monitorPid ≠ 0 then .error (.text "Process already monitorized")
        else .ok (some { info with monitorPid := pid }))
  | getHttpPassthroughTicket ticket redrawn =>
      if info.httpPassthroughticket ≠ [] then (files, .ok none)
      else
        let drawn := drawnTicket cfg files ticket redrawn
        (Function.update files (ticketPath cfg drawn) (some (ticketContent uid (ascii "3"))),
          .ok (some { info with httpPassthroughticket := drawn }))
  | u => (files, .ok (u.fields cfg files info))

section Effect

variable {cfg : Configuration}

/-- The fields of an operation, once its task has been read. -/
theorem run_changeInfo_of (u : Update) {change : Info → FileM (Option Info)} {pm : ProcessMonitor}
    {files : Files}
    (h : ∀ info, Prog.runExcept (change info) files = u.change cfg pm.prisoner files info) :
    Prog.runExcept (changeInfo cfg change pm) files =
      match infoOrThrow (files (processConfigFile cfg pm.prisoner)) with
      | .error e => (files, .error e)
      | .ok info => afterChange cfg pm (u.change cfg pm.prisoner files info) info := by
  rw [run_changeInfo]
  cases infoOrThrow (files (processConfigFile cfg pm.prisoner)) with
  | error e => rfl
  | ok info =>
    dsimp only
    rw [h info]

/-- What an operation does to the files. -/
theorem run_update (u : Update) (pm : ProcessMonitor) (files : Files) :
    Prog.runExcept (u.run cfg pm) files =
      if u.isIdle pm.security then (files, .ok pm)
      else match infoOrThrow (files (processConfigFile cfg pm.prisoner)) with
        | .error e => (files, .error e)
        | .ok info => afterChange cfg pm (u.change cfg pm.prisoner files info) info := by
  cases u with
  | setExtraInfo el ri lang => exact run_changeInfo_of (.setExtraInfo el ri lang) fun _ => rfl
  | setCompiler pid now =>
    rw [Update.run, setCompiler, Prog.runExcept_ite, Update.isIdle]
    exact ite_congr decide_eq_true_eq.symm (fun _ => rfl) fun _ =>
      run_changeInfo_of (.setCompiler pid now) fun _ => rfl
  | setRunner pid now =>
    rw [Update.run, setRunner, Prog.runExcept_ite, Update.isIdle]
    exact ite_congr decide_eq_true_eq.symm (fun _ => rfl) fun _ =>
      run_changeInfo_of (.setRunner pid now) fun _ => rfl
  | monitorize pid =>
    rw [Update.run, monitorize, Prog.runExcept_ite, Update.isIdle]
    refine ite_congr decide_eq_true_eq.symm (fun _ => rfl) fun _ =>
      run_changeInfo_of (.monitorize pid) fun info => ?_
    rw [Prog.runExcept_ite, Update.change]
    split <;> rfl
  | getHttpPassthroughTicket ticket redrawn =>
    refine run_changeInfo_of (.getHttpPassthroughTicket ticket redrawn) fun info => ?_
    rw [Prog.runExcept_ite, Update.change]
    refine ite_congr rfl (fun _ => rfl) fun _ => ?_
    rw [Prog.runExcept_bind, run_drawTicket]
    dsimp only
    rw [Prog.runExcept_bind, run_putFile]
    rfl
  | getLocalWebServer address =>
    exact run_changeInfo_of (.getLocalWebServer address) fun _ => rfl

variable (cfg) in
/-- An operation leaves the configuration as it was until it stores the task. -/
theorem change_config (u : Update) (uid : ℕ) (files : Files) (info : Info) :
    (u.change cfg uid files info).1 (processConfigFile cfg uid) =
      files (processConfigFile cfg uid) := by
  cases u with
  | getHttpPassthroughTicket ticket redrawn =>
    rw [Update.change]
    split
    · rfl
    · exact Function.update_of_ne (ticketPath_ne_configFile _ _).symm _ _
  | _ => rfl

variable (cfg) in
/-- It sets the fields that it is about to store. -/
theorem change_fields (u : Update) (uid : ℕ) (files : Files) (info : Info) :
    (∃ e, (u.change cfg uid files info).2 = .error e) ∧ u.fields cfg files info = none ∨
      (u.change cfg uid files info).2 = .ok (u.fields cfg files info) := by
  cases u with
  | monitorize pid =>
    rw [Update.change, Update.fields]
    split
    · exact .inl ⟨⟨_, rfl⟩, rfl⟩
    · exact .inr rfl
  | getHttpPassthroughTicket ticket redrawn =>
    rw [Update.change, Update.fields]
    split <;> exact .inr rfl
  | _ => exact .inr rfl

/-- A task that has been read is written over what has been read. -/
theorem writeInfo_of_infoOrThrow {config : Option Bytes} {info : Info}
    (h : infoOrThrow config = .ok info) (info' : Info) :
    ∃ data, readTask config = some data ∧ info = Info.ofData data ∧
      writeInfo config info' ∅ = some (serialize (info'.store data)) := by
  obtain ⟨content, data, rfl, hread, rfl⟩ := readTask_of_readInfo (infoOrThrow_eq_ok h)
  exact ⟨data, hread, rfl, by rw [writeInfo, hread, Option.map_some]⟩

variable (cfg) in
/-- What a call does to the configuration. -/
theorem config_run (c : Call) (files : Files) :
    ((c.run cfg).run files).1 (processConfigFile cfg c.pm.prisoner) =
      match c.stored cfg files with
      | none => files (processConfigFile cfg c.pm.prisoner)
      | some data => some (serialize data) := by
  have hrun : (c.run cfg).run files = Prog.runExcept (c.update.run cfg c.pm) files := rfl
  rw [hrun, run_update, Call.stored]
  split
  · rfl
  cases hinfo : infoOrThrow (files (processConfigFile cfg c.pm.prisoner)) with
  | error e => rfl
  | ok info =>
    dsimp only
    have hconfig := change_config cfg c.update c.pm.prisoner files info
    have hfields := change_fields cfg c.update c.pm.prisoner files info
    generalize c.update.change cfg c.pm.prisoner files info = outcome at hconfig hfields ⊢
    obtain ⟨files', r⟩ := outcome
    dsimp only at hconfig hfields
    rcases hfields with ⟨⟨e, rfl⟩, hnone⟩ | rfl
    · rw [hnone]
      exact hconfig
    · cases c.update.fields cfg files info with
      | none => exact hconfig
      | some info' =>
        obtain ⟨data, hread, -, hwrite⟩ := writeInfo_of_infoOrThrow hinfo info'
        rw [Option.bind_some, hread, afterChange, hconfig, hwrite]
        exact Function.update_self ..

end Effect

/-! ## The fields of an operation -/

/-- The configuration after a call on a task that is read as `data`: the fields of the operation are
set, unless it returns before it reads the task, is refused by a task that is being cleaned, or finds
nothing to set. -/
def Call.result (cfg : Configuration) (files : Files) (c : Call) (data : ConfigData) : ConfigData :=
  if c.update.isIdle c.pm.security ∨ (Info.ofData data).cleaning then data
  else (c.update.fields cfg files (Info.ofData data)).elim data fun info => info.store data

/-- What is read of the task after a call is what was read before it with the fields of the operation
set. -/
def Updates (cfg : Configuration) (uid : ℕ) (c : Call) (files files' : Files) : Prop :=
  ∃ data data', readTask (files (processConfigFile cfg uid)) = some data ∧
    readTask (files' (processConfigFile cfg uid)) = some data' ∧
    ∀ key : Bytes, data'[key]? = (c.result cfg files data)[key]?

/-- Every value is the same, but for some keys. -/
def ChangesOnly (cfg : Configuration) (uid : ℕ) (keys : List Bytes) (files files' : Files) : Prop :=
  ∃ data data', readTask (files (processConfigFile cfg uid)) = some data ∧
    readTask (files' (processConfigFile cfg uid)) = some data' ∧
    ∀ key : Bytes, key ∉ keys → data'[key]? = data[key]?

/-- The assignments of two tasks agree but for some keys. -/
def AgreeOff (keys : List Bytes) (p q : Bytes × Bytes) : Prop :=
  p.1 = q.1 ∧ (p.1 ∈ keys ∨ p.2 = q.2)

theorem lastValue_congr {keys : List Bytes} {ps qs : List (Bytes × Bytes)}
    (h : List.Forall₂ (AgreeOff keys) ps qs) {key : Bytes} (hkey : key ∉ keys) :
    lastValue ps key = lastValue qs key := by
  induction h with
  | nil => rfl
  | @cons p q ps qs hpq _ ih =>
    rw [← List.singleton_append, lastValue_append, ih, ← List.singleton_append (l := qs),
      lastValue_append]
    congr 1
    rw [lastValue, lastValue]
    by_cases hp : p.1 = key
    · have hvalue : p.2 = q.2 := hpq.2.resolve_left fun hmem => hkey (hp ▸ hmem)
      simp [hp, hvalue, ← hpq.1]
    · simp [hp, ← hpq.1]

/-- The fields that an operation sets are its own. -/
theorem agreeOff_fields {cfg : Configuration} {files : Files} {info info' : Info} {u : Update}
    (h : u.fields cfg files info = some info') :
    List.Forall₂ (AgreeOff u.keys) info'.params info.params := by
  have hall : ∀ r ∈ info'.params.zip info.params, AgreeOff u.keys r.1 r.2 := by
    cases u with
    | setExtraInfo el ri lang =>
      obtain rfl := Option.some.inj h
      simp [Info.params, AgreeOff, Update.keys]
    | setCompiler pid now =>
      obtain rfl := Option.some.inj h
      simp [Info.params, AgreeOff, Update.keys]
    | setRunner pid now =>
      obtain rfl := Option.some.inj h
      simp [Info.params, AgreeOff, Update.keys]
    | monitorize pid =>
      rw [Update.fields] at h
      split at h
      · cases h
      · obtain rfl := Option.some.inj h
        simp [Info.params, AgreeOff, Update.keys]
    | getHttpPassthroughTicket ticket redrawn =>
      rw [Update.fields] at h
      split at h
      · cases h
      · obtain rfl := Option.some.inj h
        simp [Info.params, AgreeOff, Update.keys]
    | getLocalWebServer address =>
      rw [Update.fields] at h
      split at h
      · obtain ⟨address, rfl, rfl⟩ := Option.map_eq_some_iff.mp h
        simp [Info.params, AgreeOff, Update.keys]
      · cases h
  exact List.forall₂_iff_zip.mpr ⟨rfl, fun hpq => hall _ hpq⟩

/-- A field that an operation does not set is stored as it was read. -/
theorem getElem?_store_fields {cfg : Configuration} {files : Files} {info info' : Info} {u : Update}
    (h : u.fields cfg files info = some info') (data : ConfigData) {key : Bytes}
    (hkey : key ∉ u.keys) : (info'.store data)[key]? = (info.store data)[key]? := by
  rw [Info.store, Info.store, getElem?_foldl_insert, getElem?_foldl_insert,
    lastValue_congr (agreeOff_fields h) hkey]

/-! ## Every run -/

/-- The call is one on the task, and what it stores is read back. -/
def Survivable (cfg : Configuration) (uid : ℕ) (files : Files) (c : Call) : Prop :=
  c.pm.prisoner = uid ∧ ∀ data, c.stored cfg files = some data → Survives data

section Runs

variable {cfg : Configuration} {uid : ℕ} {files : Files}

/-- A stored task says of every field what is read of it. -/
theorem getElem?_store_ofData (h : Sound cfg uid files) {read : ConfigData}
    (hread : readTask (files (processConfigFile cfg uid)) = some read) (key : Bytes) :
    ((Info.ofData read).store read)[key]? = read[key]? := by
  obtain ⟨data, hconfig, read', hread', -, hcanonical⟩ := h
  rw [hconfig, readTask, Option.bind_some, hread'] at hread
  obtain rfl := Option.some.inj hread
  exact hcanonical key

/-- A call stores its result. -/
theorem Call.stored_of_readTask {c : Call} {read : ConfigData}
    (hread : readTask (files (processConfigFile cfg c.pm.prisoner)) = some read) :
    (c.stored cfg files).getD read = c.result cfg files read := by
  rw [Call.stored, Call.result, infoOrThrow, readInfo, hread]
  by_cases hidle : c.update.isIdle c.pm.security
  · rw [if_pos hidle, if_pos (.inl hidle), Option.getD_none]
  by_cases hcleaning : (Info.ofData read).cleaning
  · rw [if_neg hidle, if_pos (.inr hcleaning)]
    dsimp only
    rw [if_pos hcleaning]
    rfl
  · rw [if_neg hidle, if_neg (by tauto)]
    dsimp only
    rw [if_neg hcleaning]
    dsimp only [pure, Except.pure]
    cases c.update.fields cfg files (Info.ofData read) <;> rfl

/-- What is stored has been read. -/
theorem exists_of_stored {c : Call} {data : ConfigData} (h : c.stored cfg files = some data) :
    ∃ read info, readTask (files (processConfigFile cfg c.pm.prisoner)) = some read ∧
      c.update.fields cfg files (Info.ofData read) = some info ∧ data = info.store read := by
  rw [Call.stored] at h
  split at h
  · cases h
  · cases hinfo : infoOrThrow (files (processConfigFile cfg c.pm.prisoner)) with
    | error e =>
      rw [hinfo] at h
      cases h
    | ok info =>
      rw [hinfo] at h
      obtain ⟨info', hfields, hstore⟩ := Option.bind_eq_some_iff.mp h
      obtain ⟨read, hread, rfl⟩ := Option.map_eq_some_iff.mp hstore
      obtain ⟨read', hread', rfl, -⟩ := writeInfo_of_infoOrThrow hinfo info'
      obtain rfl := Option.some.inj (hread.symm.trans hread')
      exact ⟨read, info', hread, hfields, rfl⟩

/-- A call sets the fields of its operation, and what it stores is read back. -/
theorem updates_of_survives {c : Call} (hsound : Sound cfg uid files)
    (hok : Survivable cfg uid files c) :
    Sound cfg uid ((c.run cfg).run files).1 ∧ Updates cfg uid c files ((c.run cfg).run files).1 := by
  obtain ⟨rfl, hok⟩ := hok
  have hconfig := config_run cfg c files
  obtain ⟨data, hdata, read, hread, hback, hcanonical⟩ := hsound
  have hread' : readTask (files (processConfigFile cfg c.pm.prisoner)) = some read := by
    rw [hdata]
    exact hread
  have hresult := c.stored_of_readTask hread'
  cases hstored : c.stored cfg files with
  | none =>
    rw [hstored] at hconfig hresult
    dsimp only at hconfig
    refine ⟨⟨data, hconfig.trans hdata, read, hread, hback, hcanonical⟩, read, read, hread', ?_,
      fun key => by rw [← hresult, Option.getD_none]⟩
    rw [hconfig]
    exact hread'
  | some data' =>
    rw [hstored] at hconfig hresult
    dsimp only at hconfig
    obtain ⟨read', hreadback, hback', hcanonical'⟩ := hok data' hstored
    refine ⟨⟨data', hconfig, read', hreadback, hback', hcanonical'⟩, read, read', hread', ?_, ?_⟩
    · rw [hconfig]
      exact hreadback
    · intro key
      rw [hback', ← hresult, Option.getD_some]

/-- It changes no other field. -/
theorem Updates.changesOnly {c : Call} {files' : Files} (h : Updates cfg uid c files files')
    (hsound : Sound cfg uid files) : ChangesOnly cfg uid c.update.keys files files' := by
  obtain ⟨data, data', hread, hread', hkeys⟩ := h
  refine ⟨data, data', hread, hread', fun key hkey => (hkeys key).trans ?_⟩
  rw [Call.result]
  split
  · rfl
  cases hfields : c.update.fields cfg files (Info.ofData data) with
  | none => rfl
  | some info =>
    rw [Option.elim_some, getElem?_store_fields hfields data hkey]
    exact getElem?_store_ofData hsound hread key

variable {ι : Type*} [DecidableEq ι]

omit [DecidableEq ι] in
/-- The calls keep the stored task readable. -/
theorem sound_runCalls {calls : List (ι × Call)} (hsound : Sound cfg uid files)
    (hok : CallsOk (fun _ => Call.run cfg) (fun files _ => Survivable cfg uid files) files calls) :
    Sound cfg uid (runCalls (fun _ => Call.run cfg) files calls).1 := by
  induction calls generalizing files with
  | nil => exact hsound
  | cons call calls ih => exact ih (updates_of_survives hsound hok.1).1 hok.2

/-- In every run the calls take place one after the other, each of them on what the one before has
stored. After each of them the stored task is the one before it with the fields of its operation set,
and no other field has changed. -/
theorem no_lost_update (hsound : Sound cfg uid files)
    {s : System ι Call Files (Except Thrown ProcessMonitor)}
    (h : Reaches (fun _ => Call.run cfg) (fun files _ => Survivable cfg uid files)
      (System.initial files) s) :
    ∃ calls : List (ι × Call),
      s.log = (runCalls (fun _ => Call.run cfg) files calls).2 ∧
      (s.lock = none → s.shared = (runCalls (fun _ => Call.run cfg) files calls).1) ∧
      ∀ before i call after, calls = before ++ (i, call) :: after →
        Updates cfg uid call
          (runCalls (fun _ => Call.run cfg) files before).1
          (runCalls (fun _ => Call.run cfg) files (before ++ [(i, call)])).1 ∧
        ChangesOnly cfg uid call.update.keys
          (runCalls (fun _ => Call.run cfg) files before).1
          (runCalls (fun _ => Call.run cfg) files (before ++ [(i, call)])).1 := by
  obtain ⟨calls, hok, hlog, hshared⟩ := (serial_of_reaches h).shared_eq
  refine ⟨calls, hlog, hshared, ?_⟩
  rintro before i call after rfl
  rw [callsOk_append] at hok
  obtain ⟨hbefore, hcall, -⟩ := hok
  rw [runCalls_append]
  have hsound' := sound_runCalls hsound hbefore
  obtain ⟨-, hupdates⟩ := updates_of_survives hsound' hcall
  exact ⟨hupdates, hupdates.changesOnly hsound'⟩

/-! ## Values that fit -/

/-- The stored task is plain. -/
def Fitting (cfg : Configuration) (uid : ℕ) (files : Files) : Prop :=
  ∃ (info : Info) (data : ConfigData), info.Fits ∧ IsPlainData data ∧
    files (processConfigFile cfg uid) = some (serialize (info.store data))

/-- What an operation brings fits the fields. -/
def Update.Fits : Update → Prop
  | setExtraInfo el _ lang => (-2 ^ 31 ≤ el.maxtime ∧ el.maxtime < 2 ^ 31) ∧
      (-2 ^ 63 ≤ el.maxfilesize ∧ el.maxfilesize < 2 ^ 63) ∧
      (-2 ^ 63 ≤ el.maxmemory ∧ el.maxmemory < 2 ^ 63) ∧
      (-2 ^ 31 ≤ el.maxprocesses ∧ el.maxprocesses < 2 ^ 31) ∧ IsPlainValue lang
  | setCompiler pid now => (-2 ^ 31 ≤ pid ∧ pid < 2 ^ 31) ∧ (-2 ^ 31 ≤ now ∧ now < 2 ^ 31)
  | setRunner pid now => (-2 ^ 31 ≤ pid ∧ pid < 2 ^ 31) ∧ (-2 ^ 31 ≤ now ∧ now < 2 ^ 31)
  | monitorize pid => -2 ^ 31 ≤ pid ∧ pid < 2 ^ 31
  | getHttpPassthroughTicket _ _ => True
  | getLocalWebServer address => ∀ a ∈ address, IsPlainValue a

omit [DecidableEq ι] in
/-- The fields that an operation sets fit as well. -/
theorem fits_fields {info info' : Info} {u : Update} (h : info.Fits) (hu : u.Fits)
    (hfields : u.fields cfg files info = some info') : info'.Fits := by
  cases u with
  | setExtraInfo el ri lang =>
    obtain rfl := Option.some.inj hfields
    obtain ⟨htime, hsize, hmemory, hprocesses, hlang⟩ := hu
    exact { h with
      maxtime := htime
      maxfilesize := hsize
      maxmemory := hmemory
      maxprocesses := hprocesses
      lang := hlang }
  | setCompiler pid now =>
    obtain rfl := Option.some.inj hfields
    exact { h with startTime := hu.2, compilerPid := hu.1 }
  | setRunner pid now =>
    obtain rfl := Option.some.inj hfields
    exact { h with startTime := hu.2, runnerPid := hu.1 }
  | monitorize pid =>
    rw [Update.fields] at hfields
    split at hfields
    · cases hfields
    · obtain rfl := Option.some.inj hfields
      exact { h with monitorPid := hu }
  | getHttpPassthroughTicket ticket redrawn =>
    rw [Update.fields] at hfields
    split at hfields
    · cases hfields
    · obtain rfl := Option.some.inj hfields
      have hdigits := (drawnTicket cfg files ticket redrawn).2.2
      exact { h with
        httpPassthroughticket := isPlainValue_of_word fun b hb => .inl (hdigits b hb) }
  | getLocalWebServer address =>
    rw [Update.fields] at hfields
    split at hfields
    · obtain ⟨a, rfl, rfl⟩ := Option.map_eq_some_iff.mp hfields
      exact { h with localwebserver := hu a rfl }
    · cases hfields

/-- The fields that are read from a plain task fit. -/
theorem Fitting.exists_read (h : Fitting cfg uid files) :
    ∃ read, readTask (files (processConfigFile cfg uid)) = some read ∧ IsPlainData read ∧
      (Info.ofData read).Fits := by
  obtain ⟨info, data, hinfo, hdata, hconfig⟩ := h
  obtain ⟨read, hread, hback⟩ := (hdata.store hinfo).exists_read
  refine ⟨read, by rw [hconfig, readTask, Option.bind_some, hread], fun key value hvalue => ?_, ?_⟩
  · exact hdata.store hinfo key value ((hback key).symm.trans hvalue)
  · rw [ofData_of_store hinfo hback]
    exact hinfo

theorem Fitting.sound (h : Fitting cfg uid files) : Sound cfg uid files := by
  obtain ⟨info, data, hinfo, hdata, hconfig⟩ := h
  exact ⟨info.store data, hconfig, survives_store hinfo hdata⟩

/-- A plain task survives every call that brings fitting values. -/
theorem Fitting.call (h : Fitting cfg uid files) {c : Call} (hpm : c.pm.prisoner = uid)
    (hu : c.update.Fits) :
    Survivable cfg uid files c ∧ Fitting cfg uid ((c.run cfg).run files).1 := by
  subst hpm
  obtain ⟨read, hread, hplain, hfits⟩ := h.exists_read
  have hstored {data : ConfigData} (hdata : c.stored cfg files = some data) :
      ∃ info, info.Fits ∧ data = Info.store info read := by
    obtain ⟨read', info, hread', hfields, rfl⟩ := exists_of_stored hdata
    obtain rfl := Option.some.inj (hread.symm.trans hread')
    exact ⟨info, fits_fields hfits hu hfields, rfl⟩
  refine ⟨⟨rfl, fun data hdata => ?_⟩, ?_⟩
  · obtain ⟨info, hinfo, rfl⟩ := hstored hdata
    exact survives_store hinfo hplain
  · have hconfig := config_run cfg c files
    cases hc : c.stored cfg files with
    | none =>
      rw [hc] at hconfig
      obtain ⟨info, data, hinfo, hdata, heq⟩ := h
      exact ⟨info, data, hinfo, hdata, hconfig.trans heq⟩
    | some data =>
      rw [hc] at hconfig
      obtain ⟨info, hinfo, rfl⟩ := hstored hc
      exact ⟨info, read, hinfo, hplain, hconfig⟩

omit [DecidableEq ι] in
/-- Any calls that bring fitting values are a run. -/
theorem Fitting.callsOk (h : Fitting cfg uid files) {calls : List (ι × Call)}
    (hcalls : ∀ call ∈ calls, call.2.pm.prisoner = uid ∧ call.2.update.Fits) :
    CallsOk (fun _ => Call.run cfg) (fun files _ => Survivable cfg uid files) files calls := by
  induction calls generalizing files with
  | nil => trivial
  | cons call calls ih =>
    obtain ⟨hcall, hcalls⟩ := List.forall_mem_cons.mp hcalls
    obtain ⟨hok, hnext⟩ := h.call hcall.1 hcall.2
    exact ⟨hok, ih hnext hcalls⟩

end Runs

/-! ## Two processes on one task -/

theorem fitting_createdFiles : Fitting .default 10001 createdFiles :=
  ⟨createdTask, ∅, fits_createdTask, isPlainData_empty, if_pos rfl⟩

/-- A compiler and a monitor that both have the task in memory as it was created. -/
def compileAndMonitor : List (Bool × Call) :=
  [(false, ⟨⟨10001, .admin, createdTask⟩, .setCompiler 300 1001⟩),
    (true, ⟨⟨10001, .monitor, createdTask⟩, .monitorize 301⟩)]

theorem callsOk_compileAndMonitor :
    CallsOk (fun _ => Call.run .default) (fun files _ => Survivable .default 10001 files) createdFiles
      compileAndMonitor :=
  fitting_createdFiles.callsOk <| List.forall_mem_cons.mpr
    ⟨⟨rfl, ⟨by decide, by decide⟩, by decide, by decide⟩, List.forall_mem_singleton.mpr
      ⟨rfl, by decide, by decide⟩⟩

theorem no_lost_update_compileAndMonitor :
    ∃ calls : List (Bool × Call),
      runCalls (fun _ => Call.run .default) createdFiles compileAndMonitor =
        runCalls (fun _ => Call.run .default) createdFiles calls ∧
      ∀ before i call after, calls = before ++ (i, call) :: after →
        Updates .default 10001 call
          (runCalls (fun _ => Call.run .default) createdFiles before).1
          (runCalls (fun _ => Call.run .default) createdFiles (before ++ [(i, call)])).1 ∧
        ChangesOnly .default 10001 call.update.keys
          (runCalls (fun _ => Call.run .default) createdFiles before).1
          (runCalls (fun _ => Call.run .default) createdFiles (before ++ [(i, call)])).1 := by
  obtain ⟨calls, hlog, hshared, hown⟩ := no_lost_update fitting_createdFiles.sound
    (reaches_of_calls callsOk_compileAndMonitor)
  dsimp only at hlog hshared
  exact ⟨calls, Prod.ext (hshared rfl) hlog, hown⟩

end VplJail.Task.Locked
