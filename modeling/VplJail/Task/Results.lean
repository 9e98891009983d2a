import VplJail.Task.Sections
import VplJail.Task.Survival

/-!
# The results of a batch task

The process of a batch task stores the output of its compilation and then that of its execution, and
`getResult` takes what it finds. The files are an outbox of two places (`outbox_run`). No output is
taken twice and none stays behind a `getResult`; but `setExecutionOutput` takes a missing compilation
for an error, so the output of the execution is lost exactly when the compilation has been taken
before (`noResultLost_iff`).
-/

namespace VplJail.Task.Locked

open CriticalSection ConfigurationFile Util

/-! ## The outbox -/

/-- The operations on the outputs. -/
inductive OutputCall
  | setCompilationOutput (compilation : Bytes)
  | setExecutionOutput (execution : Bytes) (executed : Bool)
  | getResult
deriving DecidableEq

/-- The outputs that a call has taken, that of the compilation first. -/
abbrev Taken := Option Bytes × Option Bytes

/-- The steps of a call on the copy of the task that its process has in memory. -/
def OutputCall.run (cfg : Configuration) (pm : ProcessMonitor) :
    OutputCall → Prog Files (Except Thrown Taken)
  | setCompilationOutput compilation => ExceptT.run do
      Locked.setCompilationOutput cfg compilation pm
      pure (none, none)
  | setExecutionOutput execution executed => ExceptT.run do
      Locked.setExecutionOutput cfg execution executed pm
      pure (none, none)
  | getResult => (Locked.getResult cfg pm).run

/-- The stored outputs. -/
structure Outbox where
  compilation : Option Bytes
  execution : Option Bytes
deriving DecidableEq

/-- The outputs in the control directory. -/
def outbox (cfg : Configuration) (uid : ℕ) (files : Files) : Outbox where
  compilation := files (controlFile cfg uid (ascii "compilation"))
  execution := files (controlFile cfg uid (ascii "execution"))

/-- An output as it is returned. -/
def limited (cfg : Configuration) (output : Bytes) : Bytes :=
  match limitResultSize cfg output with
  | .ok r => r
  | .error _ => []

/-- What a call does to the outbox. -/
def Outbox.answer (cfg : Configuration) (box : Outbox) : OutputCall → Outbox × Except Thrown Taken
  | .setCompilationOutput compilation =>
      if box.compilation.isSome then (box, .error (.text "Compilation already saved"))
      else ({ box with compilation := some compilation }, .ok (none, none))
  | .setExecutionOutput execution executed =>
      if box.compilation.isNone then
        (box, .error (.text "Execution not saved because compilation is missing"))
      else if executed then
        if box.execution.isSome then (box, .error (.text "Execution already saved"))
        else ({ box with execution := some execution }, .ok (none, none))
      else (box, .ok (none, none))
  | .getResult =>
      (⟨none, none⟩, .ok (box.compilation.map (limited cfg), box.execution.map (limited cfg)))

/-! ## The files are an outbox -/

/-- The task can be read, and its outputs can be written. -/
structure Writable (cfg : Configuration) (uid : ℕ) : Prop where
  compilation : correctPath (controlFile cfg uid (ascii "compilation")) = true
  execution : correctPath (controlFile cfg uid (ascii "execution")) = true
  requestMaxSize : 0 < cfg.requestMaxSize ∧ cfg.requestMaxSize < 2 ^ 31

/-- The process has the batch task of the prisoner in memory, opened with the admin ticket. -/
structure IsBatch (uid : ℕ) (pm : ProcessMonitor) : Prop where
  prisoner : pm.prisoner = uid
  security : pm.security = .admin
  interactive : pm.info.interactive = false

/-- The files hold a task that can be read and the given outputs. -/
def Holds (cfg : Configuration) (uid : ℕ) (files : Files) (box : Outbox) : Prop :=
  (∃ info, readInfo (files (processConfigFile cfg uid)) = .ok info) ∧ outbox cfg uid files = box

section Files

variable {cfg : Configuration} {uid : ℕ} {files : Files} {pm : ProcessMonitor}

/-- A result is cut without error. -/
theorem limitResultSize_eq_ok (h : Writable cfg uid) (output : Bytes) :
    limitResultSize cfg output = .ok (limited cfg output) := by
  obtain ⟨hlow, hhigh⟩ := h.requestMaxSize
  rw [limited, limitResultSize]
  split
  · rename_i hlong
    -- the half that is kept at the end starts within the output
    have hhalf : cfg.requestMaxSize.tdiv 2 = cfg.requestMaxSize / 2 :=
      Int.tdiv_eq_ediv_of_nonneg hlow.le
    rw [if_neg (by rw [hhalf]; omega)]
    rfl
  · rfl

/-- The files of a control directory differ. -/
theorem controlFile_ne {name name' : Bytes} (h : name ≠ name') :
    controlFile cfg uid name ≠ controlFile cfg uid name' :=
  fun heq => h (List.append_cancel_left heq)

theorem controlFile_ne_config {name : Bytes} (h : name ≠ ascii "config") :
    controlFile cfg uid name ≠ processConfigFile cfg uid := by
  have hconfig : processConfigFile cfg uid = controlFile cfg uid (ascii "config") := by
    rw [processConfigFile, controlFile, List.append_assoc]
    rfl
  rw [hconfig]
  exact controlFile_ne h

/-- An output that is taken is removed. -/
theorem run_takeOutput (h : Writable cfg uid) {name : Bytes}
    (hpath : correctPath (controlFile cfg uid name) = true) (files : Files) :
    Prog.runExcept (takeOutput cfg uid name) files =
      (Function.update files (controlFile cfg uid name) none,
        .ok ((files (controlFile cfg uid name)).map (limited cfg))) := by
  have hdelete : deletePath (controlFile cfg uid name) files =
      Function.update files (controlFile cfg uid name) none := by
    rw [deletePath, if_pos hpath, cstr_eq_self (zero_notMem_of_correctPath hpath)]
  rw [takeOutput, Prog.runExcept_bind, run_look]
  dsimp only
  cases hfile : files (controlFile cfg uid name) with
  | none =>
    rw [← hfile, Function.update_eq_self, hfile]
    rfl
  | some content =>
    dsimp only
    rw [Prog.runExcept_ite, if_pos hpath, Prog.runExcept_bind, Prog.runExcept_ofExcept,
      limitResultSize_eq_ok h]
    dsimp only
    rw [Prog.runExcept_bind, run_deleteFile, hdelete]
    rfl

/-- An output that is saved is there. -/
theorem run_saveFile {path : Bytes} (hpath : correctPath path = true) (content : Bytes)
    (files : Files) :
    Prog.runExcept (saveFile path content) files =
      (Function.update files path (some content), .ok ()) := by
  rw [saveFile, if_pos hpath, run_putFile]

/-- An output is changed. -/
theorem Holds.update {box : Outbox} (h : Holds cfg uid files box) {name : Bytes}
    (hname : name ≠ ascii "config") (content : Option Bytes) :
    Holds cfg uid (Function.update files (controlFile cfg uid name) content)
      (outbox cfg uid (Function.update files (controlFile cfg uid name) content)) := by
  refine ⟨?_, rfl⟩
  rw [Function.update_of_ne (controlFile_ne_config hname).symm]
  exact h.1

theorem outbox_update_compilation (content : Option Bytes) :
    outbox cfg uid (Function.update files (controlFile cfg uid (ascii "compilation")) content) =
      { outbox cfg uid files with compilation := content } := by
  rw [outbox, Function.update_self, Function.update_of_ne (controlFile_ne (by decide +kernel))]
  rfl

theorem outbox_update_execution (content : Option Bytes) :
    outbox cfg uid (Function.update files (controlFile cfg uid (ascii "execution")) content) =
      { outbox cfg uid files with execution := content } := by
  rw [outbox, Function.update_self, Function.update_of_ne (controlFile_ne (by decide +kernel))]
  rfl

theorem run_setCompilationOutput (h : Writable cfg pm.prisoner) {info : Info}
    (hload : infoOrThrow (files (processConfigFile cfg pm.prisoner)) = .ok info)
    (compilation : Bytes) :
    Prog.runExcept (setCompilationOutput cfg compilation pm) files =
      if (outbox cfg pm.prisoner files).compilation.isSome then
        (files, .error (.text "Compilation already saved"))
      else (Function.update files (controlFile cfg pm.prisoner (ascii "compilation"))
        (some compilation), .ok ()) := by
  rw [setCompilationOutput, Prog.runExcept_bind, run_loadInfo, hload]
  dsimp only
  rw [Prog.runExcept_bind, run_look]
  dsimp only
  rw [Prog.runExcept_ite, run_saveFile h.compilation]
  rfl

theorem run_setExecutionOutput (h : Writable cfg pm.prisoner) {info : Info}
    (hload : infoOrThrow (files (processConfigFile cfg pm.prisoner)) = .ok info)
    (execution : Bytes) (executed : Bool) :
    Prog.runExcept (setExecutionOutput cfg execution executed pm) files =
      if (outbox cfg pm.prisoner files).compilation.isNone then
        (files, .error (.text "Execution not saved because compilation is missing"))
      else if executed then
        if (outbox cfg pm.prisoner files).execution.isSome then
          (files, .error (.text "Execution already saved"))
        else (Function.update files (controlFile cfg pm.prisoner (ascii "execution"))
          (some execution), .ok ())
      else (files, .ok ()) := by
  rw [setExecutionOutput, Prog.runExcept_bind, run_loadInfo, hload]
  dsimp only
  rw [Prog.runExcept_bind, run_look]
  dsimp only
  rw [Prog.runExcept_ite, Prog.runExcept_ite, Prog.runExcept_bind, run_look]
  dsimp only
  rw [Prog.runExcept_ite, run_saveFile h.execution]
  rfl

theorem run_getResult (h : Writable cfg pm.prisoner) (hsecurity : pm.security = .admin)
    (hinteractive : pm.info.interactive = false) (files : Files) :
    Prog.runExcept (getResult cfg pm) files =
      (Function.update (Function.update files
          (controlFile cfg pm.prisoner (ascii "compilation")) none)
          (controlFile cfg pm.prisoner (ascii "execution")) none,
        .ok ((outbox cfg pm.prisoner files).compilation.map (limited cfg),
          (outbox cfg pm.prisoner files).execution.map (limited cfg))) := by
  have hne : controlFile cfg pm.prisoner (ascii "execution") ≠
      controlFile cfg pm.prisoner (ascii "compilation") := controlFile_ne (by decide +kernel)
  rw [getResult, if_neg (not_not.mpr hsecurity), hinteractive, if_neg Bool.false_ne_true,
    Prog.runExcept_bind, run_takeOutput h h.compilation]
  dsimp only
  rw [Prog.runExcept_bind, run_takeOutput h h.execution, Function.update_of_ne hne]
  rfl

/-- The operations do on the files what they do on the outbox. -/
theorem holds_run (h : Writable cfg uid) (hpm : IsBatch uid pm) {box : Outbox}
    (hfiles : Holds cfg uid files box) (c : OutputCall) :
    Holds cfg uid ((c.run cfg pm).run files).1 (box.answer cfg c).1 ∧
      ((c.run cfg pm).run files).2 = (box.answer cfg c).2 := by
  -- `hfiles` itself is still needed behind the substitution
  obtain ⟨⟨info, hinfo⟩, rfl⟩ := id hfiles
  obtain ⟨rfl, hsecurity, hinteractive⟩ := hpm
  have hload : infoOrThrow (files (processConfigFile cfg pm.prisoner)) = .ok info := by
    rw [infoOrThrow, hinfo]
    rfl
  cases c with
  | setCompilationOutput compilation =>
    have hrun : ((OutputCall.setCompilationOutput compilation).run cfg pm).run files =
        Prog.runExcept (setCompilationOutput cfg compilation pm >>= fun _ =>
          pure (none, none)) files := rfl
    rw [hrun, Prog.runExcept_bind, run_setCompilationOutput h hload, Outbox.answer]
    by_cases hsaved : (outbox cfg pm.prisoner files).compilation.isSome
    · rw [if_pos hsaved, if_pos hsaved]
      exact ⟨hfiles, rfl⟩
    · rw [if_neg hsaved, if_neg hsaved, ← outbox_update_compilation]
      exact ⟨hfiles.update (by decide +kernel) _, rfl⟩
  | setExecutionOutput execution executed =>
    have hrun : ((OutputCall.setExecutionOutput execution executed).run cfg pm).run files =
        Prog.runExcept (setExecutionOutput cfg execution executed pm >>= fun _ =>
          pure (none, none)) files := rfl
    rw [hrun, Prog.runExcept_bind, run_setExecutionOutput h hload, Outbox.answer]
    by_cases hmissing : (outbox cfg pm.prisoner files).compilation.isNone
    · rw [if_pos hmissing, if_pos hmissing]
      exact ⟨hfiles, rfl⟩
    rw [if_neg hmissing, if_neg hmissing]
    by_cases hexecuted : executed
    · rw [if_pos hexecuted, if_pos hexecuted]
      by_cases hsaved : (outbox cfg pm.prisoner files).execution.isSome
      · rw [if_pos hsaved, if_pos hsaved]
        exact ⟨hfiles, rfl⟩
      · rw [if_neg hsaved, if_neg hsaved, ← outbox_update_execution]
        exact ⟨hfiles.update (by decide +kernel) _, rfl⟩
    · rw [if_neg hexecuted, if_neg hexecuted]
      exact ⟨hfiles, rfl⟩
  | getResult =>
    have hrun : (OutputCall.getResult.run cfg pm).run files =
        Prog.runExcept (getResult cfg pm) files := rfl
    have hempty : outbox cfg pm.prisoner
        (Function.update (Function.update files
          (controlFile cfg pm.prisoner (ascii "compilation")) none)
          (controlFile cfg pm.prisoner (ascii "execution")) none) = ⟨none, none⟩ := by
      rw [outbox_update_execution, outbox_update_compilation]
    rw [hrun, run_getResult h hsecurity hinteractive, Outbox.answer, ← hempty]
    exact ⟨(hfiles.update (by decide +kernel) _).update (by decide +kernel) _, rfl⟩

end Files

/-! ## Calls on the outbox -/

/-- An operation of the process of the task, not one of `getResult`. -/
def OutputCall.isSave : OutputCall → Bool
  | getResult => false
  | _ => true

/-- A call that may store a compilation. -/
def OutputCall.isCompilation : OutputCall → Bool
  | setCompilationOutput _ => true
  | _ => false

/-- A call that may store an execution. -/
def OutputCall.isExecution : OutputCall → Bool
  | setExecutionOutput _ executed => executed
  | _ => false

/-- A call with what it has returned. -/
abbrev Entry (ι : Type*) := ι × OutputCall × Except Thrown Taken

section Outbox

variable {ι : Type*} {cfg : Configuration}

/-- The operations that the process of the task has made. -/
def saves (log : List (Entry ι)) : List OutputCall :=
  (log.map (·.2.1)).filter OutputCall.isSave

/-- A stored compilation has been returned. -/
def returnsCompilation (entry : Entry ι) : Bool :=
  match entry.2.2 with
  | .ok (some _, _) => true
  | _ => false

/-- A stored execution has been returned. -/
def returnsExecution (entry : Entry ι) : Bool :=
  match entry.2.2 with
  | .ok (_, some _) => true
  | _ => false

/-- A compilation has been stored. -/
def savesCompilation (entry : Entry ι) : Bool :=
  entry.2.1.isCompilation && entry.2.2.isOk

/-- An execution has been stored. -/
def savesExecution (entry : Entry ι) : Bool :=
  entry.2.1.isExecution && entry.2.2.isOk

/-- The calls on the outbox. -/
def Outbox.run (cfg : Configuration) (_ : ι) (c : OutputCall) :
    Prog Outbox (Except Thrown Taken) :=
  .atomic fun box => box.answer cfg c

variable (cfg) in
/-- What has been stored has been returned or is still there. -/
theorem countP_returnsCompilation (box : Outbox) (calls : List (ι × OutputCall)) :
    (runCalls (Outbox.run cfg) box calls).2.countP returnsCompilation +
        (runCalls (Outbox.run cfg) box calls).1.compilation.isSome.toNat =
      (runCalls (Outbox.run cfg) box calls).2.countP savesCompilation +
        box.compilation.isSome.toNat := by
  refine countP_runCalls_balance (fun box => box.compilation.isSome.toNat)
    (fun box i c => ?_) box calls
  obtain ⟨compilation, execution⟩ := box
  rw [Outbox.run, Prog.run_atomic]
  cases c with
  | setCompilationOutput text => cases compilation <;> rfl
  | setExecutionOutput text executed =>
    cases compilation <;> cases executed <;> cases execution <;> rfl
  | getResult => cases compilation <;> rfl

variable (cfg) in
theorem countP_returnsExecution (box : Outbox) (calls : List (ι × OutputCall)) :
    (runCalls (Outbox.run cfg) box calls).2.countP returnsExecution +
        (runCalls (Outbox.run cfg) box calls).1.execution.isSome.toNat =
      (runCalls (Outbox.run cfg) box calls).2.countP savesExecution +
        box.execution.isSome.toNat := by
  refine countP_runCalls_balance (fun box => box.execution.isSome.toNat)
    (fun box i c => ?_) box calls
  obtain ⟨compilation, execution⟩ := box
  rw [Outbox.run, Prog.run_atomic]
  cases c with
  | setCompilationOutput text => cases compilation <;> cases execution <;> rfl
  | setExecutionOutput text executed =>
    cases compilation <;> cases executed <;> cases execution <;> rfl
  | getResult => cases execution <;> rfl

/-- The outbox holds nothing but the two outputs of the task. -/
structure Outbox.Only (compilation execution : Bytes) (box : Outbox) : Prop where
  compilation : ∀ t ∈ box.compilation, t = compilation
  execution : ∀ t ∈ box.execution, t = execution

/-- The call stores nothing else. -/
def OutputCall.Only (compilation execution : Bytes) : OutputCall → Prop
  | setCompilationOutput t => t = compilation
  | setExecutionOutput t _ => t = execution
  | getResult => True

/-- What a call has taken is one of the two outputs. -/
def TakesOnly (cfg : Configuration) (compilation execution : Bytes) (entry : Entry ι) : Prop :=
  ∀ taken, entry.2.2 = .ok taken →
    (∀ t ∈ taken.1, entry.2.1 = .getResult ∧ t = limited cfg compilation) ∧
      ∀ t ∈ taken.2, entry.2.1 = .getResult ∧ t = limited cfg execution

/-- A call that takes nothing. -/
theorem takesOnly_none {compilation execution : Bytes} {i : ι} {c : OutputCall}
    {r : Except Thrown Taken} (h : ∀ taken, r = .ok taken → taken = (none, none)) :
    TakesOnly cfg compilation execution (i, c, r) := by
  intro taken htaken
  rw [h taken htaken]
  exact ⟨fun t ht => absurd ht (Option.not_mem_none t), fun t ht => absurd ht (Option.not_mem_none t)⟩

/-- A call keeps the outbox, and what is returned has been stored. -/
theorem Outbox.Only.answer {compilation execution : Bytes} {box : Outbox}
    (hbox : box.Only compilation execution) (i : ι) {c : OutputCall}
    (hc : c.Only compilation execution) :
    (box.answer cfg c).1.Only compilation execution ∧
      TakesOnly cfg compilation execution (i, c, (box.answer cfg c).2) := by
  have herror (e : Thrown) : ∀ taken : Taken, Except.error e = .ok taken → taken = (none, none) :=
    fun _ h => by cases h
  have hnone : ∀ taken, (Except.ok (none, none) : Except Thrown Taken) = .ok taken →
      taken = (none, none) := fun _ h => (Except.ok.inj h).symm
  cases c with
  | setCompilationOutput t =>
    rw [Outbox.answer]
    split
    · exact ⟨hbox, takesOnly_none (herror _)⟩
    · refine ⟨⟨fun t' ht' => ?_, hbox.execution⟩, takesOnly_none hnone⟩
      exact (Option.some.inj ht').symm.trans hc
  | setExecutionOutput t executed =>
    rw [Outbox.answer]
    split
    · exact ⟨hbox, takesOnly_none (herror _)⟩
    split
    · split
      · exact ⟨hbox, takesOnly_none (herror _)⟩
      · refine ⟨⟨hbox.compilation, fun t' ht' => ?_⟩, takesOnly_none hnone⟩
        exact (Option.some.inj ht').symm.trans hc
    · exact ⟨hbox, takesOnly_none hnone⟩
  | getResult =>
    have hempty (t : Bytes) : t ∉ (none : Option Bytes) := Option.not_mem_none t
    refine ⟨⟨fun t ht => absurd ht (hempty t), fun t ht => absurd ht (hempty t)⟩,
      fun taken htaken => ?_⟩
    obtain rfl := Except.ok.inj htaken
    refine ⟨fun t ht => ⟨rfl, ?_⟩, fun t ht => ⟨rfl, ?_⟩⟩
    · obtain ⟨stored, hstored, rfl⟩ := Option.map_eq_some_iff.mp ht
      rw [hbox.compilation stored hstored]
    · obtain ⟨stored, hstored, rfl⟩ := Option.map_eq_some_iff.mp ht
      rw [hbox.execution stored hstored]

/-- What is returned has been stored. -/
theorem takesOnly_run {compilation execution : Bytes} {box : Outbox}
    (hbox : box.Only compilation execution) {calls : List (ι × OutputCall)}
    (hcalls : ∀ c ∈ calls, c.2.Only compilation execution) :
    ∀ entry ∈ (runCalls (Outbox.run cfg) box calls).2,
      TakesOnly cfg compilation execution entry :=
  (forall_mem_log (fun _ i _ hbox hc => hbox.answer i hc) hbox hcalls).2

/-- Without saves nothing gets into an empty outbox. -/
theorem run_of_no_saves {calls : List (ι × OutputCall)}
    (h : ∀ c ∈ calls, c.2 = .getResult) :
    (runCalls (Outbox.run cfg) ⟨none, none⟩ calls).1 = ⟨none, none⟩ := by
  induction calls with
  | nil => rfl
  | cons c calls ih =>
    obtain ⟨hc, hcalls⟩ := List.forall_mem_cons.mp h
    obtain ⟨i, c⟩ := c
    obtain rfl : c = .getResult := hc
    exact ih hcalls

/-- The calls that the log names. -/
theorem saves_log (box : Outbox) (calls : List (ι × OutputCall)) :
    saves (runCalls (Outbox.run cfg) box calls).2 = (calls.map (·.2)).filter OutputCall.isSave := by
  have hlog := congrArg (List.map Prod.snd) (map_log_runCalls (Outbox.run cfg) box calls)
  rw [List.map_map] at hlog
  exact congrArg (List.filter OutputCall.isSave) hlog

/-- Entries of one kind are no more than the saves of that kind. -/
theorem countP_le_saves {log : List (Entry ι)} {q : Entry ι → Bool} {p : OutputCall → Bool}
    (hq : ∀ entry, q entry = true → p entry.2.1 = true)
    (hp : ∀ c, p c = true → c.isSave = true) : log.countP q ≤ (saves log).countP p := by
  have hfilter : (saves log).countP p = log.countP fun entry => p entry.2.1 := by
    rw [saves, List.countP_filter, List.countP_map]
    refine List.countP_congr fun entry _ => ?_
    have := hp entry.2.1
    simp only [Function.comp_apply, Bool.and_eq_true]
    exact ⟨And.left, fun h => ⟨h, this h⟩⟩
  rw [hfilter]
  exact List.countP_mono_left fun entry _ => hq entry

section Batch

variable {compilation execution : Bytes} {calls : List (ι × OutputCall)}

/-- The process of the task stores its compilation and then its execution. -/
def IsBatchLog (compilation execution : Bytes) (log : List (Entry ι)) : Prop :=
  saves log <+: [.setCompilationOutput compilation, .setExecutionOutput execution true]

/-- No `getResult` is between the two outputs of the task. -/
def NoneBetween (compilation execution : Bytes) (log : List (Entry ι)) : Prop :=
  ∀ before i r between j r' after,
    log = before ++ (i, .setCompilationOutput compilation, r) ::
      (between ++ (j, .setExecutionOutput execution true, r') :: after) →
    ∀ entry ∈ between, entry.2.1 ≠ .getResult

/-- The calls of a batch task store its two outputs. -/
theorem only_of_isBatchLog {box : Outbox}
    (h : IsBatchLog compilation execution (runCalls (Outbox.run cfg) box calls).2) :
    ∀ c ∈ calls, c.2.Only compilation execution := by
  rw [IsBatchLog, saves_log] at h
  intro c hc
  cases hsave : c.2.isSave with
  | false =>
    cases hcall : c.2 with
    | getResult => trivial
    | setCompilationOutput t => rw [hcall] at hsave; cases hsave
    | setExecutionOutput t executed => rw [hcall] at hsave; cases hsave
  | true =>
    have hmem := h.subset (List.mem_filter.mpr ⟨List.mem_map_of_mem hc, hsave⟩)
    rcases List.mem_cons.mp hmem with heq | hmem
    · rw [heq]
      rfl
    · rw [List.mem_singleton.mp hmem]
      rfl

/-- The saves of one kind in the log of a batch task. -/
theorem countP_saves_le {log : List (Entry ι)} (h : IsBatchLog compilation execution log)
    {q : Entry ι → Bool} {p : OutputCall → Bool} (hq : ∀ entry, q entry = true → p entry.2.1 = true)
    (hp : ∀ c, p c = true → c.isSave = true) :
    log.countP q ≤ [OutputCall.setCompilationOutput compilation,
      .setExecutionOutput execution true].countP p :=
  (countP_le_saves hq hp).trans h.sublist.countP_le

theorem countP_savesCompilation_le {log : List (Entry ι)}
    (h : IsBatchLog compilation execution log) : log.countP savesCompilation ≤ 1 := by
  refine countP_saves_le (p := OutputCall.isCompilation) h (fun entry hentry => ?_) fun c hc => ?_
  · exact (Bool.and_eq_true _ _ ▸ hentry).1
  · cases c with
    | getResult => cases hc
    | _ => rfl

theorem countP_savesExecution_le {log : List (Entry ι)}
    (h : IsBatchLog compilation execution log) : log.countP savesExecution ≤ 1 := by
  refine countP_saves_le (p := OutputCall.isExecution) h (fun entry hentry => ?_) fun c hc => ?_
  · exact (Bool.and_eq_true _ _ ▸ hentry).1
  · cases c with
    | getResult => cases hc
    | _ => rfl

/-- Each output is returned once at most. -/
theorem countP_returns_le_one
    (h : IsBatchLog compilation execution (runCalls (Outbox.run cfg) ⟨none, none⟩ calls).2) :
    (runCalls (Outbox.run cfg) ⟨none, none⟩ calls).2.countP returnsCompilation ≤ 1 ∧
      (runCalls (Outbox.run cfg) ⟨none, none⟩ calls).2.countP returnsExecution ≤ 1 := by
  have hcompilation := countP_returnsCompilation cfg ⟨none, none⟩ calls
  have hexecution := countP_returnsExecution cfg ⟨none, none⟩ calls
  have hsaved := countP_savesCompilation_le h
  have hsaved' := countP_savesExecution_le h
  change _ = _ + 0 at hcompilation hexecution
  omega

/-- A call in the log is one of the calls. -/
theorem mem_calls_of_mem_log {box : Outbox} {entry : Entry ι}
    (h : entry ∈ (runCalls (Outbox.run cfg) box calls).2) : (entry.1, entry.2.1) ∈ calls := by
  rw [← map_log_runCalls (Outbox.run cfg) box calls]
  exact List.mem_map_of_mem h

/-- A last `getResult` leaves nothing. -/
theorem run_eq_empty_of_last {before : List (Entry ι)} {i : ι} {r : Except Thrown Taken}
    (h : (runCalls (Outbox.run cfg) ⟨none, none⟩ calls).2 = before ++ [(i, .getResult, r)]) :
    (runCalls (Outbox.run cfg) ⟨none, none⟩ calls).1 = ⟨none, none⟩ := by
  obtain ⟨cs₁, cs₂, rfl, -, -, hafter⟩ := exists_of_log_eq_append h
  obtain rfl : cs₂ = [] := by
    rw [← map_log_runCalls (Outbox.run cfg) _ cs₂, hafter, List.map_nil]
  rw [runCalls_append]
  rfl

theorem only_empty : Outbox.Only compilation execution ⟨none, none⟩ :=
  ⟨fun t ht => absurd ht (Option.not_mem_none t), fun t ht => absurd ht (Option.not_mem_none t)⟩

/-- A compilation that has been stored and is not there has been returned. -/
theorem exists_returnsCompilation
    (hbatch : IsBatchLog compilation execution (runCalls (Outbox.run cfg) ⟨none, none⟩ calls).2)
    (hempty : (runCalls (Outbox.run cfg) ⟨none, none⟩ calls).1 = ⟨none, none⟩) {j : ι} {t : Bytes}
    {a : Taken}
    (h : (j, .setCompilationOutput t, .ok a) ∈ (runCalls (Outbox.run cfg) ⟨none, none⟩ calls).2) :
    ∃ k e, (k, .getResult, .ok (some (limited cfg t), e)) ∈
      (runCalls (Outbox.run cfg) ⟨none, none⟩ calls).2 := by
  have hbalance := countP_returnsCompilation cfg ⟨none, none⟩ calls
  have hsaved : 0 < (runCalls (Outbox.run cfg) ⟨none, none⟩ calls).2.countP savesCompilation :=
    List.countP_pos_iff.mpr ⟨_, h, rfl⟩
  rw [hempty] at hbalance
  have honly := only_of_isBatchLog hbatch
  obtain rfl : t = compilation := honly _ (mem_calls_of_mem_log h)
  obtain ⟨⟨k, c, r⟩, hmem, hreturns⟩ := List.countP_pos_iff.mp
    (hsaved.trans_eq (hbalance.symm.trans (Nat.add_zero _)))
  rw [returnsCompilation] at hreturns
  split at hreturns
  · rename_i x e hr
    obtain ⟨rfl, rfl⟩ := (takesOnly_run only_empty honly _ hmem _ hr).1 x rfl
    exact ⟨k, e, hr ▸ hmem⟩
  · cases hreturns

/-- So has an execution. -/
theorem exists_returnsExecution
    (hbatch : IsBatchLog compilation execution (runCalls (Outbox.run cfg) ⟨none, none⟩ calls).2)
    (hempty : (runCalls (Outbox.run cfg) ⟨none, none⟩ calls).1 = ⟨none, none⟩) {j : ι} {t : Bytes}
    {a : Taken}
    (h : (j, .setExecutionOutput t true, .ok a) ∈
      (runCalls (Outbox.run cfg) ⟨none, none⟩ calls).2) :
    ∃ k c, (k, .getResult, .ok (c, some (limited cfg t))) ∈
      (runCalls (Outbox.run cfg) ⟨none, none⟩ calls).2 := by
  have hbalance := countP_returnsExecution cfg ⟨none, none⟩ calls
  have hsaved : 0 < (runCalls (Outbox.run cfg) ⟨none, none⟩ calls).2.countP savesExecution :=
    List.countP_pos_iff.mpr ⟨_, h, rfl⟩
  rw [hempty] at hbalance
  have honly := only_of_isBatchLog hbatch
  obtain rfl : t = execution := honly _ (mem_calls_of_mem_log h)
  obtain ⟨⟨k, c, r⟩, hmem, hreturns⟩ := List.countP_pos_iff.mp
    (hsaved.trans_eq (hbalance.symm.trans (Nat.add_zero _)))
  rw [returnsExecution] at hreturns
  split at hreturns
  · rename_i x e hr
    obtain ⟨rfl, rfl⟩ := (takesOnly_run only_empty honly _ hmem _ hr).2 e rfl
    exact ⟨k, x, hr ▸ hmem⟩
  · cases hreturns

/-- The calls before and behind the saves of a batch task. -/
theorem forall_getResult_of_saves_eq_nil {log : List (Entry ι)} (h : saves log = []) :
    ∀ entry ∈ log, entry.2.1 = .getResult := by
  intro entry hentry
  have hsave := List.filter_eq_nil_iff.mp h entry.2.1 (List.mem_map_of_mem hentry)
  cases hcall : entry.2.1 with
  | getResult => rfl
  | setCompilationOutput t => exact absurd (by rw [hcall]; rfl) hsave
  | setExecutionOutput t executed => exact absurd (by rw [hcall]; rfl) hsave

theorem saves_append (log log' : List (Entry ι)) : saves (log ++ log') = saves log ++ saves log' := by
  rw [saves, List.map_append, List.filter_append]
  rfl

theorem saves_cons_of_isSave {entry : Entry ι} (h : entry.2.1.isSave = true) (log : List (Entry ι)) :
    saves (entry :: log) = entry.2.1 :: saves log :=
  List.filter_cons_of_pos h

/-- A single save and what is around it. -/
theorem exists_of_saves_eq_singleton {log : List (Entry ι)} {c : OutputCall} (h : saves log = [c]) :
    ∃ before entry after, log = before ++ entry :: after ∧ entry.2.1 = c ∧ saves before = [] ∧
      saves after = [] := by
  induction log with
  | nil => cases h
  | cons entry log ih =>
    cases hsave : entry.2.1.isSave with
    | true =>
      rw [saves_cons_of_isSave hsave] at h
      obtain ⟨rfl, hrest⟩ := List.cons.inj h
      exact ⟨[], entry, log, rfl, rfl, rfl, hrest⟩
    | false =>
      have hskip (log : List (Entry ι)) : saves (entry :: log) = saves log :=
        List.filter_cons_of_neg (by rw [hsave]; exact Bool.false_ne_true)
      rw [hskip] at h
      obtain ⟨before, entry', after, rfl, hc, hbefore, hafter⟩ := ih h
      exact ⟨entry :: before, entry', after, rfl, hc, by rw [hskip, hbefore], hafter⟩

/-- An execution that comes behind a `getResult` is not stored. -/
theorem not_isOk_of_getResult {before between after : List (Entry ι)} {i j : ι}
    {r r' : Except Thrown Taken}
    (hbatch : IsBatchLog compilation execution (runCalls (Outbox.run cfg) ⟨none, none⟩ calls).2)
    (h : (runCalls (Outbox.run cfg) ⟨none, none⟩ calls).2 =
      before ++ (i, .setCompilationOutput compilation, r) ::
        (between ++ (j, .setExecutionOutput execution true, r') :: after))
    (hne : between ≠ []) : ¬ r'.isOk = true := by
  rw [IsBatchLog, h, saves_append, saves_cons_of_isSave rfl, saves_append,
    saves_cons_of_isSave rfl] at hbatch
  have hlength := hbatch.length_le
  simp only [List.length_append, List.length_cons, List.length_nil] at hlength
  have hbetween : saves between = [] := List.eq_nil_of_length_eq_zero (by omega)
  -- the last entry between them has emptied the outbox
  obtain ⟨front, ⟨k, c, x⟩, rfl⟩ := List.eq_nil_or_concat' between |>.resolve_left hne
  obtain rfl : c = .getResult := forall_getResult_of_saves_eq_nil hbetween (k, c, x)
    (List.mem_append_right _ List.mem_cons_self)
  have hsplit : (runCalls (Outbox.run cfg) ⟨none, none⟩ calls).2 =
      (before ++ (i, .setCompilationOutput compilation, r) :: front ++ [(k, .getResult, x)]) ++
        (j, .setExecutionOutput execution true, r') :: after := by
    rw [h]
    simp
  obtain ⟨cs₁, cs₂, -, hlog, rfl, -⟩ := exists_of_log_eq_append hsplit
  rw [run_eq_empty_of_last hlog]
  exact Bool.false_ne_true

/-- An execution that comes right behind the compilation is stored. -/
theorem isOk_of_noneBetween {j : ι} {r' : Except Thrown Taken}
    (hbatch : IsBatchLog compilation execution (runCalls (Outbox.run cfg) ⟨none, none⟩ calls).2)
    (hnone : NoneBetween compilation execution (runCalls (Outbox.run cfg) ⟨none, none⟩ calls).2)
    (h : (j, .setExecutionOutput execution true, r') ∈
      (runCalls (Outbox.run cfg) ⟨none, none⟩ calls).2) : r'.isOk = true := by
  obtain ⟨front, after, hlog⟩ := List.append_of_mem h
  -- the compilation is the only save before
  have hfront : saves front = [.setCompilationOutput compilation] := by
    rw [IsBatchLog, hlog, saves_append, saves_cons_of_isSave rfl] at hbatch
    cases hs : saves front with
    | nil =>
      rw [hs] at hbatch
      cases (List.cons_prefix_cons.mp hbatch).1
    | cons c cs =>
      rw [hs] at hbatch
      obtain ⟨rfl, hrest⟩ := List.cons_prefix_cons.mp hbatch
      have hlength := hrest.length_le
      simp only [List.append_eq, List.length_append, List.length_cons, List.length_nil] at hlength
      rw [List.eq_nil_of_length_eq_zero (by omega : cs.length = 0)]
  obtain ⟨before, ⟨i, c, r⟩, between, rfl, hc, hbefore, hbetween⟩ :=
    exists_of_saves_eq_singleton hfront
  obtain rfl : c = .setCompilationOutput compilation := hc
  have hempty : between = [] := by
    cases between with
    | nil => rfl
    | cons entry between =>
      rw [List.append_assoc, List.cons_append] at hlog
      have hget := forall_getResult_of_saves_eq_nil hbetween entry List.mem_cons_self
      exact absurd hget (hnone before i r (entry :: between) j r' after hlog entry List.mem_cons_self)
  subst hempty
  obtain ⟨cs₁, cs₂, -, hlog₁, rfl, -⟩ := exists_of_log_eq_append hlog
  obtain ⟨cs₀, cs, rfl, hlog₀, -, hnil⟩ := exists_of_log_eq_append hlog₁
  obtain rfl : cs = [] := by
    rw [← map_log_runCalls (Outbox.run cfg) _ cs, hnil, List.map_nil]
  have hgets : ∀ c ∈ cs₀, c.2 = .getResult := by
    intro c hc
    rw [← map_log_runCalls (Outbox.run cfg) ⟨none, none⟩ cs₀, hlog₀] at hc
    obtain ⟨entry, hentry, rfl⟩ := List.mem_map.mp hc
    exact forall_getResult_of_saves_eq_nil hbefore entry hentry
  rw [runCalls_append, run_of_no_saves hgets]
  rfl

end Batch

end Outbox

/-! ## Every run -/

/-- What a run may not lose: the execution is stored, each output is returned once at most, and
behind a `getResult` nothing is stored and everything that has been stored has been returned. -/
structure NoResultLost {ι : Type*} (cfg : Configuration) (uid : ℕ) (execution : Bytes)
    (s : System ι OutputCall Files (Except Thrown Taken)) : Prop where
  stored : ∀ i r, (i, .setExecutionOutput execution true, r) ∈ s.log → r.isOk = true
  compilation_once : s.log.countP returnsCompilation ≤ 1
  execution_once : s.log.countP returnsExecution ≤ 1
  drained : ∀ before i r, s.log = before ++ [(i, .getResult, r)] → s.lock = none →
    outbox cfg uid s.shared = ⟨none, none⟩ ∧
      (∀ j t a, (j, .setCompilationOutput t, .ok a) ∈ s.log →
        ∃ k e, (k, .getResult, .ok (some (limited cfg t), e)) ∈ s.log) ∧
      ∀ j t a, (j, .setExecutionOutput t true, .ok a) ∈ s.log →
        ∃ k c, (k, .getResult, .ok (c, some (limited cfg t))) ∈ s.log

section Runs

variable {ι : Type*} [DecidableEq ι] {cfg : Configuration} {uid : ℕ} {pm : ι → ProcessMonitor}

/-- The calls of a run are calls on the outbox. -/
theorem exists_calls_outbox (hwritable : Writable cfg uid) (hpm : ∀ i, IsBatch uid (pm i))
    {files : Files} (hfiles : Holds cfg uid files ⟨none, none⟩)
    {s : System ι OutputCall Files (Except Thrown Taken)}
    (h : Reaches (fun i => OutputCall.run cfg (pm i)) (fun _ _ _ => True) (System.initial files) s) :
    ∃ calls, s.log = (runCalls (Outbox.run cfg) ⟨none, none⟩ calls).2 ∧
      (s.lock = none → outbox cfg uid s.shared =
        (runCalls (Outbox.run cfg) ⟨none, none⟩ calls).1) := by
  obtain ⟨calls, -, hlog, hshared⟩ := (serial_of_reaches h).shared_eq
  obtain ⟨hbox, hsame⟩ := runCalls_simulation (fun i => OutputCall.run cfg (pm i)) (Outbox.run cfg)
    (R := Holds cfg uid) (fun _ _ i c hholds => holds_run hwritable (hpm i) hholds c) hfiles calls
  refine ⟨calls, hlog.trans hsame, fun hlock => ?_⟩
  rw [hshared hlock]
  exact hbox.2

/-- In every run of a batch task whose compilation and execution are stored in this order, no result
is lost exactly if no `getResult` is between the two. -/
theorem noResultLost_iff (hwritable : Writable cfg uid) (hpm : ∀ i, IsBatch uid (pm i))
    {files : Files} (hfiles : Holds cfg uid files ⟨none, none⟩) {compilation execution : Bytes}
    {s : System ι OutputCall Files (Except Thrown Taken)}
    (h : Reaches (fun i => OutputCall.run cfg (pm i)) (fun _ _ _ => True) (System.initial files) s)
    (hbatch : IsBatchLog compilation execution s.log) :
    NoResultLost cfg uid execution s ↔ NoneBetween compilation execution s.log := by
  obtain ⟨calls, hlog, hbox⟩ := exists_calls_outbox hwritable hpm hfiles h
  rw [hlog] at hbatch
  constructor
  · rintro ⟨hstored, -, -, -⟩ before i r between j r' after heq entry hentry hget
    have hmem : (j, .setExecutionOutput execution true, r') ∈ s.log := by
      rw [heq]
      exact List.mem_append_right _ (List.mem_cons_of_mem _ (List.mem_append_right _
        List.mem_cons_self))
    exact not_isOk_of_getResult hbatch (hlog.symm.trans heq) (List.ne_nil_of_mem hentry)
      (hstored j r' hmem)
  · intro hnone
    rw [hlog] at hnone
    obtain ⟨hcompilation, hexecution⟩ := countP_returns_le_one hbatch
    refine ⟨fun i r hmem => ?_, by rw [hlog]; exact hcompilation, by rw [hlog]; exact hexecution,
      fun before i r hlast hlock => ?_⟩
    · rw [hlog] at hmem
      exact isOk_of_noneBetween hbatch hnone hmem
    · rw [hlog] at hlast ⊢
      have hempty := run_eq_empty_of_last hlast
      exact ⟨(hbox hlock).trans hempty,
        fun j t a hmem => exists_returnsCompilation hbatch hempty hmem,
        fun j t a hmem => exists_returnsExecution hbatch hempty hmem⟩

end Runs

/-! ## A result that is fetched while the task runs -/

theorem writable_example : Writable .default 10001 :=
  ⟨by decide +kernel, by decide +kernel, by decide, by decide⟩

theorem isBatch_createdTask : IsBatch 10001 ⟨10001, .admin, createdTask⟩ :=
  ⟨rfl, rfl, rfl⟩

theorem holds_createdFiles : Holds .default 10001 createdFiles ⟨none, none⟩ := by
  refine ⟨⟨createdTask, ?_⟩, ?_⟩
  · rw [createdFiles, if_pos rfl]
    exact readInfo_serialize_store fits_createdTask isPlainData_empty
  · have hnone {name : Bytes} (hname : name ≠ ascii "config") :
        createdFiles (controlFile .default 10001 name) = none := if_neg (controlFile_ne_config hname)
    rw [outbox, hnone (by decide +kernel), hnone (by decide +kernel)]

/-- The calls of the examples on the created task. -/
abbrev exampleRun (_ : Bool) : OutputCall → Prog Files (Except Thrown Taken) :=
  OutputCall.run .default ⟨10001, .admin, createdTask⟩

/-- A batch task that is asked for its results at its end. -/
def fetchAtEnd : List (Bool × OutputCall) :=
  [(false, .setCompilationOutput (ascii "c")), (false, .setExecutionOutput (ascii "e") true),
    (true, .getResult)]

/-- A batch task that is asked for its results while its program runs. -/
def fetchBetween : List (Bool × OutputCall) :=
  [(false, .setCompilationOutput (ascii "c")), (true, .getResult),
    (false, .setExecutionOutput (ascii "e") true)]

/-- The examples on the outbox. -/
theorem log_exampleRun (calls : List (Bool × OutputCall)) :
    (runCalls exampleRun createdFiles calls).2 =
      (runCalls (Outbox.run .default) ⟨none, none⟩ calls).2 :=
  (runCalls_simulation exampleRun (Outbox.run .default) (R := Holds .default 10001)
    (fun _ _ _ c hholds => holds_run writable_example isBatch_createdTask hholds c)
    holds_createdFiles calls).2

theorem isBatchLog_fetchAtEnd :
    IsBatchLog (ascii "c") (ascii "e") (runCalls exampleRun createdFiles fetchAtEnd).2 := by
  rw [log_exampleRun, IsBatchLog, saves_log]
  exact List.prefix_refl _

theorem noResultLost_iff_fetchAtEnd :
    NoResultLost .default 10001 (ascii "e")
        (⟨(runCalls exampleRun createdFiles fetchAtEnd).1, none, fun _ => .idle,
          (runCalls exampleRun createdFiles fetchAtEnd).2⟩ :
          System Bool OutputCall Files (Except Thrown Taken)) ↔
      NoneBetween (ascii "c") (ascii "e") (runCalls exampleRun createdFiles fetchAtEnd).2 :=
  noResultLost_iff writable_example (fun _ => isBatch_createdTask) holds_createdFiles
    (reaches_of_calls (callsOk_true exampleRun createdFiles fetchAtEnd)) isBatchLog_fetchAtEnd

/-- The execution is lost if the compilation has been fetched before. -/
theorem not_noResultLost :
    Holds .default 10001 createdFiles ⟨none, none⟩ ∧
      ¬ ∀ s : System Bool OutputCall Files (Except Thrown Taken),
        Reaches exampleRun (fun _ _ _ => True) (System.initial createdFiles) s →
          IsBatchLog (ascii "c") (ascii "e") s.log →
            NoResultLost .default 10001 (ascii "e") s := by
  refine ⟨holds_createdFiles, fun h => ?_⟩
  have hlog := log_exampleRun fetchBetween
  have hbatch : IsBatchLog (ascii "c") (ascii "e")
      (runCalls exampleRun createdFiles fetchBetween).2 := by
    rw [hlog, IsBatchLog, saves_log]
    exact List.prefix_refl _
  have hrun := h _ (reaches_of_calls (callsOk_true exampleRun createdFiles fetchBetween)) hbatch
  have hmem : (false, .setExecutionOutput (ascii "e") true,
      .error (.text "Execution not saved because compilation is missing")) ∈
        (runCalls exampleRun createdFiles fetchBetween).2 := by
    rw [hlog]
    exact List.mem_cons_of_mem _ (List.mem_cons_of_mem _ List.mem_cons_self)
  exact Bool.false_ne_true (hrun.stored false _ hmem)

end VplJail.Task.Locked
