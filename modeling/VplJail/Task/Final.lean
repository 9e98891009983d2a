import VplJail.Task.ListedTickets

/-!
# Cleaning is final

Once the first section of `cleanTask` has marked a task, its mark stays as long as its configuration
does, its tickets are gone for good and open nothing, and an operation that would write anything for
the task throws (`isFinal_of_reaches`). Only another `cleanTask` does not (`not_throwsAlways`): it marks
the task again.
-/

namespace VplJail.Task.Lifecycle

open CriticalSection ConfigurationFile Util

/-! ## Calls on a task -/

/-- The calls that take the lock of a task, `cleanTask` with its first section. -/
inductive TaskCall
  | operation (op : Operation)
  | cleanTask

/-- The steps of a call under the lock. -/
def TaskCall.run (cfg : Configuration) (pm : ProcessMonitor) : TaskCall → FileM Unit
  | operation op => do
      let _ ← op.run cfg pm
      pure ()
  | cleanTask => Locked.markTask cfg pm

/-- The call writes to some files. -/
def TaskCall.Writes (cfg : Configuration) (pm : ProcessMonitor) (call : TaskCall) : Prop :=
  ∃ files, (Prog.runExcept (call.run cfg pm) files).1 ≠ files

section Calls

variable {cfg : Configuration} {pm : ProcessMonitor} {files : Files}

/-- A task that cannot be opened is not read. -/
theorem infoOrThrow_of_unopenable (h : Unopenable cfg pm.prisoner files) :
    ∃ e, infoOrThrow (files (processConfigFile cfg pm.prisoner)) = .error e := by
  rw [infoOrThrow]
  cases hinfo : readInfo (files (processConfigFile cfg pm.prisoner)) with
  | failed => exact ⟨_, rfl⟩
  | cleaning info => exact ⟨_, rfl⟩
  | ok info => exact absurd hinfo (h info)

theorem files_loadState (cfg : Configuration) (pm : ProcessMonitor) (files : Files) :
    (Prog.runExcept (loadState cfg pm) files).1 = files := by
  rw [loadState, Prog.runExcept_bind, run_look]
  dsimp only
  split
  · rfl
  · split <;> rfl

/-- An operation on a task that cannot be opened throws, or it writes to no files at all. -/
theorem run_of_unopenable (h : Unopenable cfg pm.prisoner files) (op : Operation) :
    (∃ e, Prog.runExcept (op.run cfg pm) files = (files, .error e)) ∨
      ∀ files', (Prog.runExcept (op.run cfg pm) files').1 = files' := by
  obtain ⟨e, he⟩ := infoOrThrow_of_unopenable h
  cases op with
  | update u =>
    by_cases hidle : u.isIdle pm.security = true
    · refine .inr fun files' => ?_
      rw [Operation.run, Locked.run_update, if_pos hidle]
    · refine .inl ⟨e, ?_⟩
      rw [Operation.run, Locked.run_update, if_neg hidle, he]
  | setCompilationOutput compilation =>
    have hrun : Prog.runExcept (Locked.setCompilationOutput cfg compilation pm) files =
        (files, .error e) := by
      rw [Locked.setCompilationOutput, Prog.runExcept_bind, Locked.run_loadInfo, he]
    exact .inl ⟨e, by rw [Operation.run, Prog.runExcept_bind, hrun]⟩
  | setExecutionOutput execution executed =>
    have hrun : Prog.runExcept (Locked.setExecutionOutput cfg execution executed pm) files =
        (files, .error e) := by
      rw [Locked.setExecutionOutput, Prog.runExcept_bind, Locked.run_loadInfo, he]
    exact .inl ⟨e, by rw [Operation.run, Prog.runExcept_bind, hrun]⟩
  | getState => exact .inr (files_loadState cfg pm)

/-- So a call that writes throws, unless it is `cleanTask`. -/
theorem throws_of_unopenable (h : Unopenable cfg pm.prisoner files) {call : TaskCall}
    (hcall : call ≠ .cleanTask) (hwrites : call.Writes cfg pm) :
    ∃ e, Prog.runExcept (call.run cfg pm) files = (files, .error e) := by
  cases call with
  | cleanTask => exact absurd rfl hcall
  | operation op =>
    rcases run_of_unopenable h op with ⟨e, he⟩ | hnone
    · refine ⟨e, ?_⟩
      rw [TaskCall.run, Prog.runExcept_bind, he]
    · obtain ⟨files', hne⟩ := hwrites
      refine absurd ?_ hne
      rw [TaskCall.run, Prog.runExcept_bind]
      have hfiles := hnone files'
      generalize Prog.runExcept (op.run cfg pm) files' = outcome at hfiles ⊢
      obtain ⟨files'', e | pm'⟩ := outcome
      · exact hfiles
      · exact hfiles

end Calls

/-! ## A marked task -/

/-- The mark is in the configuration, as long as there is one. -/
def Marked (cfg : Configuration) (uid : ℕ) (files : Files) : Prop :=
  ∀ content, files (processConfigFile cfg uid) = some content →
    ∃ data, readTask (some content) = some data ∧ valueOf data (ascii "CLEANING") = ascii "1"

/-- Nothing happens to a task but that it is marked once more or removed, and no ticket is written. -/
structure Ceases (cfg : Configuration) (uid : ℕ) (files files' : Files) : Prop where
  config : files' (processConfigFile cfg uid) = files (processConfigFile cfg uid) ∨
    files' (processConfigFile cfg uid) = none ∨
      files' (processConfigFile cfg uid) =
        (markCleaning cfg uid files).1 (processConfigFile cfg uid)
  tickets : ∀ ticket, IsName ticket →
    files' (ticketPath cfg ticket) = files (ticketPath cfg ticket) ∨
      files' (ticketPath cfg ticket) = none

section Marked

variable {cfg : Configuration} {control : ℕ → Bool} {uid : ℕ} {files files' : Files}
  {pm : ProcessMonitor}

/-- A marked task cannot be opened. -/
theorem Marked.unopenable (h : Marked cfg uid files) : Unopenable cfg uid files := by
  intro info hinfo
  obtain ⟨content, data, hconfig, hread, rfl⟩ := readTask_of_readInfo hinfo
  obtain ⟨data', hread', hmark⟩ := h content hconfig
  obtain rfl := Option.some.inj (hread'.symm.trans hread)
  have hcleaning := cleaning_of_readInfo hinfo
  change (valueOf data' (ascii "CLEANING") == ascii "1") = false at hcleaning
  rw [hmark, beq_self_eq_true] at hcleaning
  cases hcleaning

/-- A task of the table is marked by `cleanTask`. -/
theorem Table.marked (h : Table cfg control files) (uid : ℕ) :
    Marked cfg uid (markCleaning cfg uid files).1 := by
  intro content hcontent
  rw [markCleaning] at hcontent
  cases hconfig : files (processConfigFile cfg uid) with
  | none =>
    rw [hconfig] at hcontent
    dsimp only at hcontent
    rw [hconfig] at hcontent
    cases hcontent
  | some old =>
    obtain ⟨-, data, hread, hdata⟩ := h.config uid old hconfig
    have hread' : readConfiguration old ∅ = some data := hread
    rw [hconfig] at hcontent
    dsimp only at hcontent
    rw [hread'] at hcontent
    dsimp only at hcontent
    rw [Function.update_self] at hcontent
    obtain ⟨read, hback, -, hvalues⟩ := hdata.insert_cleaning.exists_readTask
    refine ⟨read, hcontent ▸ hback, ?_⟩
    rw [hvalues, valueOf, Std.TreeMap.getElem?_insert_self, Option.getD_some]

/-- The mark stays. -/
theorem Marked.of_ceases (h : Marked cfg uid files) (htable : Table cfg control files)
    (hceases : Ceases cfg uid files files') : Marked cfg uid files' := by
  intro content hcontent
  rcases hceases.config with heq | hnone | hmark
  · exact h content (heq ▸ hcontent)
  · cases hnone.symm.trans hcontent
  · exact htable.marked uid content (hmark ▸ hcontent)

theorem Ceases.refl (cfg : Configuration) (uid : ℕ) (files : Files) : Ceases cfg uid files files :=
  ⟨.inl rfl, fun _ _ => .inl rfl⟩

/-- Tickets are removed. -/
theorem Ceases.of_removed {files₁ : Files} (h : Ceases cfg uid files files₁)
    (hconfig : files' (processConfigFile cfg uid) = files₁ (processConfigFile cfg uid))
    (hother : ∀ path, files' path = files₁ path ∨ files' path = none) :
    Ceases cfg uid files files' := by
  refine ⟨by rw [hconfig]; exact h.config, fun ticket hname => ?_⟩
  rcases hother (ticketPath cfg ticket) with heq | hnone
  · rw [heq]
    exact h.tickets ticket hname
  · exact .inr hnone

/-- A configuration that is written is not that of the task. -/
theorem Ceases.store {files₁ : Files} (h : Ceases cfg uid files files₁) {uid' : ℕ}
    (huid : uid' ≠ uid) (content : Option Bytes) :
    Ceases cfg uid files (Function.update files₁ (processConfigFile cfg uid') content) := by
  refine ⟨?_, fun ticket hname => ?_⟩
  · rw [Function.update_of_ne fun heq => huid (configFile_injective heq).symm]
    exact h.config
  · rw [Function.update_of_ne (ticketPath_ne_config hname.slash uid')]
    exact h.tickets ticket hname

/-- A task is marked, this one or another. -/
theorem ceases_markCleaning (cfg : Configuration) (uid uid' : ℕ) (files : Files) :
    Ceases cfg uid files (markCleaning cfg uid' files).1 := by
  by_cases huid : uid' = uid
  · subst huid
    exact ⟨.inr (.inr rfl), fun ticket hname =>
      .inl (markCleaning_of_ne (ticketPath_ne_config hname.slash uid'))⟩
  · refine ⟨.inl (markCleaning_of_ne fun heq => huid (configFile_injective heq).symm),
      fun ticket hname => .inl (markCleaning_of_ne (ticketPath_ne_config hname.slash uid'))⟩

theorem Ceases.removeTickets {files₁ : Files} (h : Ceases cfg uid files files₁)
    {tickets : List Bytes} (hnames : ∀ ticket ∈ tickets, (47 : UInt8) ∉ ticket) :
    Ceases cfg uid files (tickets.foldl (removeTicketFile cfg) files₁) :=
  h.of_removed (removeTickets_of_ne (fun ticket hmem =>
    ticketPath_ne_of_notMem (hnames ticket hmem) uid) files₁) fun _ => removeTickets_eq_or _ _ _

/-- The first section of `cleanTask`, of any task. -/
theorem Table.ceases_markTask {w : World} (h : Table cfg control w.files)
    (hinfo : PlainInfo pm.info) (uid : ℕ) :
    Ceases cfg uid w.files (markTask cfg pm w).files :=
  (ceases_markCleaning cfg uid pm.prisoner w.files).removeTickets fun _ => h.notMem_tickets hinfo

/-- It marks its own task. -/
theorem Table.marked_markTask {w : World} (h : Table cfg control w.files)
    (hinfo : PlainInfo pm.info) : Marked cfg pm.prisoner (markTask cfg pm w).files :=
  (h.marked pm.prisoner).of_ceases (h.keeps_markCleaning pm.prisoner).1.table
    ((Ceases.refl cfg pm.prisoner _).removeTickets fun _ => h.notMem_tickets hinfo)

/-- The second section of `cleanTask`. -/
theorem Table.ceases_clean {w : World} (h : Table cfg control w.files) (uid uid' : ℕ) :
    Ceases cfg uid w.files (cleanPrisonerFiles cfg uid' w).files := by
  have htickets := (ceases_markCleaning cfg uid uid' w.files).removeTickets fun _ =>
    (h.keeps_markCleaning uid').2.1.notMem
  have hother (files : Files) (path : Bytes) : removeControlDir cfg uid' files path = files path ∨
      removeControlDir cfg uid' files path = none := by
    rw [removeControlDir]
    split
    · exact .inr rfl
    · exact .inl rfl
  by_cases huid : uid' = uid
  · subst huid
    refine ⟨.inr (.inl (if_pos (isPrefixOf_configFile cfg uid'))), fun ticket hname => ?_⟩
    rcases hother _ (ticketPath cfg ticket) with heq | hnone
    · rw [cleanPrisonerFiles]
      dsimp only
      rw [heq]
      exact htickets.tickets ticket hname
    · exact .inr hnone
  · exact htickets.of_removed
      (if_neg fun hprefix => huid (eq_of_isPrefixOf_configFile hprefix)) (hother _)

/-- The use of a ticket does not open a marked task. -/
theorem Marked.ceases_opening (h : Marked cfg uid files) {pid : ℤ} {ticket : Bytes}
    (hformat : hasTicketFormat ticket = true) {outcome : Files × Except Thrown ProcessMonitor}
    (hopen : Opening cfg pid (ticketPath cfg ticket) files outcome) :
    Ceases cfg uid files outcome.1 ∧ ∀ pm, outcome.2 = .ok pm → pm.prisoner ≠ uid := by
  have huse (security : SecurityLevel) :
      Ceases cfg uid files (afterUse (ticketPath cfg ticket) security files) :=
    (Ceases.refl cfg uid files).of_removed (afterUse_config hformat security files uid)
      (afterUse_eq_or _ security files)
  have hother {security : SecurityLevel} {prisoner : ℕ} {info : Info}
      (hinfo : infoOrThrow (afterUse (ticketPath cfg ticket) security files
        (processConfigFile cfg prisoner)) = .ok info) : prisoner ≠ uid := by
    rintro rfl
    rw [afterUse_config hformat] at hinfo
    exact h.unopenable info (infoOrThrow_eq_ok hinfo)
  cases hopen with
  | refused e hticket => exact ⟨.refl cfg uid files, fun _ hok => by cases hok⟩
  | wasted e hticket hfailed => exact ⟨huse _, fun _ hok => by cases hok⟩
  | opened hticket hsecurity hinfo =>
    refine ⟨huse _, fun pm hok => ?_⟩
    obtain rfl := Except.ok.inj hok
    exact hother hinfo
  | monitored hticket hinfo hpid hwrite =>
    refine ⟨(huse .monitor).store (hother hinfo) _, fun pm hok => ?_⟩
    obtain rfl := Except.ok.inj hok
    exact hother hinfo

theorem Marked.ceases_ofTicket (h : Marked cfg uid files) (pid : ℤ) (ticket : Bytes) :
    Ceases cfg uid files (Prog.runExcept (ofTicket cfg pid ticket) files).1 ∧
      ∀ pm, (Prog.runExcept (ofTicket cfg pid ticket) files).2 = .ok pm → pm.prisoner ≠ uid := by
  rw [ofTicket, Prog.runExcept_ite]
  split
  · exact h.ceases_opening ‹_› (run_openTicket cfg pid _ files)
  · rw [Prog.runExcept_throw]
    exact ⟨.refl cfg uid files, fun _ hok => by cases hok⟩

end Marked

/-! ## Steps behind the mark -/

/-- No task is created, and the operations are those on one task. -/
def Remains (uid : ℕ) (s : Server) : Action → Prop
  | .select _ _ => False
  | .create _ _ _ => False
  | .operate i _ => ∀ o, s.holder i .idle = some o → o.pm.prisoner = uid
  | _ => True

section Steps

variable {cfg : Configuration} {s s' : Server} {a : Action} {uid : ℕ}

/-- An operation on a marked task leaves the files. -/
theorem files_operate (h : Unopenable cfg uid s.world.files) (i : ℕ) {o : Object}
    (ho : o.pm.prisoner = uid) (op : Operation) :
    (s.operate cfg i o op).world.files = s.world.files := by
  subst ho
  have hrun : (Prog.runExcept (op.run cfg o.pm) s.world.files).1 = s.world.files := by
    rcases run_of_unopenable h op with ⟨e, he⟩ | hnone
    · rw [he]
    · exact hnone _
  rw [Server.operate]
  split <;> rename_i heq <;> rw [heq] at hrun <;> exact hrun

/-- What one step does to a marked task. -/
theorem ceases_step (hs : Tabled cfg s) (hmarked : Marked cfg uid s.world.files)
    (ha : Remains uid s a) (h : step cfg s a = some s') :
    Ceases cfg uid s.world.files s'.world.files := by
  cases effect_of_step h with
  | selected draws faults haction hselect =>
    subst haction
    exact ha.elim
  | created k tickets now c haction hc hfresh hcreate =>
    subst haction
    exact ha.elim
  | used pid ticket hsettled hfiles hobjects =>
    exact hfiles ▸ (hmarked.ceases_ofTicket pid ticket).1
  | operated i op o haction ho hoperate =>
    subst haction hoperate
    rw [files_operate hmarked.unopenable i (ha o ho) op]
    exact .refl cfg uid _
  | marked i o haction ho hsettled hfiles hobjects =>
    exact hfiles ▸ hs.table.ceases_markTask (hs.objects o (mem_of_holder ho)).info uid
  | cleaned uid' hremoves hcreations hcontrol hfiles hobjects =>
    exact hfiles ▸ hs.table.ceases_clean uid uid'
  | kept hsettled hfiles hobjects =>
    exact hfiles ▸ .refl cfg uid _

end Steps

/-! ## Every run -/

/-- The tickets that a configuration lists and those that an object has in memory. -/
def taskTickets (cfg : Configuration) (files : Files) (pm : ProcessMonitor) : List Bytes :=
  ticketsOf (markCleaning cfg pm.prisoner files).2 ++ pm.info.tickets

/-- The tickets are gone, and no ticket names the prisoner. -/
structure Gone (cfg : Configuration) (uid : ℕ) (tickets : List Bytes) (files : Files) : Prop where
  tickets : ∀ ticket ∈ tickets, IsName ticket → files (ticketPath cfg ticket) = none
  named : ∀ ticket content : Bytes, IsName ticket → files (ticketPath cfg ticket) = some content →
    ∀ level, readTicket cfg (some content) ≠ .ok (uid, level)

/-- The task is over: its mark stays as long as its configuration, it has no ticket, no call opens it
and its tickets open nothing, and what would write anything for it throws, unless it is `cleanTask`. -/
structure IsFinal (cfg : Configuration) (uid : ℕ) (tickets : List Bytes) (s : Server) : Prop where
  mark : Marked cfg uid s.world.files
  gone : Gone cfg uid tickets s.world.files
  opened : ∀ pid ticket pm,
    (Prog.runExcept (ofTicket cfg pid ticket) s.world.files).2 = .ok pm → pm.prisoner ≠ uid
  tickets : ∀ pid ticket, cstr (trimAndRemoveQuotes ticket) ∈ tickets →
    ∃ e, Prog.runExcept (ofTicket cfg pid ticket) s.world.files = (s.world.files, .error e)
  calls : ∀ o ∈ s.objects, o.pm.prisoner = uid → ∀ call : TaskCall, call ≠ .cleanTask →
    call.Writes cfg o.pm →
      ∃ e, Prog.runExcept (call.run cfg o.pm) s.world.files = (s.world.files, .error e)

section Runs

variable {cfg : Configuration} {control : ℕ → Bool} {uid : ℕ} {tickets : List Bytes}
  {files files' : Files} {pm : ProcessMonitor} {s : Server}

/-- The first section of `cleanTask` removes the tickets. -/
theorem Table.gone {w : World} (h : Table cfg control w.files) :
    Gone cfg pm.prisoner (taskTickets cfg w.files pm) (markTask cfg pm w).files := by
  obtain ⟨hmark, -, -⟩ := h.keeps_markCleaning pm.prisoner
  refine ⟨fun ticket hticket hname => ?_, fun ticket content hname hcontent level => ?_⟩
  · cases hfile : (markCleaning cfg pm.prisoner w.files).1 (ticketPath cfg ticket) with
    | none => exact removeTickets_eq_none hfile _
    | some content =>
      exact removeTickets_of_mem hticket hname.ne_nil
        (hmark.table.paths ticket content hname hfile) _
  · exact h.readTicket_ne pm.prisoner (List.subset_append_left _ _) hname hcontent level

/-- Tickets that are gone do not come back. -/
theorem Gone.of_ceases (h : Gone cfg uid tickets files) (hceases : Ceases cfg uid files files') :
    Gone cfg uid tickets files' := by
  refine ⟨fun ticket hticket hname => ?_, fun ticket content hname hcontent => ?_⟩
  · rcases hceases.tickets ticket hname with heq | hnone
    · rw [heq, h.tickets ticket hticket hname]
    · exact hnone
  · rcases hceases.tickets ticket hname with heq | hnone
    · exact h.named ticket content hname (heq ▸ hcontent)
    · cases hnone.symm.trans hcontent

/-- A ticket that is gone opens nothing. -/
theorem Gone.run_ofTicket (h : Gone cfg uid tickets files) (pid : ℤ) {ticket : Bytes}
    (hticket : cstr (trimAndRemoveQuotes ticket) ∈ tickets) :
    ∃ e, Prog.runExcept (ofTicket cfg pid ticket) files = (files, .error e) := by
  rw [ofTicket, Prog.runExcept_ite]
  split
  · rename_i hformat
    obtain ⟨hne, hdigits⟩ := digits_of_hasTicketFormat hformat
    have hnone : (files (cstr (ticketPath cfg (trimAndRemoveQuotes ticket)))).isNone = true := by
      rw [cstr_ticketPath, h.tickets _ hticket (isName_of_digits hne hdigits)]
      rfl
    rw [openTicket, Prog.runExcept_bind, run_look]
    dsimp only
    rw [Prog.runExcept_ite, if_pos hnone]
    exact ⟨_, Prog.runExcept_throw _ _⟩
  · exact ⟨_, Prog.runExcept_throw _ _⟩

/-- A task that is marked and whose tickets are gone is over. -/
theorem isFinal_of_marked (hmarked : Marked cfg uid s.world.files)
    (hgone : Gone cfg uid tickets s.world.files) : IsFinal cfg uid tickets s := by
  refine ⟨hmarked, hgone, fun pid ticket => (hmarked.ceases_ofTicket pid ticket).2,
    fun pid ticket => hgone.run_ofTicket pid, fun o _ ho call => ?_⟩
  subst ho
  exact throws_of_unopenable hmarked.unopenable

/-- In every run on a task behind the first section of a `cleanTask`, the task is over. -/
theorem isFinal_of_reaches {s₀ s₁ s₂ : Server} (h₀ : s₀.IsInitial)
    (h₁ : Reaches cfg (Orderly cfg) s₀ s₁) {i : ℕ} {o : Object} (ho : s₁.holder i .idle = some o)
    (hmark : step cfg s₁ (.mark i) = some s₂)
    (h : Reaches cfg (fun s a => Orderly cfg s a ∧ Remains o.pm.prisoner s a) s₂ s) :
    IsFinal cfg o.pm.prisoner (taskTickets cfg s₁.world.files o.pm) s := by
  have htabled₁ : Tabled cfg s₁ := tabled_of_reaches h₀ h₁
  have hidle : Orderly cfg s₁ (.mark i) := ⟨trivial, fun _ hremoves => by cases hremoves⟩
  have htabled₂ : Tabled cfg s₂ := (tabled_step htabled₁ hidle hmark).1
  have hinfo := (htabled₁.objects o (mem_of_holder ho)).info
  have hfiles : s₂.world.files = (markTask cfg o.pm s₁.world).files := by
    rw [← Option.some.inj ((congrArg (Option.map _) ho).symm.trans hmark)]
  -- the table, the mark and the missing tickets carry each other through the run
  have hover : Tabled cfg s ∧ Marked cfg o.pm.prisoner s.world.files ∧
      Gone cfg o.pm.prisoner (taskTickets cfg s₁.world.files o.pm) s.world.files := by
    refine invariant (P := fun s => Tabled cfg s ∧ Marked cfg o.pm.prisoner s.world.files ∧
      Gone cfg o.pm.prisoner (taskTickets cfg s₁.world.files o.pm) s.world.files)
      ⟨htabled₂, ?_, ?_⟩ (fun s a s' hs ha hstep => ?_) h
    · rw [hfiles]
      exact htabled₁.table.marked_markTask hinfo
    · rw [hfiles]
      exact htabled₁.table.gone
    · obtain ⟨htabled, hmarked, hgone⟩ := hs
      have hceases := ceases_step htabled hmarked ha.2 hstep
      exact ⟨(tabled_step htabled ha.1 hstep).1, hmarked.of_ceases htabled.table hceases,
        hgone.of_ceases hceases⟩
  exact isFinal_of_marked hover.2.1 hover.2.2

end Runs

/-- A task is marked, and then its admin ticket is presented. -/
theorem isFinal_newTask :
    ∃ s₁ s₂ s o, run .default started (newTask firstTickets) = some s₁ ∧
      s₁.holder 0 .idle = some o ∧ step .default s₁ (.mark 0) = some s₂ ∧
      run .default s₂ [.check 0, .enter 500 (ascii "11")] = some s ∧
      IsFinal .default o.pm.prisoner (taskTickets .default s₁.world.files o.pm) s := by
  have hrun : ((run .default started (newTask firstTickets)).bind fun s₁ =>
      (s₁.holder 0 .idle).bind fun _ => (step .default s₁ (.mark 0)).bind fun s₂ =>
        run .default s₂ [.check 0, .enter 500 (ascii "11")]).isSome = true := by decide +kernel
  obtain ⟨s, hs⟩ := Option.isSome_iff_exists.mp hrun
  obtain ⟨s₁, hs₁, hs⟩ := Option.bind_eq_some_iff.mp hs
  obtain ⟨o, ho, hs⟩ := Option.bind_eq_some_iff.mp hs
  obtain ⟨s₂, hs₂, hs⟩ := Option.bind_eq_some_iff.mp hs
  refine ⟨s₁, s₂, s, o, hs₁, ho, hs₂, hs, isFinal_of_reaches isInitial_started
    (reaches_of_run hs₁ (allowed_of_forall orderly_newTask)) ho hs₂
    (reaches_of_run hs (allowed_of_forall ?_))⟩
  simp only [List.forall_mem_cons]
  exact ⟨fun _ => ⟨⟨trivial, fun _ hremoves => by cases hremoves⟩, trivial⟩,
    fun _ => ⟨⟨trivial, fun _ hremoves => by cases hremoves⟩, trivial⟩, fun _ ha => absurd ha List.not_mem_nil⟩

/-- Another `cleanTask` does not throw. -/
theorem not_throwsAlways :
    ¬ ∀ s₀ s₁ s₂ s i o, s₀.IsInitial → Reaches .default (Orderly .default) s₀ s₁ →
      s₁.holder i .idle = some o → step .default s₁ (.mark i) = some s₂ →
      Reaches .default (fun s a => Orderly .default s a ∧ Remains o.pm.prisoner s a) s₂ s →
      ∀ o' ∈ s.objects, o'.pm.prisoner = o.pm.prisoner → ∀ call : TaskCall,
        call.Writes .default o'.pm →
          ∃ files e, Prog.runExcept (call.run .default o'.pm) s.world.files = (files, .error e) := by
  have hrun : ((run .default started (newTask firstTickets)).bind fun s₁ =>
      (s₁.holder 0 .idle).bind fun _ => (step .default s₁ (.mark 0)).map fun s₂ =>
        ((s₁.world.files (ticketPath .default (ascii "11"))).isSome,
          (s₂.world.files (ticketPath .default (ascii "11"))).isSome)) = some (true, false) := by
    decide +kernel
  obtain ⟨s₁, hs₁, hrun⟩ := Option.bind_eq_some_iff.mp hrun
  obtain ⟨o, ho, hrun⟩ := Option.bind_eq_some_iff.mp hrun
  obtain ⟨s₂, hs₂, hvalues⟩ := Option.map_eq_some_iff.mp hrun
  obtain ⟨hbefore, hafter⟩ := Prod.mk.inj hvalues
  obtain rfl := Option.some.inj ((congrArg (Option.map _) ho).symm.trans hs₂)
  have hmark (files : Files) : Prog.runExcept (TaskCall.cleanTask.run .default o.pm) files =
      ((markTask .default o.pm { s₁.world with files := files }).files, .ok ()) :=
    Locked.run_markTask o.pm { s₁.world with files := files }
  have hwrites : TaskCall.cleanTask.Writes .default o.pm := by
    refine ⟨s₁.world.files, fun heq => ?_⟩
    rw [hmark] at heq
    have hsame : (s₁.world.files (ticketPath .default (ascii "11"))).isSome = false :=
      heq ▸ hafter
    rw [hbefore] at hsame
    cases hsame
  intro h
  have hmem : { o with phase := .marked } ∈ s₁.objects.set 0 { o with phase := .marked } := by
    obtain ⟨hlt, -⟩ := List.getElem?_eq_some_iff.mp (holder_eq_some.mp ho).1
    exact List.mem_set hlt _
  obtain ⟨files, e, he⟩ := h _ _ _ _ 0 o isInitial_started
    (reaches_of_run hs₁ (allowed_of_forall orderly_newTask)) ho hs₂ .refl _ hmem rfl _ hwrites
  rw [hmark] at he
  cases (Prod.mk.inj he).2

end VplJail.Task.Lifecycle
