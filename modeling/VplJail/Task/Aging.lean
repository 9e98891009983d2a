import VplJail.Task.ListedTickets

/-!
# Directories that grow old

`cleanZombieTasks` removes the control directory of a prisoner for its age, without a look at the
processes, so that a prisoner may be handed out while a process of its last task is alive
(`not_freesOnlyIdle`). The server runs here with the clock, which never goes back, and with the times of
the control directories. In a run in which processes end before the directory of their prisoner is as
old as that, and programs start for tasks that are in place, a control directory is removed only when
its prisoner has no process (`freesOnlyIdle_of_reaches`).
-/

namespace VplJail.Task.Lifecycle

open CriticalSection ConfigurationFile Util

/-! ## The clock -/

/-- The server, the clock, and the times of the control directories. -/
structure Clocked where
  server : Server
  now : ℤ
  mtime : ℕ → ℤ

/-- Time passes, or a step is taken that makes or removes entries of the control directories that are
`touched`. -/
inductive Event
  | wait (seconds : ℕ)
  | act (a : Action) (touched : ℕ → Bool)

/-- The times that a step is given are those of the clock and of the control directories. -/
def Clocked.tells (c : Clocked) : Action → Bool
  | .create _ _ now => now == c.now
  | .operate _ (.update (.setCompiler _ now)) => now == c.now
  | .operate _ (.update (.setRunner _ now)) => now == c.now
  | .stop _ env => env.now == c.now
  | .inspect uid mtime now => mtime == c.mtime uid && now == c.now
  | .collect k mtime now =>
      now == c.now && match c.server.suspects[k]? with
        | some (.found uid _ true _) => mtime == c.mtime uid
        | _ => true
  | _ => true

/-- What an event leaves. A directory that a step makes is a new one. -/
def tick (cfg : Configuration) (c : Clocked) : Event → Option Clocked
  | .wait seconds => some { c with now := c.now + seconds }
  | .act a touched =>
      if c.tells a then
        (step cfg c.server a).map fun s =>
          ⟨s, c.now, fun uid =>
            if touched uid || (s.control uid && !c.server.control uid) then c.now else c.mtime uid⟩
      else none

/-- The runs whose events are all allowed. -/
abbrev Clocked.Reaches (cfg : Configuration) (ok : Clocked → Event → Prop) : Clocked → Clocked → Prop :=
  Relation.ReflTransGen fun c c' => ∃ e, ok c e ∧ tick cfg c e = some c'

/-- A prisoner that is handed out has no process, and neither has one whose control directory a step
removes. -/
structure FreesOnlyIdle (cfg : Configuration) (s : Server) (a : Action) (s' : Server) : Prop where
  selected : ∀ draws faults uid, a = .select draws faults →
    (selectPrisoner cfg draws faults s.directories).2 = .ok uid → s.world.processes uid = []
  removed : ∀ uid, s.control uid = true → s'.control uid = false → s.world.processes uid = []

/-- The control directory, the home and the configuration of a task are there. -/
structure InPlace (cfg : Configuration) (s : Server) (uid : ℕ) : Prop where
  control : s.control uid = true
  home : (s.world.homes uid).isSome
  config : (s.world.files (processConfigFile cfg uid)).isSome

/-- The tickets that the configuration of a prisoner lists. -/
def Server.listed (cfg : Configuration) (s : Server) (uid : ℕ) : List Bytes :=
  ticketsOf ((readTask (s.world.files (processConfigFile cfg uid))).getD ∅)

/-- The tickets that a step removes. -/
def Server.discards (cfg : Configuration) (s : Server) : Action → List Bytes
  | .mark i => (s.objects[i]?.map fun o => s.listed cfg o.pm.prisoner ++ o.pm.info.tickets).getD []
  | .remove i => (s.objects[i]?.map fun o => s.listed cfg o.pm.prisoner).getD []
  | .collect k _ _ =>
      match s.suspects[k]? with
      | some (.found uid _ _ _) => s.listed cfg uid
      | _ => []
  | _ => []

/-- The processes of a prisoner end before its control directory is older than the time limit and the
time to fetch the result. A program starts for a task that is in place and that no `cleanTask` that has
found no process is still to remove. The tickets that a step removes are names of files. -/
structure InTime (cfg : Configuration) (c : Clocked) (e : Event) : Prop where
  ends : ∀ uid, c.server.world.processes uid ≠ [] →
    c.now ≤ c.mtime uid + (cfg.jailLimits.maxtime + harvestTimeout)
  start : ∀ i pid touched o, e = .act (.start i pid) touched → c.server.holder i .idle = some o →
    InPlace cfg c.server o.pm.prisoner ∧
      ∀ o' ∈ c.server.objects, o'.phase = .cleared → o'.pm.prisoner ≠ o.pm.prisoner
  names : ∀ a touched, e = .act a touched →
    ∀ ticket ∈ c.server.discards cfg a, (47 : UInt8) ∉ ticket

/-! ## Files that stay -/

section Files

variable {cfg : Configuration} {path : Bytes} {files : Files}

/-- A file is there. -/
def IsFile (path : Bytes) (files : Files) : Prop :=
  (files path).isSome = true

/-- A file that is written, itself or another, is there. -/
theorem IsFile.update (h : IsFile path files) (path' content : Bytes) :
    IsFile path (Function.update files path' (some content)) := by
  by_cases heq : path = path'
  · rw [IsFile, heq, Function.update_self]
    rfl
  · rw [IsFile, Function.update_of_ne heq]
    exact h

theorem preserves_look (P : Files → Prop) (path : Bytes) : Prog.Preserves P (look path) := by
  intro files h
  rw [run_look]
  exact h

theorem preserves_putFile (path path' content : Bytes) :
    Prog.Preserves (IsFile path) (Locked.putFile path' content) :=
  Prog.preserves_lift fun _ h => h.update path' content

theorem preserves_saveFile (path path' content : Bytes) :
    Prog.Preserves (IsFile path) (Locked.saveFile path' content) :=
  .ite (preserves_putFile path path' content) (Prog.preserves_throw _)

theorem preserves_storeInfo (cfg : Configuration) (path : Bytes) (uid : ℕ) (info : Info) :
    Prog.Preserves (IsFile path) (storeInfo cfg uid info) := by
  refine (preserves_look _ _).bind fun config => ?_
  cases writeInfo config info ∅ with
  | none => exact Prog.preserves_throw _
  | some content => exact Prog.preserves_lift fun _ h => h.update _ content

theorem preserves_loadInfo (P : Files → Prop) (uid : ℕ) :
    Prog.Preserves P (Locked.loadInfo cfg uid) :=
  (preserves_look P _).bind fun _ => Prog.preserves_ofExcept _

theorem preserves_changeInfo {change : Info → FileM (Option Info)}
    (h : ∀ info, Prog.Preserves (IsFile path) (change info)) (pm : ProcessMonitor) :
    Prog.Preserves (IsFile path) (Locked.changeInfo cfg change pm) := by
  refine (preserves_loadInfo _ _).bind fun info => (h info).bind fun changed => ?_
  cases changed with
  | none => exact Prog.preserves_pure _
  | some info => exact (preserves_storeInfo cfg path _ info).bind fun _ => Prog.preserves_pure _

theorem preserves_drawTicket (P : Files → Prop) (ticket : Locked.Digits)
    (redrawn : List Locked.Digits) : Prog.Preserves P (Locked.drawTicket cfg ticket redrawn) := by
  induction redrawn generalizing ticket with
  | nil => exact Prog.preserves_pure _
  | cons next more ih => exact (preserves_look P _).bind fun _ => .ite (ih next) (Prog.preserves_pure _)

/-- An operation removes no file. -/
theorem preserves_operation (cfg : Configuration) (op : Operation) (pm : ProcessMonitor) (path : Bytes) :
    Prog.Preserves (IsFile path) (op.run cfg pm) := by
  cases op with
  | update u =>
    cases u with
    | setExtraInfo el ri lang => exact preserves_changeInfo (fun _ => Prog.preserves_pure _) pm
    | setCompiler pid now =>
      exact .ite (Prog.preserves_pure _) (preserves_changeInfo (fun _ => Prog.preserves_pure _) pm)
    | setRunner pid now =>
      exact .ite (Prog.preserves_pure _) (preserves_changeInfo (fun _ => Prog.preserves_pure _) pm)
    | monitorize pid =>
      exact .ite (Prog.preserves_pure _) (preserves_changeInfo
        (fun _ => .ite (Prog.preserves_throw _) (Prog.preserves_pure _)) pm)
    | getHttpPassthroughTicket ticket redrawn =>
      refine preserves_changeInfo (fun _ => .ite (Prog.preserves_pure _) ?_) pm
      exact (preserves_drawTicket _ _ _).bind fun _ =>
        (preserves_putFile path _ _).bind fun _ => Prog.preserves_pure _
    | getLocalWebServer address => exact preserves_changeInfo (fun _ => Prog.preserves_pure _) pm
  | setCompilationOutput compilation =>
    refine .bind ?_ fun _ => Prog.preserves_pure _
    exact (preserves_loadInfo _ _).bind fun _ => (preserves_look _ _).bind fun _ =>
      .ite (Prog.preserves_throw _) (preserves_saveFile path _ _)
  | setExecutionOutput execution executed =>
    refine .bind ?_ fun _ => Prog.preserves_pure _
    refine (preserves_loadInfo _ _).bind fun _ => (preserves_look _ _).bind fun _ =>
      .ite (Prog.preserves_throw _) (.ite ?_ ?_)
    · exact (preserves_look _ _).bind fun _ =>
        .ite (Prog.preserves_throw _) (preserves_saveFile path _ _)
    · exact Prog.preserves_pure _
  | getState =>
    refine (preserves_look _ _).bind fun config => ?_
    cases config with
    | none => exact Prog.preserves_pure _
    | some content =>
      dsimp only
      cases readInfo (some content) with
      | failed => exact Prog.preserves_throw _
      | cleaning info => exact Prog.preserves_pure _
      | ok info => exact Prog.preserves_pure _

end Files

/-! ## Tasks that stay in place -/

section Steps

variable {cfg : Configuration} {s s' : Server} {a : Action} {uid : ℕ}

/-- The constructor with a ticket removes no configuration. -/
theorem isFile_ofTicket (pid : ℤ) (ticket : Bytes) {files : Files}
    (h : IsFile (processConfigFile cfg uid) files) :
    IsFile (processConfigFile cfg uid) (Prog.runExcept (ofTicket cfg pid ticket) files).1 := by
  rw [ofTicket, Prog.runExcept_ite]
  split
  · rename_i hformat
    have huse (security : SecurityLevel) : IsFile (processConfigFile cfg uid)
        (afterUse (ticketPath cfg (trimAndRemoveQuotes ticket)) security files) := by
      rw [IsFile, afterUse_config hformat]
      exact h
    have hopen := run_openTicket cfg pid (ticketPath cfg (trimAndRemoveQuotes ticket)) files
    generalize Prog.runExcept (openTicket cfg pid _) files = outcome at hopen ⊢
    cases hopen with
    | refused => exact h
    | wasted => exact huse _
    | opened => exact huse _
    | monitored => exact (huse .monitor).update _ _
  · exact h

theorem isFile_create (k : ℕ) (c : Creation) (tickets : Locking.Tickets) (now : ℤ) {path : Bytes}
    (h : IsFile path s.world.files) : IsFile path (s.create cfg k c tickets now).world.files := by
  have hwritten (written : List (Bytes × Kind)) {files : Files} (h : IsFile path files) :
      IsFile path (writeTickets cfg c.prisoner written files) := by
    induction written generalizing files with
    | nil => exact h
    | cons ticket written ih => exact ih (h.update _ _)
  rw [Server.create]
  dsimp only
  split
  · split
    · exact hwritten _ h
    · exact (hwritten _ h).update _ _
  · exact hwritten _ h

/-- The mark and the removal of tickets that are names of files leave a configuration in place. -/
theorem isFile_markCleaning {tickets : List Bytes} {files : Files} (marked : ℕ)
    (hnames : ∀ ticket ∈ tickets, (47 : UInt8) ∉ ticket)
    (h : IsFile (processConfigFile cfg uid) files) :
    IsFile (processConfigFile cfg uid)
      (tickets.foldl (removeTicketFile cfg) (markCleaning cfg marked files).1) := by
  rw [IsFile, removeTickets_of_ne fun ticket hticket =>
    ticketPath_ne_of_notMem (hnames ticket hticket) uid]
  change IsFile _ _
  rw [markCleaning]
  split
  · exact h
  · split
    · exact h
    · exact h.update _ _

/-- The mark tells the tickets that the configuration lists. -/
theorem ticketsOf_marked (cfg : Configuration) (s : Server) (uid : ℕ) :
    ticketsOf (markCleaning cfg uid s.world.files).2 = s.listed cfg uid :=
  ticketsOf_markCleaning cfg uid s.world.files

/-- The configuration of another task stays when a task is removed. -/
theorem isFile_cleanPrisonerFiles {removed : ℕ} (hne : uid ≠ removed)
    (hnames : ∀ ticket ∈ s.listed cfg removed, (47 : UInt8) ∉ ticket)
    (h : IsFile (processConfigFile cfg uid) s.world.files) :
    IsFile (processConfigFile cfg uid) (cleanPrisonerFiles cfg removed s.world).files := by
  have hdir : ¬ (processControlPath cfg removed ++ ascii "/").isPrefixOf (processConfigFile cfg uid) :=
    fun hprefix => hne (eq_of_isPrefixOf_configFile hprefix).symm
  show IsFile _ (removeControlDir cfg removed _)
  rw [IsFile, removeControlDir, if_neg hdir]
  refine isFile_markCleaning removed (fun ticket hticket => hnames ticket ?_) h
  exact ticketsOf_marked cfg s removed ▸ hticket

/-- A configuration stays unless its control directory is removed. -/
theorem isFile_of_step (h : step cfg s a = some s') (hstays : ¬ Removes cfg s uid a)
    (hnames : ∀ ticket ∈ s.discards cfg a, (47 : UInt8) ∉ ticket)
    (hconfig : IsFile (processConfigFile cfg uid) s.world.files) :
    IsFile (processConfigFile cfg uid) s'.world.files := by
  cases effect_of_step h with
  | selected draws faults haction hselect =>
    rw [hselect, Server.select]
    split <;> exact hconfig
  | created k tickets now c haction hc hfresh hcreate =>
    rw [hcreate]
    exact isFile_create k c tickets now hconfig
  | used pid ticket hsettled hfiles hobjects =>
    rw [hfiles]
    exact isFile_ofTicket pid ticket hconfig
  | operated i op o haction ho hoperate =>
    have hrun := preserves_operation cfg op o.pm _ _ hconfig
    rw [hoperate, Server.operate]
    generalize Prog.runExcept (op.run cfg o.pm) s.world.files = outcome at hrun ⊢
    obtain ⟨files, e | pm⟩ := outcome
    · exact hrun
    · exact hrun
  | marked i o haction ho hsettled hfiles hobjects =>
    subst haction
    rw [hfiles]
    refine isFile_markCleaning o.pm.prisoner (fun ticket hticket => hnames ticket ?_) hconfig
    change ticket ∈ ticketsOf (markCleaning cfg o.pm.prisoner s.world.files).2 ++
      o.pm.info.tickets at hticket
    rw [ticketsOf_marked] at hticket
    rw [Server.discards, (holder_eq_some.mp ho).1]
    exact hticket
  | cleaned uid' hremoves hcreations hcontrol hfiles hobjects =>
    have hne : uid ≠ uid' := fun heq => hstays (heq ▸ hremoves)
    rw [hfiles]
    refine isFile_cleanPrisonerFiles hne (fun ticket hticket => hnames ticket ?_) hconfig
    cases hremoves with
    | remove ho hprisoner =>
      rw [← hprisoner] at hticket
      rw [Server.discards, (holder_eq_some.mp ho).1]
      exact hticket
    | collect hk hzombie =>
      rw [Server.discards, hk]
      exact hticket
  | kept hsettled hfiles hobjects =>
    rw [hfiles]
    exact hconfig

/-- A selection leaves the homes of the prisoners with a control directory. -/
theorem homes_select (draws : ℕ → Draw) (faults : ℕ → Faults) (hcontrol : s.control uid = true)
    (hhome : (s.world.homes uid).isSome) :
    ((s.select cfg draws faults).world.homes uid).isSome := by
  have hfound : s.directories.control uid ≠ none := by
    rw [Server.directories]
    simp [hcontrol]
  have hstays := selectPrisoner_home cfg draws faults s.directories hfound
  rw [Server.select]
  split
  · rename_i d e hselect
    rw [hselect] at hstays
    show ((d.home uid).map _).isSome
    rw [hstays, Option.isSome_map, Server.directories, Option.isSome_map]
    exact hhome
  · rename_i d uid' hselect
    rw [hselect] at hstays
    rw [Server.handOut]
    dsimp only
    by_cases heq : uid = uid'
    · rw [heq, Function.update_self]
      rfl
    · rw [Function.update_of_ne heq]
      show ((d.home uid).map _).isSome
      rw [hstays, Option.isSome_map, Server.directories, Option.isSome_map]
      exact hhome

theorem Removes.processes (hremoves : Removes cfg s uid a) (h : step cfg s a = some s') :
    s'.world.processes = s.world.processes := by
  cases hremoves with
  | remove ho hprisoner =>
    obtain ⟨o, -, rfl⟩ := Option.map_eq_some_iff.mp h
    rfl
  | collect hk hzombie =>
    rw [step, hk] at h
    obtain rfl := Option.some.inj h
    dsimp only
    split <;> rfl

/-- A task stays in place unless its control directory is removed. -/
theorem InPlace.step (hs : InPlace cfg s uid) (h : step cfg s a = some s')
    (hstays : ¬ Removes cfg s uid a)
    (hnames : ∀ ticket ∈ s.discards cfg a, (47 : UInt8) ∉ ticket) : InPlace cfg s' uid := by
  have hconfig : IsFile (processConfigFile cfg uid) s'.world.files :=
    isFile_of_step h hstays hnames hs.config
  cases change_of_step h with
  | selected draws faults haction hselect =>
    refine ⟨?_, ?_, hconfig⟩
    · rw [hselect]
      exact control_select_of_control draws faults hs.control
    · rw [hselect]
      exact homes_select draws faults hs.control hs.home
  | kept hnew hcontrol hhomes hprocesses =>
    exact ⟨hcontrol ▸ hs.control, hhomes ▸ hs.home, hconfig⟩
  | started i pid o hnew haction ho hcontrol hhomes hprocesses =>
    exact ⟨hcontrol ▸ hs.control, hhomes ▸ hs.home, hconfig⟩
  | removed uid' hnew hremoves hcontrol hhomes hprocesses =>
    have hne : uid ≠ uid' := fun heq => hstays (heq ▸ hremoves)
    refine ⟨?_, ?_, hconfig⟩
    · rw [hcontrol, Function.update_of_ne hne]
      exact hs.control
    · rw [hhomes uid hne]
      exact hs.home

/-- Tickets that are drawn are names of files. -/
theorem Tabled.notMem_discards (hs : Tabled cfg s) (a : Action) :
    ∀ ticket ∈ s.discards cfg a, (47 : UInt8) ∉ ticket := by
  have hlisted (uid : ℕ) {ticket : Bytes} (h : ticket ∈ s.listed cfg uid) :
      (47 : UInt8) ∉ ticket := by
    rw [Server.listed] at h
    cases hread : readTask (s.world.files (processConfigFile cfg uid)) with
    | none =>
      rw [hread] at h
      exact plainTask_empty.notMem h
    | some data =>
      rw [hread] at h
      exact (hs.table.of_readTask hread).2.notMem h
  intro ticket hticket
  cases a with
  | mark i =>
    rw [Server.discards] at hticket
    cases ho : s.objects[i]? with
    | none =>
      rw [ho] at hticket
      cases hticket
    | some o =>
      rw [ho] at hticket
      rcases List.mem_append.mp hticket with hticket | hticket
      · exact hlisted _ hticket
      · exact (hs.objects o (List.mem_of_getElem? ho)).info.notMem hticket
  | remove i =>
    rw [Server.discards] at hticket
    cases ho : s.objects[i]? with
    | none =>
      rw [ho] at hticket
      cases hticket
    | some o =>
      rw [ho] at hticket
      exact hlisted _ hticket
  | collect k mtime now =>
    rw [Server.discards] at hticket
    split at hticket
    · exact hlisted _ hticket
    · cases hticket
  | select | create | abandon | enter | operate | fork | drop | start | spawn | exit | stop | check
  | inspect | present | fail | inspectHome => cases hticket

end Steps

/-! ## What is about to be removed -/

/-- The calls of `cleanZombieTasks`. -/
inductive Suspect.IsKnown (cfg : Configuration) : Suspect → Prop
  | unopened (uid : ℕ) (ticket : Bytes) : IsKnown cfg (.unopened uid ticket)
  | homeless (uid : ℕ) : IsKnown cfg (.found uid monitorstartTimeout true true)
  | unusable (uid : ℕ) :
      IsKnown cfg (.found uid (cfg.jailLimits.maxtime + harvestTimeout) true false)
  | orphan (uid : ℕ) : IsKnown cfg (.found uid (monitorstartTimeout * 2) false false)

section Suspects

variable {cfg : Configuration} {s s' : Server} {a : Action}

theorem isKnown_suspectOf (uid : ℕ) : (s.suspectOf cfg uid).IsKnown cfg := by
  rw [Server.suspectOf]
  split
  · exact .homeless uid
  · split
    · exact .unusable uid
    · exact .unopened uid _

theorem suspects_present (k uid : ℕ) (pid : ℤ) (ticket : Bytes) {x : Suspect}
    (hx : x ∈ (s.present cfg k uid pid ticket).suspects) : x ∈ s.suspects ∨ x.IsKnown cfg := by
  rw [Server.present] at hx
  split at hx
  · rcases List.mem_or_eq_of_mem_set hx with hx | rfl
    · exact .inl hx
    · exact .inr (.unusable uid)
  · exact .inl (List.mem_of_mem_eraseIdx hx)

/-- What is about to be removed was so before, or is one of these calls. -/
theorem suspects_of_step (h : step cfg s a = some s') {x : Suspect} (hx : x ∈ s'.suspects) :
    x ∈ s.suspects ∨ x.IsKnown cfg := by
  have hadded {y : Suspect} (hy : y.IsKnown cfg) (hx : x ∈ s.suspects ++ [y]) :
      x ∈ s.suspects ∨ x.IsKnown cfg := by
    rcases List.mem_append.mp hx with hx | hx
    · exact .inl hx
    · obtain rfl := List.mem_singleton.mp hx
      exact .inr hy
  cases a with
  | select draws faults =>
    obtain rfl := Option.some.inj h
    rw [Server.select] at hx
    split at hx <;> exact .inl hx
  | create k tickets now =>
    obtain ⟨c, -, h⟩ := Option.bind_eq_some_iff.mp h
    split at h
    · obtain rfl := Option.some.inj h
      rw [Server.create] at hx
      dsimp only at hx
      split at hx
      · split at hx <;> exact .inl hx
      · exact .inl hx
    · cases h
  | abandon k =>
    obtain rfl := Option.some.inj h
    exact .inl hx
  | enter pid ticket =>
    obtain rfl := Option.some.inj h
    rw [Server.enter] at hx
    split at hx <;> exact .inl hx
  | operate i op =>
    obtain ⟨o, -, rfl⟩ := Option.map_eq_some_iff.mp h
    rw [Server.operate] at hx
    split at hx <;> exact .inl hx
  | fork i =>
    obtain ⟨o, -, rfl⟩ := Option.map_eq_some_iff.mp h
    exact .inl hx
  | drop i =>
    obtain rfl := Option.some.inj h
    exact .inl hx
  | start i pid =>
    obtain ⟨o, -, rfl⟩ := Option.map_eq_some_iff.mp h
    exact .inl hx
  | spawn uid pid =>
    rw [step] at h
    split at h
    · cases h
    · obtain rfl := Option.some.inj h
      exact .inl hx
  | exit uid pid =>
    obtain rfl := Option.some.inj h
    exact .inl hx
  | mark i =>
    obtain ⟨o, -, rfl⟩ := Option.map_eq_some_iff.mp h
    exact .inl hx
  | stop i env =>
    obtain ⟨o, -, rfl⟩ := Option.map_eq_some_iff.mp h
    exact .inl hx
  | check i =>
    obtain ⟨o, -, rfl⟩ := Option.map_eq_some_iff.mp h
    exact .inl hx
  | remove i =>
    obtain ⟨o, -, rfl⟩ := Option.map_eq_some_iff.mp h
    exact .inl hx
  | inspect uid mtime now =>
    rw [step] at h
    split at h
    · obtain rfl := Option.some.inj h
      exact hadded (isKnown_suspectOf uid) hx
    · cases h
  | present k pid =>
    obtain ⟨suspect, -, h⟩ := Option.bind_eq_some_iff.mp h
    cases suspect with
    | unopened uid ticket =>
      obtain rfl := Option.some.inj h
      exact suspects_present k uid pid ticket hx
    | found uid maxAge checkControlDir requireNoHome => cases h
  | fail i =>
    obtain ⟨o, -, h⟩ := Option.bind_eq_some_iff.mp h
    split at h
    · obtain rfl := Option.some.inj h
      exact hadded (.unusable o.pm.prisoner) hx
    · cases h
  | inspectHome uid =>
    rw [step] at h
    split at h
    · obtain rfl := Option.some.inj h
      exact hadded (.orphan uid) hx
    · cases h
  | collect k mtime now =>
    obtain ⟨suspect, -, h⟩ := Option.bind_eq_some_iff.mp h
    cases suspect with
    | unopened uid ticket => cases h
    | found uid maxAge checkControlDir requireNoHome =>
      obtain rfl := Option.some.inj h
      dsimp only at hx
      split at hx <;> exact .inl (List.mem_of_mem_eraseIdx hx)

end Suspects

/-! ## Prisoners without processes -/

/-- A prisoner with processes has its task in place, one for which a `cleanTask` has found no process
has none, and what is about to be removed is known. -/
structure Guarded (cfg : Configuration) (s : Server) : Prop where
  placed : ∀ uid, s.world.processes uid ≠ [] → InPlace cfg s uid
  cleared : ∀ o ∈ s.objects, o.phase = .cleared → s.world.processes o.pm.prisoner = []
  suspects : ∀ x ∈ s.suspects, x.IsKnown cfg

section Guarded

variable {cfg : Configuration} {c c' : Clocked} {e : Event} {s' : Server} {a : Action}
  {touched : ℕ → Bool}

/-- `cleanZombieTasks` removes nothing of a prisoner with processes, for they end in time. -/
theorem processes_of_collect (hs : Guarded cfg c.server) (ha : InTime cfg c e)
    {k : ℕ} {mtime now : ℤ} (htells : c.tells (.collect k mtime now) = true) {uid : ℕ}
    (h : Removes cfg c.server uid (.collect k mtime now)) : c.server.world.processes uid = [] := by
  by_contra hsome
  obtain ⟨-, hhome, hconfig⟩ := hs.placed uid hsome
  have hends := ha.ends uid hsome
  cases h with
  | collect hk hzombie =>
    rw [Clocked.tells, hk, Bool.and_eq_true, beq_iff_eq] at htells
    obtain ⟨hnow, htime⟩ := htells
    cases hs.suspects _ (List.mem_of_getElem? hk) with
    | homeless => simp [Server.isZombie, hhome] at hzombie
    | unusable =>
      have hmtime : mtime = c.mtime uid := beq_iff_eq.mp htime
      simp only [Server.isZombie, if_true, Bool.and_eq_true, decide_eq_true_eq] at hzombie
      omega
    | orphan =>
      rw [Option.isSome_iff_ne_none] at hconfig
      simp [Server.isZombie, hconfig] at hzombie

/-- A control directory that is removed is one of a prisoner without processes. -/
theorem processes_of_removes (hs : Guarded cfg c.server) (ha : InTime cfg c e)
    (htells : c.tells a = true) {uid : ℕ} (h : Removes cfg c.server uid a) :
    c.server.world.processes uid = [] := by
  cases h with
  | remove ho hprisoner =>
    rw [← hprisoner]
    exact hs.cleared _ (mem_of_holder ho) (holder_eq_some.mp ho).2
  | collect hk hzombie => exact processes_of_collect hs ha htells (.collect hk hzombie)

/-- A program starts only for a task in place that no `cleanTask` is to remove. -/
theorem processes_of_step (ha : InTime cfg c (.act a touched)) (h : step cfg c.server a = some s')
    {uid : ℕ} (hnone : c.server.world.processes uid = []) :
    s'.world.processes uid = [] ∨ InPlace cfg c.server uid ∧
      ∀ o ∈ c.server.objects, o.phase = .cleared → o.pm.prisoner ≠ uid := by
  cases change_of_step h with
  | selected draws faults haction hselect =>
    rw [hselect, processes_select]
    exact .inl hnone
  | kept hnew hcontrol hhomes hprocesses => exact .inl (hprocesses uid hnone)
  | started i pid o hnew haction ho hcontrol hhomes hprocesses =>
    by_cases huid : uid = o.pm.prisoner
    · rw [huid]
      exact .inr (ha.start i pid touched o (haction ▸ rfl) ho)
    · rw [hprocesses uid huid]
      exact .inl hnone
  | removed uid' hnew hremoves hcontrol hhomes hprocesses =>
    rw [hprocesses]
    exact .inl hnone

theorem guarded_step (hs : Guarded cfg c.server) (ha : InTime cfg c (.act a touched))
    (htells : c.tells a = true) (h : step cfg c.server a = some s') : Guarded cfg s' := by
  refine ⟨fun uid hsome => ?_, fun o ho hphase => ?_, fun x hx => ?_⟩
  · have hplace : InPlace cfg c.server uid := by
      by_cases hnone : c.server.world.processes uid = []
      · exact ((processes_of_step ha h hnone).resolve_left hsome).1
      · exact hs.placed uid hnone
    have hstays : ¬ Removes cfg c.server uid a := fun hremoves =>
      hsome ((congrFun (hremoves.processes h) uid).trans (processes_of_removes hs ha htells hremoves))
    exact hplace.step h hstays (ha.names a touched rfl)
  · have hnone {o' : Object} (hmem : o' ∈ c.server.objects) (hcleared : o'.phase = .cleared) :
        s'.world.processes o'.pm.prisoner = [] :=
      (processes_of_step ha h (hs.cleared o' hmem hcleared)).resolve_right fun hplace =>
        hplace.2 o' hmem hcleared rfl
    cases origin_of_step h ho with
    | kept o' hmem hprisoner htask hkept _ =>
      rw [hprisoner]
      rcases hkept hphase with hcleared | hgone
      · exact hnone hmem hcleared
      · exact hprisoner ▸ hgone
    | marked i o' haction ho' hprisoner htask hmarked =>
      rw [hmarked] at hphase
      cases hphase
    | opened htask hidle =>
      rw [hidle] at hphase
      cases hphase
    | created c' hmem hprisoner htask hidle =>
      rw [hidle] at hphase
      cases hphase
  · exact (suspects_of_step h hx).elim (hs.suspects x) id

theorem guarded_tick (hs : Guarded cfg c.server) (ha : InTime cfg c e) (h : tick cfg c e = some c') :
    Guarded cfg c'.server := by
  cases e with
  | wait seconds =>
    obtain rfl := Option.some.inj h
    exact hs
  | act a touched =>
    rw [tick] at h
    split at h
    · obtain ⟨s', hstep, rfl⟩ := Option.map_eq_some_iff.mp h
      exact guarded_step hs ha ‹_› hstep
    · cases h

/-- In every run with such events, a prisoner that is handed out has no process, and a control directory
is removed only when its prisoner has none. -/
theorem freesOnlyIdle_of_reaches {c₀ : Clocked} (h₀ : c₀.server.IsInitial)
    (h : c₀.Reaches cfg (InTime cfg) c) (ha : InTime cfg c (.act a touched))
    (htick : tick cfg c (.act a touched) = some c') : FreesOnlyIdle cfg c.server a c'.server := by
  have hinitial : Guarded cfg c₀.server := by
    refine ⟨fun uid hsome => absurd (h₀.processes uid) hsome, fun o ho => ?_, fun x hx => ?_⟩
    · rw [h₀.objects] at ho
      cases ho
    · rw [h₀.suspects] at hx
      cases hx
  have hguarded : Guarded cfg c.server := by
    refine invariant_of_reaches (P := fun c => Guarded cfg c.server) (fun c c' hs hnext => ?_) h
      hinitial
    obtain ⟨e, hok, hnext⟩ := hnext
    exact guarded_tick hs hok hnext
  rw [tick] at htick
  split at htick
  · obtain ⟨s', hstep, rfl⟩ := Option.map_eq_some_iff.mp htick
    refine ⟨fun draws faults uid _ hok => ?_, fun uid hcontrol hgone => ?_⟩
    · by_contra hsome
      have hplace := (hguarded.placed uid hsome).control
      rw [(control_of_selected hok).2.1] at hplace
      cases hplace
    · by_contra hsome
      have hstays : ¬ Removes cfg c.server uid a := fun hremoves =>
        hsome (processes_of_removes hguarded ha ‹_› hremoves)
      have hplace := ((hguarded.placed uid hsome).step hstep hstays (ha.names a touched rfl)).control
      dsimp only at hgone
      rw [hgone] at hplace
      cases hplace
  · cases htick

end Guarded

/-! ## Two runs -/

/-- The server behind some events, if each passes a check. -/
def ticks (cfg : Configuration) (check : Clocked → Event → Bool) (c : Clocked) (events : List Event) :
    Option Clocked :=
  events.foldlM (fun c e => if check c e then tick cfg c e else none) c

/-- What can be computed of the condition when only one prisoner has processes, which are started for
it. -/
def Clocked.check (cfg : Configuration) (uid : ℕ) (c : Clocked) (e : Event) : Bool :=
  ((c.server.world.processes uid).isEmpty ||
    decide (c.now ≤ c.mtime uid + (cfg.jailLimits.maxtime + harvestTimeout))) &&
  match e with
  | .wait _ => true
  | .act a _ =>
      (c.server.discards cfg a).all (fun ticket => !ticket.contains 47) && match a with
        | .start i _ =>
            (c.server.holder i .idle).all (fun o => o.pm.prisoner == uid) &&
            c.server.control uid && (c.server.world.homes uid).isSome &&
            (c.server.world.files (processConfigFile cfg uid)).isSome &&
            c.server.objects.all fun o => o.phase != .cleared
        | _ => true

section Checked

variable {cfg : Configuration} {uid : ℕ} {c c' : Clocked} {e : Event}

/-- Only one prisoner has processes. -/
def Clocked.Only (c : Clocked) (uid : ℕ) : Prop :=
  ∀ uid', uid' ≠ uid → c.server.world.processes uid' = []

theorem prisoner_of_check {i : ℕ} {pid : ℤ} {touched : ℕ → Bool} {o : Object}
    (h : c.check cfg uid (.act (.start i pid) touched) = true)
    (ho : c.server.holder i .idle = some o) :
    o.pm.prisoner = uid ∧ InPlace cfg c.server uid ∧ ∀ o' ∈ c.server.objects, o'.phase ≠ .cleared := by
  simp only [Clocked.check, ho, Option.all_some, Bool.and_eq_true, beq_iff_eq, List.all_eq_true,
    bne_iff_ne] at h
  obtain ⟨-, -, ⟨⟨⟨hprisoner, hcontrol⟩, hhome⟩, hconfig⟩, hcleared⟩ := h
  exact ⟨hprisoner, ⟨hcontrol, hhome, hconfig⟩, hcleared⟩

theorem inTime_of_check (honly : c.Only uid) (h : c.check cfg uid e = true) : InTime cfg c e := by
  refine ⟨fun uid' hsome => ?_, ?_, ?_⟩
  · have huid : uid' = uid := by
      by_contra hne
      exact hsome (honly uid' hne)
    have hends := (Bool.and_eq_true_iff.mp h).1
    rw [Bool.or_eq_true, List.isEmpty_iff, decide_eq_true_eq] at hends
    exact huid ▸ hends.resolve_left (huid ▸ hsome)
  · rintro i pid touched o rfl ho
    obtain ⟨rfl, hplace, hcleared⟩ := prisoner_of_check h ho
    exact ⟨hplace, fun o' ho' hphase => absurd hphase (hcleared o' ho')⟩
  · rintro a touched rfl ticket hticket
    have hnames := (Bool.and_eq_true_iff.mp (Bool.and_eq_true_iff.mp h).2).1
    have hslash := List.all_eq_true.mp hnames ticket hticket
    simpa using hslash

theorem Clocked.Only.tick (honly : c.Only uid) (h : c.check cfg uid e = true)
    (htick : tick cfg c e = some c') : c'.Only uid := by
  cases e with
  | wait seconds =>
    obtain rfl := Option.some.inj htick
    exact honly
  | act a touched =>
    rw [Lifecycle.tick] at htick
    split at htick
    · obtain ⟨s', hstep, rfl⟩ := Option.map_eq_some_iff.mp htick
      intro uid' hne
      show s'.world.processes uid' = []
      cases change_of_step hstep with
      | selected draws faults haction hselect =>
        rw [hselect, processes_select]
        exact honly uid' hne
      | kept hnew hcontrol hhomes hprocesses => exact hprocesses uid' (honly uid' hne)
      | started i pid o hnew haction ho hcontrol hhomes hprocesses =>
        subst haction
        rw [hprocesses uid' ((prisoner_of_check h ho).1 ▸ hne)]
        exact honly uid' hne
      | removed removed hnew hremoves hcontrol hhomes hprocesses =>
        rw [hprocesses]
        exact honly uid' hne
    · cases htick

/-- A run of events that pass a check, which is enough as long as something is kept. -/
theorem reaches_of_ticks {check : Clocked → Event → Bool} {ok : Clocked → Event → Prop}
    {P : Clocked → Prop} (hstep : ∀ c e c', P c → check c e = true →
      Lifecycle.tick cfg c e = some c' → ok c e ∧ P c')
    {events : List Event} (hc : P c) (h : ticks cfg check c events = some c') :
    c.Reaches cfg ok c' ∧ P c' := by
  induction events generalizing c with
  | nil =>
    obtain rfl := Option.some.inj h
    exact ⟨.refl, hc⟩
  | cons e events ih =>
    rw [ticks, List.foldlM_cons] at h
    obtain ⟨c₁, hnext, hrest⟩ := Option.bind_eq_some_iff.mp h
    split at hnext
    · rename_i hcheck
      obtain ⟨hok, hc₁⟩ := hstep c e c₁ hc hcheck hnext
      obtain ⟨hreaches, hc'⟩ := ih hc₁ hrest
      exact ⟨.head ⟨e, hok, hnext⟩ hreaches, hc'⟩
    · cases hnext

theorem reaches_of_check {events : List Event} (honly : c.Only uid)
    (h : ticks cfg (Clocked.check cfg uid) c events = some c') :
    c.Reaches cfg (InTime cfg) c' ∧ c'.Only uid := by
  refine reaches_of_ticks (P := fun c => c.Only uid) (fun c e c' honly hpass hnext => ?_) honly h
  exact ⟨inTime_of_check honly hpass, honly.tick hpass hnext⟩

end Checked

/-- A server that has just started, at a time. -/
def startedAt (now : ℤ) : Clocked := ⟨started, now, fun _ => 0⟩

/-- A step that changes the entries of one control directory. -/
def changing (uid : ℕ) (a : Action) : Event := .act a fun uid' => uid' == uid

/-- A step that changes no entries of the control directories. -/
def silent (a : Action) : Event := .act a fun _ => false

/-- A process outlives the signals of `cleanTask`, which gives up. -/
def survived : List Event :=
  (newTask firstTickets).map (changing 10001) ++
    [changing 10001 (.operate 0 (.update (.setCompiler 300 1000))), silent (.start 0 500), .wait 10,
      changing 10001 (.mark 0), silent (.stop 0 ⟨1010, fun _ => true, fun _ => true⟩),
      silent (.check 0)]

/-- The control directory is stale when `cleanZombieTasks` comes. -/
def inspected : List Event :=
  [silent (.inspect 10001 1010 9000), silent (.present 0 700)]

/-- The process ends before the control directory is stale. -/
def ended : List Event :=
  survived ++ [.wait 1000, silent (.exit 10001 500), .wait 6990] ++ inspected

/-- The process does not end. -/
def unended : List Event :=
  survived ++ [.wait 7990] ++ inspected ++ [silent (.collect 0 1010 9000)]

theorem freesOnlyIdle_ended :
    ∃ c c', (startedAt 1000).Reaches .default (InTime .default) c ∧
      tick .default c (silent (.collect 0 1010 9000)) = some c' ∧
      c.server.control 10001 = true ∧ c'.server.control 10001 = false ∧
      FreesOnlyIdle .default c.server (.collect 0 1010 9000) c'.server := by
  have hrun : ((ticks .default (Clocked.check .default 10001) (startedAt 1000) ended).bind fun c =>
      (tick .default c (silent (.collect 0 1010 9000))).map fun c' =>
        (c.check .default 10001 (silent (.collect 0 1010 9000)), c.server.control 10001,
          c'.server.control 10001)) = some (true, true, false) := by decide +kernel
  obtain ⟨c, hc, hcollect⟩ := Option.bind_eq_some_iff.mp hrun
  obtain ⟨c', htick, hvalues⟩ := Option.map_eq_some_iff.mp hcollect
  obtain ⟨hcheck, hvalues⟩ := Prod.mk.inj hvalues
  obtain ⟨hcontrol, hgone⟩ := Prod.mk.inj hvalues
  have hstart : (startedAt 1000).Only 10001 := fun _ _ => rfl
  obtain ⟨hreaches, honly⟩ := reaches_of_check hstart hc
  exact ⟨c, c', hreaches, htick, hcontrol, hgone, freesOnlyIdle_of_reaches isInitial_started hreaches
    (inTime_of_check honly hcheck) htick⟩

/-- The prisoner is handed out with the process of the earlier task. -/
theorem not_freesOnlyIdle :
    ¬ ∀ (c₀ c c' : Clocked) (a : Action) (touched : ℕ → Bool), c₀.server.IsInitial →
      c₀.Reaches .default (fun _ _ => True) c → tick .default c (.act a touched) = some c' →
        FreesOnlyIdle .default c.server a c'.server := by
  have hrun : ((ticks .default (fun _ _ => true) (startedAt 1000) unended).map fun c =>
      ((selectPrisoner .default sameDraws (fun _ => .none) c.server.directories).2.toOption,
        c.server.world.processes 10001)) = some (some 10001, [500]) := by decide +kernel
  obtain ⟨c, hc, hvalues⟩ := Option.map_eq_some_iff.mp hrun
  obtain ⟨hselect, hprocesses⟩ := Prod.mk.inj hvalues
  intro h
  have hok : (selectPrisoner .default sameDraws (fun _ => .none) c.server.directories).2 =
      .ok 10001 := by
    cases hr : (selectPrisoner .default sameDraws (fun _ => .none) c.server.directories).2 with
    | error e =>
      rw [hr] at hselect
      cases hselect
    | ok uid =>
      rw [hr] at hselect
      exact congrArg _ (Option.some.inj hselect)
  have hreaches : (startedAt 1000).Reaches .default (fun _ _ => True) c :=
    (reaches_of_ticks (P := fun _ => True) (fun _ _ _ _ _ _ => ⟨trivial, trivial⟩) trivial hc).1
  have hfrees := h _ c _ (.select sameDraws fun _ => .none) (fun _ => false) isInitial_started
    hreaches rfl
  have hnone := hfrees.selected sameDraws (fun _ => .none) 10001 rfl hok
  rw [hnone] at hprocesses
  cases hprocesses

end VplJail.Task.Lifecycle
