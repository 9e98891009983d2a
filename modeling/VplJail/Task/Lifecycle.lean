import VplJail.Task.Locking

/-!
# The tasks of the server over time

The server as its locked sections change it, one at a time: the two sections of a constructor, the
operations of the objects, the three parts of `cleanTask`, and `cleanZombieTasks`, with programs that
start and end in between. The clock and the times of the directories are what the system calls
return.
-/

namespace VplJail.Task.Lifecycle

open CriticalSection ConfigurationFile Util

/-! ## The server -/

/-- How far the holder of an object is with `cleanTask`: it has marked the task, and then it has found
no process. -/
inductive Phase
  | idle
  | marked
  | cleared
deriving DecidableEq, Repr

/-- A `processMonitor` of some process, with the number that its task has among those of the same
prisoner. A process that is `registered` has called `setCompiler` or `setRunner`. -/
structure Object where
  pm : ProcessMonitor
  task : ℕ
  phase : Phase
  registered : Bool

/-- A constructor that has selected a prisoner and has not written the task yet. -/
structure Creation where
  prisoner : ℕ
  task : ℕ

/-- What `cleanZombieTasks` is about to do: present the admin ticket that it has read, or call
`cleanZombiePrisonerFiles`. -/
inductive Suspect
  | unopened (uid : ℕ) (ticket : Bytes)
  | found (uid : ℕ) (maxAge : ℤ) (checkControlDir requireNoHome : Bool)

/-- The files, the homes and the processes; which prisoners have a control directory, and how many
tasks each has had; and what the processes of the server have in hand. -/
structure Server where
  world : World
  control : ℕ → Bool
  tasks : ℕ → ℕ
  creations : List Creation
  objects : List Object
  suspects : List Suspect

/-- The object with a number, if its holder is so far. -/
def Server.holder (s : Server) (i : ℕ) (phase : Phase) : Option Object :=
  s.objects[i]?.filter fun o => o.phase == phase

/-- The server with other files. -/
def Server.withFiles (s : Server) (files : Files) : Server :=
  { s with world := { s.world with files := files } }

/-- The server with other processes of a prisoner. -/
def Server.withProcesses (s : Server) (uid : ℕ) (processes : List ℤ) : Server :=
  { s with world := { s.world with processes := Function.update s.world.processes uid processes } }

/-- The server with another object in the place of one. -/
def Server.setObject (s : Server) (i : ℕ) (o : Object) : Server :=
  { s with objects := s.objects.set i o }

/-! ## New tasks -/

/-- The directories as `selectPrisoner` finds them. -/
def Server.directories (s : Server) : Directories where
  control := fun uid => if s.control uid then some emptyDir else none
  home := fun uid => (s.world.homes uid).map fun _ => emptyDir
  tmp := none

/-- The server with the directories that `selectPrisoner` leaves. -/
def Server.withDirectories (s : Server) (d : Directories) : Server :=
  { s with
    control := fun uid => (d.control uid).isSome
    world := { s.world with
      homes := fun uid => (d.home uid).map fun _ => (s.world.homes uid).getD ⟨∅, []⟩ } }

/-- The prisoner gets a new task with an empty home. -/
def Server.handOut (s : Server) (uid : ℕ) : Server :=
  { s with
    world := { s.world with homes := Function.update s.world.homes uid (some ⟨∅, []⟩) }
    tasks := Function.update s.tasks uid (s.tasks uid + 1)
    creations := s.creations ++ [⟨uid, s.tasks uid + 1⟩] }

/-- The first section of a constructor. -/
def Server.select (cfg : Configuration) (draws : ℕ → Draw) (faults : ℕ → Faults) (s : Server) :
    Server :=
  match selectPrisoner cfg draws faults s.directories with
  | (d, .error _) => s.withDirectories d
  | (d, .ok uid) => (s.withDirectories d).handOut uid

/-- The tickets of a task. -/
inductive Kind
  | admin
  | monitor
  | execution
  | httpPassthrough
deriving DecidableEq, Repr

/-- The level in the file of a ticket. -/
def Kind.code : Kind → Bytes
  | admin => ascii "0"
  | monitor => ascii "1"
  | execution => ascii "2"
  | httpPassthrough => ascii "3"

/-- The tickets of a new task, in the order in which they are written. -/
def ticketsOfKinds (tickets : Locking.Tickets) : List (Bytes × Kind) :=
  (tickets.admin, .admin) :: tickets.monitor.toList.map (·, .monitor) ++
    [(tickets.execution, .execution)]

/-- Some tickets are written. -/
def writeTickets (cfg : Configuration) (uid : ℕ) (tickets : List (Bytes × Kind)) (files : Files) :
    Files :=
  tickets.foldl (fun files ticket => Function.update files (ticketPath cfg ticket.1)
    (some (Locked.ticketContent uid ticket.2.code))) files

/-- The second section of the constructor with the number `k`. Its `writeInfo` throws without a control
directory. -/
def Server.create (cfg : Configuration) (k : ℕ) (c : Creation) (tickets : Locking.Tickets) (now : ℤ)
    (s : Server) : Server :=
  let files := writeTickets cfg c.prisoner (ticketsOfKinds tickets) s.world.files
  let info := Locking.newInfo tickets now
  let s := { s.withFiles files with creations := s.creations.eraseIdx k }
  if s.control c.prisoner then
    match writeInfo (files (processConfigFile cfg c.prisoner)) info ∅ with
    | none => s
    | some content =>
        { s.withFiles (Function.update files (processConfigFile cfg c.prisoner) (some content)) with
          objects := s.objects ++ [⟨⟨c.prisoner, .admin, info⟩, c.task, .idle, false⟩] }
  else s

/-! ## Objects -/

/-- The constructor with a ticket, for a process that ends if it throws. -/
def Server.enter (cfg : Configuration) (pid : ℤ) (ticket : Bytes) (s : Server) : Server :=
  match Prog.runExcept (ofTicket cfg pid ticket) s.world.files with
  | (files, .error _) => s.withFiles files
  | (files, .ok pm) =>
      { s.withFiles files with objects := s.objects ++ [⟨pm, s.tasks pm.prisoner, .idle, false⟩] }

/-- The operations on an object that hold its lock once. -/
inductive Operation
  | update (u : Locked.Update)
  | setCompilationOutput (compilation : Bytes)
  | setExecutionOutput (execution : Bytes) (executed : Bool)
  | getState

/-- The fields of an object that has read its task. -/
def reread (cfg : Configuration) (files : Files) (pm : ProcessMonitor) : ProcessMonitor :=
  match readInfo (files (processConfigFile cfg pm.prisoner)) with
  | .failed => pm
  | .cleaning info => { pm with info := info }
  | .ok info => { pm with info := info }

/-- The locked part of `getState`. -/
def loadState (cfg : Configuration) (pm : ProcessMonitor) : FileM ProcessMonitor := do
  match ← look (processConfigFile cfg pm.prisoner) with
  | none => pure pm
  | some content =>
      match readInfo (some content) with
      | .failed => throw .unreadableConfig
      | .cleaning info => pure { pm with info := info }
      | .ok info => pure { pm with info := info }

/-- The steps of an operation. -/
def Operation.run (cfg : Configuration) (pm : ProcessMonitor) : Operation → FileM ProcessMonitor
  | update u => u.run cfg pm
  | setCompilationOutput compilation => do
      Locked.setCompilationOutput cfg compilation pm
      pure pm
  | setExecutionOutput execution executed => do
      Locked.setExecutionOutput cfg execution executed pm
      pure pm
  | getState => loadState cfg pm

/-- The operations that register the process. -/
def Operation.registers : Operation → Bool
  | update (.setCompiler _ _) => true
  | update (.setRunner _ _) => true
  | _ => false

/-- An operation on the object with the number `i`. What is thrown comes behind `readInfo`. -/
def Server.operate (cfg : Configuration) (i : ℕ) (o : Object) (op : Operation) (s : Server) :
    Server :=
  match Prog.runExcept (op.run cfg o.pm) s.world.files with
  | (files, .error _) => (s.withFiles files).setObject i { o with pm := reread cfg files o.pm }
  | (files, .ok pm) =>
      (s.withFiles files).setObject i { o with
        pm := pm
        registered := o.registered || op.registers }

/-! ## The end of tasks -/

/-- The files of a prisoner are removed. -/
def Server.clean (cfg : Configuration) (uid : ℕ) (s : Server) : Server :=
  { s with
    world := cleanPrisonerFiles cfg uid s.world
    control := Function.update s.control uid false }

/-- The guard of `cleanZombiePrisonerFiles`, for a directory with the time `mtime`. -/
def Server.isZombie (cfg : Configuration) (s : Server) (uid : ℕ) (maxAge : ℤ)
    (checkControlDir requireNoHome : Bool) (mtime now : ℤ) : Bool :=
  if checkControlDir then
    s.control uid && decide (mtime + maxAge < now) && !(requireNoHome && (s.world.homes uid).isSome)
  else
    (s.world.files (processConfigFile cfg uid)).isNone && (s.world.homes uid).isSome &&
      decide (mtime + maxAge < now)

/-- A task with a home that cannot be opened. -/
def unusable (cfg : Configuration) (uid : ℕ) : Suspect :=
  .found uid (cfg.jailLimits.maxtime + harvestTimeout) true false

/-- What the first loop of `cleanZombieTasks` is about to do with a task. -/
def Server.suspectOf (cfg : Configuration) (s : Server) (uid : ℕ) : Suspect :=
  if (s.world.homes uid).isNone then .found uid monitorstartTimeout true true
  else
    match readTask (s.world.files (processConfigFile cfg uid)) with
    | none => unusable cfg uid
    | some data => .unopened uid (valueOf data (ascii "ADMINTICKET"))

/-- `cleanZombieTasks` presents the admin ticket of a task. -/
def Server.present (cfg : Configuration) (k : ℕ) (uid : ℕ) (pid : ℤ) (ticket : Bytes) (s : Server) :
    Server :=
  match Prog.runExcept (ofTicket cfg pid ticket) s.world.files with
  | (files, .error _) =>
      { s.withFiles files with suspects := s.suspects.set k (unusable cfg uid) }
  | (files, .ok pm) =>
      { s.withFiles files with
        suspects := s.suspects.eraseIdx k
        objects := s.objects ++ [⟨pm, s.tasks pm.prisoner, .idle, false⟩] }

/-! ## Steps -/

/-- What happens next. -/
inductive Action
  | select (draws : ℕ → Draw) (faults : ℕ → Faults)
  | create (k : ℕ) (tickets : Locking.Tickets) (now : ℤ)
  | abandon (k : ℕ)
  | enter (pid : ℤ) (ticket : Bytes)
  | operate (i : ℕ) (op : Operation)
  | fork (i : ℕ)
  | drop (i : ℕ)
  | start (i : ℕ) (pid : ℤ)
  | spawn (uid : ℕ) (pid : ℤ)
  | exit (uid : ℕ) (pid : ℤ)
  | mark (i : ℕ)
  | stop (i : ℕ) (env : Env)
  | check (i : ℕ)
  | remove (i : ℕ)
  | inspect (uid : ℕ) (mtime now : ℤ)
  | present (k : ℕ) (pid : ℤ)
  | fail (i : ℕ)
  | inspectHome (uid : ℕ)
  | collect (k : ℕ) (mtime now : ℤ)

/-- The server behind a step, if it can be taken. The tickets of a new task are those that are drawn
in the end, which name no file. -/
def step (cfg : Configuration) (s : Server) : Action → Option Server
  | .select draws faults => some (s.select cfg draws faults)
  | .create k tickets now =>
      s.creations[k]?.bind fun c =>
        if (tickets.paths cfg).all fun path => (s.world.files path).isNone then
          some (s.create cfg k c tickets now)
        else none
  | .abandon k => some { s with creations := s.creations.eraseIdx k }
  | .enter pid ticket => some (s.enter cfg pid ticket)
  | .operate i op => (s.holder i .idle).map fun o => s.operate cfg i o op
  -- a child process goes on with its own copy of the object
  | .fork i => s.objects[i]?.map fun o => { s with objects := s.objects ++ [o] }
  | .drop i => some { s with objects := s.objects.eraseIdx i }
  | .start i pid =>
      ((s.holder i .idle).filter (·.registered)).map fun o =>
        s.withProcesses o.pm.prisoner (s.world.processes o.pm.prisoner ++ [pid])
  -- only a process of the prisoner starts another one
  | .spawn uid pid =>
      if s.world.processes uid = [] then none
      else some (s.withProcesses uid (s.world.processes uid ++ [pid]))
  | .exit uid pid => some (s.withProcesses uid ((s.world.processes uid).erase pid))
  | .mark i =>
      (s.holder i .idle).map fun o =>
        { s.setObject i { o with phase := .marked } with world := markTask cfg o.pm s.world }
  | .stop i env =>
      (s.holder i .marked).map fun o =>
        { s with world := stopPrisonerProcesses cfg env o.pm.prisoner s.world }
  | .check i =>
      (s.holder i .marked).map fun o =>
        s.setObject i { o with
          phase := if s.world.processes o.pm.prisoner = [] then .cleared else .idle }
  | .remove i =>
      (s.holder i .cleared).map fun o =>
        (s.setObject i { o with phase := .idle }).clean cfg o.pm.prisoner
  | .inspect uid mtime now =>
      if s.control uid && decide (mtime + monitorstartTimeout < now) then
        some { s with suspects := s.suspects ++ [s.suspectOf cfg uid] }
      else none
  | .present k pid =>
      s.suspects[k]?.bind fun suspect =>
        match suspect with
        | .unopened uid ticket => some (s.present cfg k uid pid ticket)
        | .found _ _ _ _ => none
  | .fail i =>
      (s.holder i .idle).bind fun o =>
        if (s.world.files (processConfigFile cfg o.pm.prisoner)).isSome ∧
            readInfo (s.world.files (processConfigFile cfg o.pm.prisoner)) = .failed then
          some { s with suspects := s.suspects ++ [unusable cfg o.pm.prisoner] }
        else none
  | .inspectHome uid =>
      if cfg.logLevel ≤ logDebug ∧ (s.world.homes uid).isSome ∧
          (s.world.files (processConfigFile cfg uid)).isNone then
        some { s with suspects := s.suspects ++ [.found uid (monitorstartTimeout * 2) false false] }
      else none
  | .collect k mtime now =>
      s.suspects[k]?.bind fun suspect =>
        match suspect with
        | .unopened _ _ => none
        | .found uid maxAge checkControlDir requireNoHome =>
            some <|
              let rest := { s with suspects := s.suspects.eraseIdx k }
              if s.isZombie cfg uid maxAge checkControlDir requireNoHome mtime now then
                rest.clean cfg uid
              else rest

/-! ## What a step does -/

section Step

variable {cfg : Configuration} {s s' : Server} {a : Action}

theorem holder_eq_some {i : ℕ} {phase : Phase} {o : Object} :
    s.holder i phase = some o ↔ s.objects[i]? = some o ∧ o.phase = phase := by
  rw [Server.holder, Option.filter_eq_some_iff, beq_iff_eq]

theorem mem_of_holder {i : ℕ} {phase : Phase} {o : Object} (h : s.holder i phase = some o) :
    o ∈ s.objects :=
  List.mem_of_getElem? (holder_eq_some.mp h).1

/-- An object that has been read again belongs to the same prisoner. -/
@[simp] theorem prisoner_reread (files : Files) (pm : ProcessMonitor) :
    (reread cfg files pm).prisoner = pm.prisoner := by
  rw [reread]
  split <;> rfl

theorem prisoner_of_afterChange {outcome : Files × Except Thrown (Option Info)} {info : Info}
    {pm pm' : ProcessMonitor} {files : Files}
    (h : Locked.afterChange cfg pm outcome info = (files, .ok pm')) :
    pm'.prisoner = pm.prisoner := by
  obtain ⟨files', e | info' | info'⟩ := outcome
  · cases h
  · obtain rfl := Except.ok.inj (Prod.mk.inj h).2
    rfl
  · rw [Locked.afterChange] at h
    split at h
    · cases h
    · obtain rfl := Except.ok.inj (Prod.mk.inj h).2
      rfl

/-- An operation keeps the prisoner of its object. -/
theorem prisoner_of_run {op : Operation} {pm pm' : ProcessMonitor} {files files' : Files}
    (h : Prog.runExcept (op.run cfg pm) files = (files', .ok pm')) : pm'.prisoner = pm.prisoner := by
  have hsave (x : FileM Unit) (h : Prog.runExcept (do x; pure pm) files = (files', .ok pm')) :
      pm'.prisoner = pm.prisoner := by
    rw [Prog.runExcept_bind] at h
    split at h
    · obtain rfl := Except.ok.inj (Prod.mk.inj h).2
      rfl
    · cases h
  cases op with
  | update u =>
    rw [Operation.run, Locked.run_update] at h
    split at h
    · obtain rfl := Except.ok.inj (Prod.mk.inj h).2
      rfl
    · split at h
      · cases h
      · exact prisoner_of_afterChange h
  | setCompilationOutput compilation => exact hsave _ h
  | setExecutionOutput execution executed => exact hsave _ h
  | getState =>
    rw [Operation.run, loadState, Prog.runExcept_bind, run_look] at h
    dsimp only at h
    split at h
    · obtain rfl := Except.ok.inj (Prod.mk.inj h).2
      rfl
    · split at h
      · cases h
      · obtain rfl := Except.ok.inj (Prod.mk.inj h).2
        rfl
      · obtain rfl := Except.ok.inj (Prod.mk.inj h).2
        rfl

/-- Where an object comes from: it was there and belongs to the same task, its holder has called
`cleanTask`, it has been opened, or it has been made for a new task. -/
inductive Origin (s : Server) (a : Action) (s' : Server) (o : Object) : Prop
  | kept (o' : Object) (hmem : o' ∈ s.objects) (hprisoner : o.pm.prisoner = o'.pm.prisoner)
      (htask : o.task = o'.task)
      (hphase : o.phase = .cleared →
        o'.phase = .cleared ∨ s'.world.processes o.pm.prisoner = [])
      (hbusy : o.phase ≠ .idle → o'.phase ≠ .idle)
  | marked (i : ℕ) (o' : Object) (haction : a = .mark i) (ho : s.holder i .idle = some o')
      (hprisoner : o.pm.prisoner = o'.pm.prisoner) (htask : o.task = o'.task)
      (hphase : o.phase = .marked)
  | opened (htask : o.task = s.tasks o.pm.prisoner) (hphase : o.phase = .idle)
  | created (c : Creation) (hmem : c ∈ s.creations) (hprisoner : o.pm.prisoner = c.prisoner)
      (htask : o.task = c.task) (hphase : o.phase = .idle)

theorem Origin.of_mem {o : Object} (h : o ∈ s.objects) : Origin s a s' o :=
  .kept o h rfl rfl .inl id

/-- An object whose holder is not in `cleanTask`. -/
theorem Origin.of_idle {o o' : Object} (h : o' ∈ s.objects)
    (hprisoner : o.pm.prisoner = o'.pm.prisoner) (htask : o.task = o'.task)
    (hidle : o.phase = .idle) : Origin s a s' o := by
  refine .kept o' h hprisoner htask (fun hcleared => ?_) fun hbusy => absurd hidle hbusy
  rw [hidle] at hcleared
  cases hcleared

/-- The objects when one is replaced by another of the same task. -/
theorem origin_of_mem_set {i : ℕ} {o o' : Object} (h : o ∈ s.objects.set i o')
    (ho' : Origin s a s' o') : Origin s a s' o := by
  rcases List.mem_or_eq_of_mem_set h with h | rfl
  · exact .of_mem h
  · exact ho'

/-- The objects when one is added. -/
theorem origin_of_mem_append {o o' : Object} (h : o ∈ s.objects ++ [o']) (ho' : Origin s a s' o') :
    Origin s a s' o := by
  rcases List.mem_append.mp h with h | h
  · exact .of_mem h
  · rw [List.mem_singleton.mp h]
    exact ho'

theorem objects_create (k : ℕ) {c : Creation} (hc : c ∈ s.creations) (tickets : Locking.Tickets)
    (now : ℤ) {o : Object} (ho : o ∈ (s.create cfg k c tickets now).objects) : Origin s a s' o := by
  rw [Server.create] at ho
  dsimp only at ho
  split at ho
  · split at ho
    · exact .of_mem ho
    · exact origin_of_mem_append ho (.created c hc rfl rfl rfl)
  · exact .of_mem ho

theorem objects_operate {i : ℕ} {o : Object} (hi : s.holder i .idle = some o) (op : Operation)
    {o' : Object} (ho' : o' ∈ (s.operate cfg i o op).objects) : Origin s a s' o' := by
  have hmem := mem_of_holder hi
  have hidle : o.phase = .idle := (holder_eq_some.mp hi).2
  rw [Server.operate] at ho'
  split at ho'
  · exact origin_of_mem_set ho' (.of_idle hmem (prisoner_reread _ _) rfl hidle)
  · rename_i hrun
    exact origin_of_mem_set ho' (.of_idle hmem (prisoner_of_run hrun) rfl hidle)

/-- Where the objects come from. -/
theorem origin_of_step (h : step cfg s a = some s') {o : Object} (ho : o ∈ s'.objects) :
    Origin s a s' o := by
  cases a with
  | select draws faults =>
    obtain rfl := Option.some.inj h
    rw [Server.select] at ho
    split at ho <;> exact .of_mem ho
  | create k tickets now =>
    obtain ⟨c, hc, h⟩ := Option.bind_eq_some_iff.mp h
    split at h
    · obtain rfl := Option.some.inj h
      exact objects_create k (List.mem_of_getElem? hc) tickets now ho
    · cases h
  | abandon k =>
    obtain rfl := Option.some.inj h
    exact .of_mem ho
  | enter pid ticket =>
    obtain rfl := Option.some.inj h
    rw [Server.enter] at ho
    split at ho
    · exact .of_mem ho
    · exact origin_of_mem_append ho (.opened rfl rfl)
  | operate i op =>
    -- an operation changes its object, and makes none
    obtain ⟨o', ho', rfl⟩ := Option.map_eq_some_iff.mp h
    exact objects_operate ho' op ho
  | fork i =>
    obtain ⟨o', ho', rfl⟩ := Option.map_eq_some_iff.mp h
    exact origin_of_mem_append ho (.of_mem (List.mem_of_getElem? ho'))
  | drop i =>
    obtain rfl := Option.some.inj h
    exact .of_mem (List.mem_of_mem_eraseIdx ho)
  | start i pid =>
    obtain ⟨o', -, rfl⟩ := Option.map_eq_some_iff.mp h
    exact .of_mem ho
  | spawn uid pid =>
    rw [step] at h
    split at h
    · cases h
    · obtain rfl := Option.some.inj h
      exact .of_mem ho
  | exit uid pid =>
    obtain rfl := Option.some.inj h
    exact .of_mem ho
  | mark i =>
    obtain ⟨o', ho', rfl⟩ := Option.map_eq_some_iff.mp h
    exact origin_of_mem_set ho (.marked i o' rfl ho' rfl rfl rfl)
  | stop i env =>
    obtain ⟨o', -, rfl⟩ := Option.map_eq_some_iff.mp h
    exact .of_mem ho
  | check i =>
    obtain ⟨o', ho', rfl⟩ := Option.map_eq_some_iff.mp h
    have hbusy : o'.phase ≠ .idle := by
      rw [(holder_eq_some.mp ho').2]
      decide
    refine origin_of_mem_set ho
      (.kept o' (mem_of_holder ho') rfl rfl (fun hphase => .inr ?_) fun _ => hbusy)
    show s.world.processes o'.pm.prisoner = []
    by_contra hne
    dsimp only at hphase
    rw [if_neg hne] at hphase
    cases hphase
  | remove i =>
    obtain ⟨o', ho', rfl⟩ := Option.map_eq_some_iff.mp h
    exact origin_of_mem_set ho (.of_idle (mem_of_holder ho') rfl rfl rfl)
  | inspect uid mtime now =>
    rw [step] at h
    split at h
    · obtain rfl := Option.some.inj h
      exact .of_mem ho
    · cases h
  | present k pid =>
    obtain ⟨suspect, -, h⟩ := Option.bind_eq_some_iff.mp h
    cases suspect with
    | unopened uid ticket =>
      obtain rfl := Option.some.inj h
      rw [Server.present] at ho
      split at ho
      · exact .of_mem ho
      · exact origin_of_mem_append ho (.opened rfl rfl)
    | found uid maxAge checkControlDir requireNoHome => cases h
  | fail i =>
    obtain ⟨o', -, h⟩ := Option.bind_eq_some_iff.mp h
    split at h
    · obtain rfl := Option.some.inj h
      exact .of_mem ho
    · cases h
  | inspectHome uid =>
    rw [step] at h
    split at h
    · obtain rfl := Option.some.inj h
      exact .of_mem ho
    · cases h
  | collect k mtime now =>
    obtain ⟨suspect, -, h⟩ := Option.bind_eq_some_iff.mp h
    cases suspect with
    | unopened uid ticket => cases h
    | found uid maxAge checkControlDir requireNoHome =>
      obtain rfl := Option.some.inj h
      dsimp only at ho
      split at ho <;> exact .of_mem ho

/-- The steps that remove the control directory of a prisoner. -/
inductive Removes (cfg : Configuration) (s : Server) (uid : ℕ) : Action → Prop
  | remove {i : ℕ} {o : Object} (ho : s.holder i .cleared = some o)
      (hprisoner : o.pm.prisoner = uid) : Removes cfg s uid (.remove i)
  | collect {k : ℕ} {mtime now maxAge : ℤ} {checkControlDir requireNoHome : Bool}
      (hk : s.suspects[k]? = some (.found uid maxAge checkControlDir requireNoHome))
      (hzombie : s.isZombie cfg uid maxAge checkControlDir requireNoHome mtime now = true) :
      Removes cfg s uid (.collect k mtime now)

/-- No prisoner gets a new task. -/
structure NoNewTask (s s' : Server) : Prop where
  tasks : s'.tasks = s.tasks
  creations : ∀ c ∈ s'.creations, c ∈ s.creations

/-- What a step does to the tasks, the directories and the processes: a prisoner is selected, nothing
starts, a program starts, or the directories of a prisoner are removed. -/
inductive Change (cfg : Configuration) (s : Server) (a : Action) (s' : Server) : Prop
  | selected (draws : ℕ → Draw) (faults : ℕ → Faults) (haction : a = .select draws faults)
      (hselect : s' = s.select cfg draws faults)
  | kept (hnew : NoNewTask s s') (hcontrol : s'.control = s.control)
      (hhomes : s'.world.homes = s.world.homes)
      (hprocesses : ∀ uid, s.world.processes uid = [] → s'.world.processes uid = [])
  | started (i : ℕ) (pid : ℤ) (o : Object) (hnew : NoNewTask s s') (haction : a = .start i pid)
      (ho : s.holder i .idle = some o) (hcontrol : s'.control = s.control)
      (hhomes : s'.world.homes = s.world.homes)
      (hprocesses : ∀ uid, uid ≠ o.pm.prisoner → s'.world.processes uid = s.world.processes uid)
  | removed (uid : ℕ) (hnew : NoNewTask s s') (hremoves : Removes cfg s uid a)
      (hcontrol : s'.control = Function.update s.control uid false)
      (hhomes : ∀ uid', uid' ≠ uid → s'.world.homes uid' = s.world.homes uid')
      (hprocesses : s'.world.processes = s.world.processes)

theorem NoNewTask.of_eq (htasks : s'.tasks = s.tasks) (hcreations : s'.creations = s.creations) :
    NoNewTask s s' :=
  ⟨htasks, fun _ hc => hcreations ▸ hc⟩

theorem Change.of_eq (hnew : NoNewTask s s') (hcontrol : s'.control = s.control)
    (hhomes : s'.world.homes = s.world.homes) (hprocesses : s'.world.processes = s.world.processes) :
    Change cfg s a s' := by
  refine .kept hnew hcontrol hhomes fun uid h => ?_
  rw [hprocesses, h]

/-- The processes of one prisoner change. -/
theorem Change.of_processes {uid : ℕ} {pids : List ℤ}
    (h : s.world.processes uid = [] → pids = []) : Change cfg s a (s.withProcesses uid pids) := by
  refine .kept (.of_eq rfl rfl) rfl rfl fun uid' hnone => ?_
  show Function.update s.world.processes uid pids uid' = []
  by_cases huid : uid' = uid
  · rw [huid, Function.update_self]
    exact h (huid ▸ hnone)
  · rw [Function.update_of_ne huid, hnone]

theorem control_select (cfg : Configuration) (draws : ℕ → Draw) (faults : ℕ → Faults) (s : Server) :
    (s.select cfg draws faults).control =
      fun uid => ((selectPrisoner cfg draws faults s.directories).1.control uid).isSome := by
  rw [Server.select]
  split <;> rename_i hselect <;> rw [hselect] <;> rfl

/-- A selection removes no control directory. -/
theorem control_select_of_control {uid : ℕ} (draws : ℕ → Draw) (faults : ℕ → Faults)
    (h : s.control uid = true) : (s.select cfg draws faults).control uid = true := by
  have hfound : s.directories.control uid = some emptyDir := if_pos h
  rw [control_select]
  dsimp only
  rcases selectPrisoner_control cfg draws faults s.directories with
    ⟨heq, -⟩ | ⟨made, -, -, heq, -⟩
  · rw [heq, hfound]
    rfl
  · rw [heq]
    by_cases hmade : uid = made
    · rw [hmade, Function.update_self]
      rfl
    · rw [Function.update_of_ne hmade, hfound]
      rfl

/-- A prisoner that is handed out is one of the range, and its control directory is new. -/
theorem control_of_selected {draws : ℕ → Draw} {faults : ℕ → Faults} {uid : ℕ}
    (h : (selectPrisoner cfg draws faults s.directories).2 = .ok uid) :
    cfg.isPrisonerUID uid = true ∧ s.control uid = false ∧
      (s.select cfg draws faults).control uid = true := by
  rcases selectPrisoner_control cfg draws faults s.directories with
    ⟨-, hne⟩ | ⟨made, huid, hnone, hcontrol, hr⟩
  · exact absurd h (hne uid)
  · rcases hr with hok | ⟨e, he⟩
    · obtain rfl := Except.ok.inj (h.symm.trans hok)
      refine ⟨huid, Bool.eq_false_of_not_eq_true fun hfound => ?_, ?_⟩
      · have hdir : s.directories.control uid = some emptyDir := if_pos hfound
        rw [hdir] at hnone
        cases hnone
      · rw [control_select, hcontrol]
        dsimp only
        rw [Function.update_self]
        rfl
    · cases h.symm.trans he

theorem processes_select (draws : ℕ → Draw) (faults : ℕ → Faults) :
    (s.select cfg draws faults).world.processes = s.world.processes := by
  rw [Server.select]
  split <;> rfl

theorem homes_cleanPrisonerFiles (cfg : Configuration) (uid : ℕ) (w : World) (uid' : ℕ)
    (h : uid' ≠ uid) : (cleanPrisonerFiles cfg uid w).homes uid' = w.homes uid' := by
  show (if cfg.logLevel ≤ logDebug then Function.update w.homes uid none else w.homes) uid' = _
  split
  · exact Function.update_of_ne h _ _
  · rfl

theorem change_create (k : ℕ) (c : Creation) (tickets : Locking.Tickets) (now : ℤ) :
    Change cfg s a (s.create cfg k c tickets now) := by
  have hnew {s' : Server} (htasks : s'.tasks = s.tasks)
      (hcreations : s'.creations = s.creations.eraseIdx k) : NoNewTask s s' :=
    ⟨htasks, fun _ hc => List.mem_of_mem_eraseIdx (hcreations ▸ hc)⟩
  rw [Server.create]
  dsimp only
  split
  · split <;> exact .of_eq (hnew rfl rfl) rfl rfl rfl
  · exact .of_eq (hnew rfl rfl) rfl rfl rfl

/-- What a step does. -/
theorem change_of_step (h : step cfg s a = some s') : Change cfg s a s' := by
  -- a selection, a start and the two removals have a case of their own, all the rest is `kept`
  cases a with
  | select draws faults =>
    obtain rfl := Option.some.inj h
    exact .selected draws faults rfl rfl
  | create k tickets now =>
    obtain ⟨c, -, h⟩ := Option.bind_eq_some_iff.mp h
    split at h
    · obtain rfl := Option.some.inj h
      exact change_create k c tickets now
    · cases h
  | abandon k =>
    obtain rfl := Option.some.inj h
    exact .of_eq ⟨rfl, fun _ => List.mem_of_mem_eraseIdx⟩ rfl rfl rfl
  | enter pid ticket =>
    obtain rfl := Option.some.inj h
    rw [Server.enter]
    split <;> exact .of_eq (.of_eq rfl rfl) rfl rfl rfl
  | operate i op =>
    obtain ⟨o, -, rfl⟩ := Option.map_eq_some_iff.mp h
    rw [Server.operate]
    split <;> exact .of_eq (.of_eq rfl rfl) rfl rfl rfl
  | fork i =>
    obtain ⟨o, -, rfl⟩ := Option.map_eq_some_iff.mp h
    exact .of_eq (.of_eq rfl rfl) rfl rfl rfl
  | drop i =>
    obtain rfl := Option.some.inj h
    exact .of_eq (.of_eq rfl rfl) rfl rfl rfl
  | start i pid =>
    obtain ⟨o, ho, rfl⟩ := Option.map_eq_some_iff.mp h
    exact .started i pid o (.of_eq rfl rfl) rfl (Option.filter_eq_some_iff.mp ho).1 rfl rfl
      fun uid huid => Function.update_of_ne huid _ _
  | spawn uid pid =>
    rw [step] at h
    split at h
    · cases h
    · rename_i hsome
      obtain rfl := Option.some.inj h
      exact .of_processes fun hnone => absurd hnone hsome
  | exit uid pid =>
    obtain rfl := Option.some.inj h
    refine .of_processes fun hnone => ?_
    rw [hnone]
    rfl
  | mark i =>
    obtain ⟨o, -, rfl⟩ := Option.map_eq_some_iff.mp h
    exact .of_eq (.of_eq rfl rfl) rfl rfl rfl
  | stop i env =>
    obtain ⟨o, -, rfl⟩ := Option.map_eq_some_iff.mp h
    rw [stopPrisonerProcesses]
    split
    · refine .of_processes fun hnone => ?_
      rw [hnone]
      rfl
    · exact .of_eq (.of_eq rfl rfl) rfl rfl rfl
  | check i =>
    obtain ⟨o, -, rfl⟩ := Option.map_eq_some_iff.mp h
    exact .of_eq (.of_eq rfl rfl) rfl rfl rfl
  | remove i =>
    obtain ⟨o, ho, rfl⟩ := Option.map_eq_some_iff.mp h
    exact .removed o.pm.prisoner (.of_eq rfl rfl) (.remove ho rfl) rfl
      (homes_cleanPrisonerFiles cfg o.pm.prisoner s.world) rfl
  | inspect uid mtime now =>
    rw [step] at h
    split at h
    · obtain rfl := Option.some.inj h
      exact .of_eq (.of_eq rfl rfl) rfl rfl rfl
    · cases h
  | present k pid =>
    obtain ⟨suspect, -, h⟩ := Option.bind_eq_some_iff.mp h
    cases suspect with
    | unopened uid ticket =>
      obtain rfl := Option.some.inj h
      rw [Server.present]
      split <;> exact .of_eq (.of_eq rfl rfl) rfl rfl rfl
    | found uid maxAge checkControlDir requireNoHome => cases h
  | fail i =>
    obtain ⟨o, -, h⟩ := Option.bind_eq_some_iff.mp h
    split at h
    · obtain rfl := Option.some.inj h
      exact .of_eq (.of_eq rfl rfl) rfl rfl rfl
    · cases h
  | inspectHome uid =>
    rw [step] at h
    split at h
    · obtain rfl := Option.some.inj h
      exact .of_eq (.of_eq rfl rfl) rfl rfl rfl
    · cases h
  | collect k mtime now =>
    obtain ⟨suspect, hk, h⟩ := Option.bind_eq_some_iff.mp h
    cases suspect with
    | unopened uid ticket => cases h
    | found uid maxAge checkControlDir requireNoHome =>
      obtain rfl := Option.some.inj h
      dsimp only
      split
      · exact .removed uid (.of_eq rfl rfl) (.collect hk ‹_›) rfl
          (homes_cleanPrisonerFiles cfg uid s.world) rfl
      · exact .of_eq (.of_eq rfl rfl) rfl rfl rfl

/-- The objects belong to the tasks of objects that were there, with the same fields. -/
def CarriedOver (s s' : Server) : Prop :=
  ∀ o ∈ s'.objects, ∃ o' ∈ s.objects, o'.pm = o.pm

/-- No control directory comes or goes, and no constructor starts. -/
structure Settled (s s' : Server) : Prop where
  control : s'.control = s.control
  creations : s'.creations.Sublist s.creations

/-- What a step does to the files, with the part of the code that does it. -/
inductive Effect (cfg : Configuration) (s : Server) (a : Action) (s' : Server) : Prop
  | selected (draws : ℕ → Draw) (faults : ℕ → Faults) (haction : a = .select draws faults)
      (hselect : s' = s.select cfg draws faults)
  | created (k : ℕ) (tickets : Locking.Tickets) (now : ℤ) (c : Creation)
      (haction : a = .create k tickets now) (hc : s.creations[k]? = some c)
      (hfresh : ∀ path ∈ tickets.paths cfg, s.world.files path = none)
      (hcreate : s' = s.create cfg k c tickets now)
  | used (pid : ℤ) (ticket : Bytes) (hsettled : Settled s s')
      (hfiles : s'.world.files = (Prog.runExcept (ofTicket cfg pid ticket) s.world.files).1)
      (hobjects : ∀ o ∈ s'.objects, o ∈ s.objects ∨
        (Prog.runExcept (ofTicket cfg pid ticket) s.world.files).2 = .ok o.pm)
  | operated (i : ℕ) (op : Operation) (o : Object) (haction : a = .operate i op)
      (ho : s.holder i .idle = some o) (hoperate : s' = s.operate cfg i o op)
  | marked (i : ℕ) (o : Object) (haction : a = .mark i) (ho : s.holder i .idle = some o)
      (hsettled : Settled s s')
      (hfiles : s'.world.files = (markTask cfg o.pm s.world).files) (hobjects : CarriedOver s s')
  | cleaned (uid : ℕ) (hremoves : Removes cfg s uid a) (hcreations : s'.creations = s.creations)
      (hcontrol : s'.control = Function.update s.control uid false)
      (hfiles : s'.world.files = (cleanPrisonerFiles cfg uid s.world).files)
      (hobjects : CarriedOver s s')
  | kept (hsettled : Settled s s') (hfiles : s'.world.files = s.world.files)
      (hobjects : CarriedOver s s')

theorem Settled.of_eq (hcontrol : s'.control = s.control) (hcreations : s'.creations = s.creations) :
    Settled s s' :=
  ⟨hcontrol, hcreations ▸ .refl _⟩

theorem CarriedOver.of_subset (h : s'.objects ⊆ s.objects) : CarriedOver s s' :=
  fun o ho => ⟨o, h ho, rfl⟩

/-- One object is replaced by another with the same fields. -/
theorem CarriedOver.set {i : ℕ} {o o' : Object} (h : s'.objects = s.objects.set i o')
    (ho : o ∈ s.objects) (hpm : o.pm = o'.pm) : CarriedOver s s' := by
  intro o₁ ho₁
  rcases List.mem_or_eq_of_mem_set (h ▸ ho₁) with hmem | rfl
  · exact ⟨o₁, hmem, rfl⟩
  · exact ⟨o, ho, hpm⟩

theorem effect_enter (pid : ℤ) (ticket : Bytes) : Effect cfg s a (s.enter cfg pid ticket) := by
  rw [Server.enter]
  split
  · rename_i files e hrun
    exact .used pid ticket (.of_eq rfl rfl) (congrArg Prod.fst hrun).symm fun _ => .inl
  · rename_i files pm hrun
    refine .used pid ticket (.of_eq rfl rfl) (congrArg Prod.fst hrun).symm fun o ho => ?_
    rcases List.mem_append.mp ho with hmem | hmem
    · exact .inl hmem
    · rw [List.mem_singleton.mp hmem]
      exact .inr (congrArg Prod.snd hrun)

theorem effect_present (k uid : ℕ) (pid : ℤ) (ticket : Bytes) :
    Effect cfg s a (s.present cfg k uid pid ticket) := by
  rw [Server.present]
  split
  · rename_i files e hrun
    exact .used pid ticket (.of_eq rfl rfl) (congrArg Prod.fst hrun).symm fun _ => .inl
  · rename_i files pm hrun
    refine .used pid ticket (.of_eq rfl rfl) (congrArg Prod.fst hrun).symm fun o ho => ?_
    rcases List.mem_append.mp ho with hmem | hmem
    · exact .inl hmem
    · rw [List.mem_singleton.mp hmem]
      exact .inr (congrArg Prod.snd hrun)

/-- Every step has one of these effects. -/
theorem effect_of_step (h : step cfg s a = some s') : Effect cfg s a s' := by
  have hkept {s' : Server} (hcontrol : s'.control = s.control)
      (hcreations : s'.creations = s.creations) (hfiles : s'.world.files = s.world.files)
      (hobjects : s'.objects = s.objects) : Effect cfg s a s' :=
    .kept (.of_eq hcontrol hcreations) hfiles (.of_subset (hobjects ▸ List.Subset.refl _))
  cases a with
  | select draws faults =>
    obtain rfl := Option.some.inj h
    exact .selected draws faults rfl rfl
  | create k tickets now =>
    obtain ⟨c, hc, h⟩ := Option.bind_eq_some_iff.mp h
    split at h
    · -- the tickets drawn have no file yet
      rename_i hfresh
      obtain rfl := Option.some.inj h
      exact .created k tickets now c rfl hc (fun path hpath =>
        Option.isNone_iff_eq_none.mp (List.all_eq_true.mp hfresh path hpath)) rfl
    · cases h
  | abandon k =>
    obtain rfl := Option.some.inj h
    exact .kept ⟨rfl, List.eraseIdx_sublist _ _⟩ rfl (.of_subset (List.Subset.refl _))
  | enter pid ticket =>
    obtain rfl := Option.some.inj h
    exact effect_enter pid ticket
  | operate i op =>
    obtain ⟨o, ho, rfl⟩ := Option.map_eq_some_iff.mp h
    exact .operated i op o rfl ho rfl
  | fork i =>
    obtain ⟨o, ho, rfl⟩ := Option.map_eq_some_iff.mp h
    refine .kept (.of_eq rfl rfl) rfl (.of_subset fun o' ho' => ?_)
    rcases List.mem_append.mp ho' with hmem | hmem
    · exact hmem
    · rw [List.mem_singleton.mp hmem]
      exact List.mem_of_getElem? ho
  | drop i =>
    obtain rfl := Option.some.inj h
    exact .kept (.of_eq rfl rfl) rfl (.of_subset fun _ => List.mem_of_mem_eraseIdx)
  | start i pid =>
    obtain ⟨o, -, rfl⟩ := Option.map_eq_some_iff.mp h
    exact hkept rfl rfl rfl rfl
  | spawn uid pid =>
    rw [step] at h
    split at h
    · cases h
    · obtain rfl := Option.some.inj h
      exact hkept rfl rfl rfl rfl
  | exit uid pid =>
    obtain rfl := Option.some.inj h
    exact hkept rfl rfl rfl rfl
  | mark i =>
    obtain ⟨o, ho, rfl⟩ := Option.map_eq_some_iff.mp h
    exact .marked i o rfl ho (.of_eq rfl rfl) rfl (.set rfl (mem_of_holder ho) rfl)
  | stop i env =>
    obtain ⟨o, -, rfl⟩ := Option.map_eq_some_iff.mp h
    refine hkept rfl rfl ?_ rfl
    show (stopPrisonerProcesses cfg env o.pm.prisoner s.world).files = s.world.files
    rw [stopPrisonerProcesses]
    split <;> rfl
  | check i =>
    obtain ⟨o, ho, rfl⟩ := Option.map_eq_some_iff.mp h
    exact .kept (.of_eq rfl rfl) rfl (.set rfl (mem_of_holder ho) rfl)
  | remove i =>
    obtain ⟨o, ho, rfl⟩ := Option.map_eq_some_iff.mp h
    exact .cleaned o.pm.prisoner (.remove ho rfl) rfl rfl rfl (.set rfl (mem_of_holder ho) rfl)
  | inspect uid mtime now =>
    rw [step] at h
    split at h
    · obtain rfl := Option.some.inj h
      exact hkept rfl rfl rfl rfl
    · cases h
  | present k pid =>
    obtain ⟨suspect, -, h⟩ := Option.bind_eq_some_iff.mp h
    cases suspect with
    | unopened uid ticket =>
      obtain rfl := Option.some.inj h
      exact effect_present k uid pid ticket
    | found uid maxAge checkControlDir requireNoHome => cases h
  | fail i =>
    obtain ⟨o, -, h⟩ := Option.bind_eq_some_iff.mp h
    split at h
    · obtain rfl := Option.some.inj h
      exact hkept rfl rfl rfl rfl
    · cases h
  | inspectHome uid =>
    rw [step] at h
    split at h
    · obtain rfl := Option.some.inj h
      exact hkept rfl rfl rfl rfl
    · cases h
  | collect k mtime now =>
    obtain ⟨suspect, hk, h⟩ := Option.bind_eq_some_iff.mp h
    cases suspect with
    | unopened uid ticket => cases h
    | found uid maxAge checkControlDir requireNoHome =>
      obtain rfl := Option.some.inj h
      dsimp only
      split
      · exact .cleaned uid (.collect hk ‹_›) rfl rfl rfl (.of_subset (List.Subset.refl _))
      · exact hkept rfl rfl rfl rfl

end Step

/-! ## Runs -/

/-- The runs whose steps are all allowed. -/
abbrev Reaches (cfg : Configuration) (ok : Server → Action → Prop) : Server → Server → Prop :=
  Relation.ReflTransGen fun s s' => ∃ a, ok s a ∧ step cfg s a = some s'

/-- A server that has had no task since it started. -/
structure Server.IsInitial (s : Server) : Prop where
  files : ∀ path, s.world.files path = none
  control : ∀ uid, s.control uid = false
  processes : ∀ uid, s.world.processes uid = []
  creations : s.creations = []
  objects : s.objects = []
  suspects : s.suspects = []

/-- The server behind some steps. -/
def run (cfg : Configuration) (s : Server) (actions : List Action) : Option Server :=
  actions.foldlM (step cfg) s

/-- Each step is allowed when it is taken. -/
def Allowed (cfg : Configuration) (ok : Server → Action → Prop) (s : Server) : List Action → Prop
  | [] => True
  | a :: actions => ok s a ∧ ∀ s', step cfg s a = some s' → Allowed cfg ok s' actions

section Runs

variable {cfg : Configuration} {ok : Server → Action → Prop} {s s' : Server}
  {actions : List Action}

theorem allowed_of_forall (h : ∀ a ∈ actions, ∀ s, ok s a) : Allowed cfg ok s actions := by
  induction actions generalizing s with
  | nil => trivial
  | cons a actions ih =>
    obtain ⟨ha, h⟩ := List.forall_mem_cons.mp h
    exact ⟨ha s, fun _ _ => ih h⟩

theorem run_cons {a : Action} (h : step cfg s a = some s') (actions : List Action) :
    run cfg s (a :: actions) = run cfg s' actions := by
  rw [run, List.foldlM_cons, h]
  rfl

theorem reaches_of_run (h : run cfg s actions = some s') (hok : Allowed cfg ok s actions) :
    Reaches cfg ok s s' := by
  induction actions generalizing s with
  | nil =>
    obtain rfl := Option.some.inj h
    exact .refl
  | cons a actions ih =>
    rw [run, List.foldlM_cons] at h
    obtain ⟨s₁, hstep, hrest⟩ := Option.bind_eq_some_iff.mp h
    exact .head ⟨a, hok.1, hstep⟩ (ih hrest (hok.2 s₁ hstep))

/-- A run of some steps and of some more. -/
theorem run_append {more : List Action} (h : run cfg s (actions ++ more) = some s') :
    ∃ s₁, run cfg s actions = some s₁ ∧ run cfg s₁ more = some s' := by
  rw [run, List.foldlM_append] at h
  exact Option.bind_eq_some_iff.mp h

/-- What holds at first and is kept by every step that is allowed holds in every run. -/
theorem invariant {P : Server → Prop} (hs : P s)
    (hstep : ∀ s a s', P s → ok s a → step cfg s a = some s' → P s') (h : Reaches cfg ok s s') :
    P s' := by
  refine invariant_of_reaches (fun s s' hs hnext => ?_) h hs
  obtain ⟨a, ha, hnext⟩ := hnext
  exact hstep s a s' hs ha hnext

/-- The object in a place is the one that has been put there. -/
theorem holder_setObject {i : ℕ} {phase : Phase} {o : Object} (h : s.holder i phase = some o)
    (o' : Object) : (s.setObject i o').holder i o'.phase = some o' := by
  obtain ⟨hlt, -⟩ := List.getElem?_eq_some_iff.mp (holder_eq_some.mp h).1
  exact holder_eq_some.mpr ⟨List.getElem?_set_self hlt, rfl⟩

/-- The parts of `cleanTask`, one after the other, are the whole call. -/
theorem run_cleanTask (cfg : Configuration) (env : Env) {i : ℕ} {o : Object}
    (h : s.holder i .idle = some o) :
    ∃ actions s', run cfg s actions = some s' ∧ s'.world = cleanTask cfg env o.pm s.world ∧
      s'.holder i .idle = some o := by
  have hidle : { o with phase := .idle } = o := by
    rw [← (holder_eq_some.mp h).2]
  let marked : Object := { o with phase := .marked }
  let s₁ : Server := { s.setObject i marked with world := markTask cfg o.pm s.world }
  let s₂ : Server := { s₁ with world := stopPrisonerProcesses cfg env o.pm.prisoner s₁.world }
  have hmarked : s₁.holder i .marked = some marked := holder_setObject h marked
  have hmark : step cfg s (.mark i) = some s₁ := congrArg (Option.map _) h
  have hstop : step cfg s₁ (.stop i env) = some s₂ := congrArg (Option.map _) hmarked
  have hcheck : step cfg s₂ (.check i) = some (s₂.setObject i { o with
      phase := if s₂.world.processes o.pm.prisoner = [] then .cleared else .idle }) :=
    congrArg (Option.map _) hmarked
  by_cases hnone : s₂.world.processes o.pm.prisoner = []
  · rw [if_pos hnone] at hcheck
    let cleared : Object := { o with phase := .cleared }
    have hcleared : (s₂.setObject i cleared).holder i .cleared = some cleared :=
      holder_setObject (s := s₂) hmarked cleared
    let s₄ : Server :=
      ((s₂.setObject i cleared).setObject i { o with phase := .idle }).clean cfg o.pm.prisoner
    have hremove : step cfg (s₂.setObject i cleared) (.remove i) = some s₄ :=
      congrArg (Option.map _) hcleared
    have hworld : s₄.world = cleanTask cfg env o.pm s.world := (if_pos hnone).symm
    have hrun : run cfg s [.mark i, .stop i env, .check i, .remove i] = some s₄ := by
      rw [run_cons hmark, run_cons hstop, run_cons hcheck, run_cons hremove]
      rfl
    exact ⟨_, s₄, hrun, hworld, hidle ▸ holder_setObject hcleared { o with phase := .idle }⟩
  · rw [if_neg hnone] at hcheck
    let s₃ : Server := s₂.setObject i { o with phase := .idle }
    have hworld : s₃.world = cleanTask cfg env o.pm s.world := (if_neg hnone).symm
    have hrun : run cfg s [.mark i, .stop i env, .check i] = some s₃ := by
      rw [run_cons hmark, run_cons hstop, run_cons hcheck]
      rfl
    exact ⟨_, s₃, hrun, hworld, hidle ▸ holder_setObject (s := s₂) hmarked { o with phase := .idle }⟩

end Runs

/-! ## The first task of a server -/

/-- A server that has just started. -/
def started : Server where
  world := ⟨fun _ => none, fun _ => none, fun _ => []⟩
  control := fun _ => false
  tasks := fun _ => 0
  creations := []
  objects := []
  suspects := []

theorem isInitial_started : started.IsInitial :=
  ⟨fun _ => rfl, fun _ => rfl, fun _ => rfl, rfl, rfl, rfl⟩

/-- The tickets of the first task. -/
def firstTickets : Locking.Tickets := ⟨ascii "11", some (ascii "12"), ascii "13"⟩

/-- The two sections of a constructor. -/
def newTask (tickets : Locking.Tickets) : List Action :=
  [.select sameDraws fun _ => .none, .create 0 tickets 1000]

end VplJail.Task.Lifecycle
