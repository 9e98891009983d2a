import VplJail.Task.TicketTable

/-!
# Prisoners that are used again

A prisoner whose control directory is gone may be selected for another task, while processes still hold
objects of the earlier one. `cleanTask` knows its task by the prisoner alone, so with such an object it
takes the later task for its own (`not_sparesLaterTask`). In a run in which it is called only with
objects of the present task, and no prisoner is handed out while it is under way, every step of it
changes its own task and no other (`sparesLaterTask_of_reaches`).
-/

namespace VplJail.Task.Lifecycle

open CriticalSection ConfigurationFile Util

/-- The present task of a prisoner is left alone: its configuration with the mark, its tickets, its
home and its control directory. -/
structure Spares (cfg : Configuration) (uid : ℕ) (s s' : Server) : Prop where
  config : s'.world.files (processConfigFile cfg uid) = s.world.files (processConfigFile cfg uid)
  tickets : ∀ data, readTask (s.world.files (processConfigFile cfg uid)) = some data →
    ∀ ticket ∈ ticketsOf data,
      s'.world.files (ticketPath cfg ticket) = s.world.files (ticketPath cfg ticket)
  home : s'.world.homes uid = s.world.homes uid
  control : s'.control uid = s.control uid

/-- The object with which a step marks a task, sends signals or removes files. -/
def Action.cleaner : Action → Option ℕ
  | .mark i => some i
  | .stop i _ => some i
  | .remove i => some i
  | _ => none

/-- With an object of an earlier task, a step of `cleanTask` leaves the present task of the prisoner
alone, and its processes get no signal. -/
def SparesLaterTask (cfg : Configuration) (s : Server) (a : Action) (s' : Server) : Prop :=
  ∀ i o, a.cleaner = some i → s.objects[i]? = some o → o.task ≠ s.tasks o.pm.prisoner →
    Spares cfg o.pm.prisoner s s' ∧ ∀ env, a = .stop i env → s.world.processes o.pm.prisoner = []

/-- The files of the task of an object: those of its control directory, and the tickets that the
configuration or the object names. -/
def OwnFile (cfg : Configuration) (pm : ProcessMonitor) (files : Files) (path : Bytes) : Prop :=
  (processControlPath cfg pm.prisoner ++ ascii "/") <+: path ∨
    ∃ ticket ∈ ticketsOf ((readTask (files (processConfigFile cfg pm.prisoner))).getD ∅) ++
      pm.info.tickets, path = cstr (ticketPath cfg ticket)

/-- Nothing changes but the home, the control directory, the processes and the files of one task. -/
structure Footprint (cfg : Configuration) (pm : ProcessMonitor) (s s' : Server) : Prop where
  files : ∀ path, ¬ OwnFile cfg pm s.world.files path → s'.world.files path = s.world.files path
  homes : ∀ uid, uid ≠ pm.prisoner → s'.world.homes uid = s.world.homes uid
  control : ∀ uid, uid ≠ pm.prisoner → s'.control uid = s.control uid
  processes : ∀ uid, uid ≠ pm.prisoner → s'.world.processes uid = s.world.processes uid
  tasks : s'.tasks = s.tasks

/-- A step of `cleanTask` is taken for the present task of the prisoner, and changes that task only. -/
def CleansOwnTask (cfg : Configuration) (s : Server) (a : Action) (s' : Server) : Prop :=
  ∀ i o, a.cleaner = some i → s.objects[i]? = some o →
    o.task = s.tasks o.pm.prisoner ∧ Footprint cfg o.pm s s'

/-- `cleanTask` is called with no object whose prisoner has been handed out again, and no prisoner is
handed out while a `cleanTask` for it is under way. -/
structure CleansInTime (cfg : Configuration) (s : Server) (a : Action) : Prop where
  mark : ∀ i o, a = .mark i → s.objects[i]? = some o → o.task = s.tasks o.pm.prisoner
  select : ∀ draws faults uid, a = .select draws faults →
    (selectPrisoner cfg draws faults s.directories).2 = .ok uid →
      ∀ o ∈ s.objects, o.pm.prisoner = uid → o.phase = .idle

/-- An object whose holder is in `cleanTask` is one of the present task of its prisoner. -/
def BusyCurrent (s : Server) : Prop :=
  ∀ o ∈ s.objects, o.phase ≠ .idle → o.task = s.tasks o.pm.prisoner

section Footprint

variable {cfg : Configuration} {pm : ProcessMonitor} {s s' : Server} {a : Action}

/-- The mark and the removal of the tickets of a task leave the other files. -/
theorem removeTickets_markCleaning {tickets : List Bytes} {path : Bytes}
    (htickets : tickets ⊆ ticketsOf (markCleaning cfg pm.prisoner s.world.files).2 ++
      pm.info.tickets) (h : ¬ OwnFile cfg pm s.world.files path) :
    tickets.foldl (removeTicketFile cfg) (markCleaning cfg pm.prisoner s.world.files).1 path =
      s.world.files path := by
  have hconfig : path ≠ processConfigFile cfg pm.prisoner := by
    rintro rfl
    exact h (.inl (List.isPrefixOf_iff_prefix.mp (isPrefixOf_configFile cfg pm.prisoner)))
  rw [removeTickets_of_ne fun ticket hticket heq => h (.inr ⟨ticket, ?_, heq.symm⟩),
    markCleaning_of_ne hconfig]
  exact ticketsOf_markCleaning cfg pm.prisoner s.world.files ▸ htickets hticket

theorem footprint_mark (i : ℕ) (o : Object) :
    Footprint cfg pm s { s.setObject i o with world := markTask cfg pm s.world } where
  files _ hpath := removeTickets_markCleaning (List.Subset.refl _) hpath
  homes _ _ := rfl
  control _ _ := rfl
  processes _ _ := rfl
  tasks := rfl

theorem footprint_stop (env : Env) :
    Footprint cfg pm s { s with world := stopPrisonerProcesses cfg env pm.prisoner s.world } := by
  rw [stopPrisonerProcesses]
  split
  · exact ⟨fun _ _ => rfl, fun _ _ => rfl, fun _ _ => rfl,
      fun uid huid => Function.update_of_ne huid _ _, rfl⟩
  · exact ⟨fun _ _ => rfl, fun _ _ => rfl, fun _ _ => rfl, fun _ _ => rfl, rfl⟩

theorem footprint_remove (i : ℕ) (o : Object) :
    Footprint cfg pm s ((s.setObject i o).clean cfg pm.prisoner) where
  files path hpath := by
    have hdir : (processControlPath cfg pm.prisoner ++ ascii "/").isPrefixOf path ≠ true :=
      fun hprefix => hpath (.inl (List.isPrefixOf_iff_prefix.mp hprefix))
    show removeControlDir cfg pm.prisoner _ path = _
    rw [removeControlDir, if_neg hdir]
    exact removeTickets_markCleaning (List.subset_append_left _ _) hpath
  homes := homes_cleanPrisonerFiles cfg pm.prisoner s.world
  control uid huid := Function.update_of_ne huid _ _
  processes _ _ := rfl
  tasks := rfl

/-- A step of `cleanTask` changes the task of its object only. -/
theorem footprint_of_cleaner (h : step cfg s a = some s') {i : ℕ} {o : Object}
    (ha : a.cleaner = some i) (ho : s.objects[i]? = some o) : Footprint cfg o.pm s s' := by
  cases a with
  | mark j =>
    obtain rfl := Option.some.inj ha
    obtain ⟨o', ho', rfl⟩ := Option.map_eq_some_iff.mp h
    obtain rfl := Option.some.inj (ho.symm.trans (holder_eq_some.mp ho').1)
    exact footprint_mark j _
  | stop j env =>
    obtain rfl := Option.some.inj ha
    obtain ⟨o', ho', rfl⟩ := Option.map_eq_some_iff.mp h
    obtain rfl := Option.some.inj (ho.symm.trans (holder_eq_some.mp ho').1)
    exact footprint_stop env
  | remove j =>
    obtain rfl := Option.some.inj ha
    obtain ⟨o', ho', rfl⟩ := Option.map_eq_some_iff.mp h
    obtain rfl := Option.some.inj (ho.symm.trans (holder_eq_some.mp ho').1)
    exact footprint_remove j _
  | select | create | abandon | enter | operate | fork | drop | start | spawn | exit | check | inspect
  | present | fail | inspectHome | collect => cases ha

end Footprint

section Current

variable {cfg : Configuration} {s s' : Server} {a : Action}

/-- Only a selection gives a prisoner a new task. -/
theorem tasks_of_step (h : step cfg s a = some s') :
    s'.tasks = s.tasks ∨ ∃ draws faults uid, a = .select draws faults ∧
      (selectPrisoner cfg draws faults s.directories).2 = .ok uid ∧
        s'.tasks = Function.update s.tasks uid (s.tasks uid + 1) := by
  cases change_of_step h with
  | selected draws faults haction hselect =>
    rw [hselect, Server.select]
    split
    · exact .inl rfl
    · rename_i d uid hok
      exact .inr ⟨draws, faults, uid, haction, congrArg Prod.snd hok, rfl⟩
  | kept hnew _ _ => exact .inl hnew.tasks
  | started i pid o hnew _ _ _ _ => exact .inl hnew.tasks
  | removed uid hnew _ _ _ => exact .inl hnew.tasks

/-- A `cleanTask` under way was under way before, or has been called for the present task. -/
theorem busyCurrent_step (hs : BusyCurrent s) (ha : CleansInTime cfg s a)
    (h : step cfg s a = some s') : BusyCurrent s' := by
  intro o ho hbusy
  have hcurrent : o.task = s.tasks o.pm.prisoner := by
    cases origin_of_step h ho with
    | kept o' hmem hprisoner htask _ hphase =>
      rw [htask, hprisoner]
      exact hs o' hmem (hphase hbusy)
    | marked i o' haction ho' hprisoner htask _ =>
      rw [htask, hprisoner]
      exact ha.mark i o' haction (holder_eq_some.mp ho').1
    | opened htask _ => exact htask
    | created c _ _ _ hidle => exact absurd hidle hbusy
  rcases tasks_of_step h with htasks | ⟨draws, faults, uid, rfl, hok, htasks⟩
  · rw [htasks]
    exact hcurrent
  · -- the prisoner that is handed out is another one
    have hobjects : s'.objects = s.objects := by
      obtain rfl := Option.some.inj h
      rw [Server.select]
      split <;> rfl
    have hne : o.pm.prisoner ≠ uid := fun heq =>
      hbusy (ha.select draws faults uid rfl hok o (hobjects ▸ ho) heq)
    rw [htasks, Function.update_of_ne hne]
    exact hcurrent

/-- The object of a step of `cleanTask` is one of the present task. -/
theorem task_of_cleaner (hs : BusyCurrent s) (ha : CleansInTime cfg s a)
    (h : step cfg s a = some s') {i : ℕ} {o : Object} (hcleaner : a.cleaner = some i)
    (ho : s.objects[i]? = some o) : o.task = s.tasks o.pm.prisoner := by
  have hbusy {phase : Phase} (hphase : phase ≠ .idle) {o' : Object}
      (ho' : s.holder i phase = some o') : o.task = s.tasks o.pm.prisoner := by
    obtain ⟨hsame, hat⟩ := holder_eq_some.mp ho'
    obtain rfl := Option.some.inj (ho.symm.trans hsame)
    exact hs o (List.mem_of_getElem? ho) (hat ▸ hphase)
  cases a with
  | mark j =>
    obtain rfl := Option.some.inj hcleaner
    exact ha.mark j o rfl ho
  | stop j env =>
    obtain rfl := Option.some.inj hcleaner
    obtain ⟨o', ho', -⟩ := Option.map_eq_some_iff.mp h
    exact hbusy (by decide) ho'
  | remove j =>
    obtain rfl := Option.some.inj hcleaner
    obtain ⟨o', ho', -⟩ := Option.map_eq_some_iff.mp h
    exact hbusy (by decide) ho'
  | select | create | abandon | enter | operate | fork | drop | start | spawn | exit | check | inspect
  | present | fail | inspectHome | collect => cases hcleaner

/-- In every run with such calls, `cleanTask` is about the present task of the prisoner only, whatever
objects of earlier tasks are left. -/
theorem sparesLaterTask_of_reaches {s₀ : Server} (h₀ : s₀.IsInitial)
    (h : Reaches cfg (CleansInTime cfg) s₀ s) (ha : CleansInTime cfg s a)
    (hstep : step cfg s a = some s') : SparesLaterTask cfg s a s' ∧ CleansOwnTask cfg s a s' := by
  have hinitial : BusyCurrent s₀ := by
    intro o ho
    rw [h₀.objects] at ho
    cases ho
  have hcurrent : BusyCurrent s := invariant hinitial (fun _ _ _ => busyCurrent_step) h
  refine ⟨fun i o hcleaner ho hother => ?_, fun i o hcleaner ho => ?_⟩
  · exact absurd (task_of_cleaner hcurrent ha hstep hcleaner ho) hother
  · exact ⟨task_of_cleaner hcurrent ha hstep hcleaner ho, footprint_of_cleaner hstep hcleaner ho⟩

end Current

/-- Tickets of a later task. -/
def laterTickets : Locking.Tickets := ⟨ascii "21", some (ascii "22"), ascii "23"⟩

/-- A task with two copies of its object. -/
def heldTwice : List Action :=
  newTask firstTickets ++ [.fork 0]

/-- A task is cleaned with one of two copies of its object, and its prisoner has another task then. -/
def handedOutAgain : List Action :=
  heldTwice ++ [.mark 0, .check 0, .remove 0] ++ newTask laterTickets

/-- Most steps call no `cleanTask` and hand out no prisoner. -/
theorem cleansInTime_of_ne {cfg : Configuration} {s : Server} {a : Action} (hmark : ∀ i, a ≠ .mark i)
    (hselect : ∀ draws faults, a ≠ .select draws faults) : CleansInTime cfg s a :=
  ⟨fun i _ heq => absurd heq (hmark i), fun draws faults _ heq => absurd heq (hselect draws faults)⟩

theorem cleansInTime_mark {cfg : Configuration} {s : Server} {i : ℕ}
    (h : ∀ o ∈ s.objects, o.task = s.tasks o.pm.prisoner) : CleansInTime cfg s (.mark i) where
  mark _ o _ ho := h o (List.mem_of_getElem? ho)
  select _ _ _ heq := by cases heq

theorem cleansInTime_select {cfg : Configuration} {s : Server} {draws : ℕ → Draw}
    {faults : ℕ → Faults} (h : ∀ o ∈ s.objects, o.phase = .idle) :
    CleansInTime cfg s (.select draws faults) where
  mark _ _ heq := by cases heq
  select _ _ _ _ _ o ho _ := h o ho

theorem sparesLaterTask_handedOutAgain :
    ∃ s s', run .default started handedOutAgain = some s ∧ step .default s (.mark 2) = some s' ∧
      (s.objects.map fun o => (o.pm.prisoner, o.task)) = [(10001, 1), (10001, 1), (10001, 2)] ∧
      SparesLaterTask .default s (.mark 2) s' ∧ CleansOwnTask .default s (.mark 2) s' := by
  have hheld : ((run .default started heldTwice).map fun s =>
      s.objects.all fun o => o.task == s.tasks o.pm.prisoner) = some true := by decide +kernel
  have hcleaned : ((run .default started (heldTwice ++ [.mark 0, .check 0, .remove 0])).map fun s =>
      s.objects.all fun o => o.phase == .idle) = some true := by decide +kernel
  have hlater : ((run .default started handedOutAgain).bind fun s => (step .default s (.mark 2)).map
      fun _ => (s.objects.map fun o => (o.pm.prisoner, o.task), s.objects[2]?.map fun o =>
        o.task == s.tasks o.pm.prisoner)) =
      some ([(10001, 1), (10001, 1), (10001, 2)], some true) := by decide +kernel
  obtain ⟨s, hs, hmark⟩ := Option.bind_eq_some_iff.mp hlater
  obtain ⟨s', hstep, hvalues⟩ := Option.map_eq_some_iff.mp hmark
  obtain ⟨hobjects, hpresent⟩ := Prod.mk.inj hvalues
  obtain ⟨o, ho, hcurrent⟩ := Option.map_eq_some_iff.mp hpresent
  obtain ⟨s₂, hs₂, hnew⟩ := run_append hs
  obtain ⟨s₁, hs₁, hcleaning⟩ := run_append hs₂
  rw [hs₂, Option.map_some, Option.some_inj, List.all_eq_true] at hcleaned
  rw [hs₁, Option.map_some, Option.some_inj, List.all_eq_true] at hheld
  have hfirst : Reaches .default (CleansInTime .default) started s₁ := by
    refine reaches_of_run hs₁ ⟨cleansInTime_select fun o ho => ?_, fun _ _ => allowed_of_forall ?_⟩
    · exact (List.not_mem_nil ho).elim
    · simp [cleansInTime_of_ne]
  have hclean : Reaches .default (CleansInTime .default) s₁ s₂ := by
    refine reaches_of_run hcleaning ⟨cleansInTime_mark fun o ho => ?_, fun _ _ =>
      allowed_of_forall ?_⟩
    · exact beq_iff_eq.mp (hheld o ho)
    · simp [cleansInTime_of_ne]
  have hagain : Reaches .default (CleansInTime .default) s₂ s := by
    refine reaches_of_run hnew ⟨cleansInTime_select fun o ho => ?_, fun _ _ =>
      allowed_of_forall ?_⟩
    · exact beq_iff_eq.mp (hcleaned o ho)
    · simp [cleansInTime_of_ne]
  refine ⟨s, s', hs, hstep, hobjects, sparesLaterTask_of_reaches isInitial_started
    ((hfirst.trans hclean).trans hagain) ⟨fun i o' heq ho' => ?_, fun _ _ _ heq => ?_⟩ hstep⟩
  · obtain rfl := Action.mark.inj heq
    obtain rfl := Option.some.inj (ho.symm.trans ho')
    exact beq_iff_eq.mp hcurrent
  · cases heq

/-- The other copy marks the later task. -/
theorem not_sparesLaterTask :
    ¬ ∀ s₀ s a s', s₀.IsInitial → Reaches .default (fun _ _ => True) s₀ s →
      step .default s a = some s' → SparesLaterTask .default s a s' := by
  have hrun : ((run .default started handedOutAgain).bind fun s =>
      (step .default s (.mark 1)).map fun s' =>
        (s.objects[1]?.map fun o => (o.pm.prisoner, o.task), s.tasks 10001,
          decide (s'.world.files (processConfigFile .default 10001) =
            s.world.files (processConfigFile .default 10001)))) =
      some (some (10001, 1), 2, false) := by decide +kernel
  obtain ⟨s, hs, hmark⟩ := Option.bind_eq_some_iff.mp hrun
  obtain ⟨s', hstep, hvalues⟩ := Option.map_eq_some_iff.mp hmark
  obtain ⟨hobject, hvalues⟩ := Prod.mk.inj hvalues
  obtain ⟨htasks, hconfig⟩ := Prod.mk.inj hvalues
  obtain ⟨o, ho, hpair⟩ := Option.map_eq_some_iff.mp hobject
  obtain ⟨hprisoner, htask⟩ := Prod.mk.inj hpair
  intro h
  have hspares := h started s (.mark 1) s' isInitial_started
    (reaches_of_run hs (allowed_of_forall fun _ _ _ => trivial)) hstep 1 o rfl ho
    (by rw [hprisoner, htask, htasks]; decide)
  have hsame := hspares.1.config
  rw [hprisoner] at hsame
  exact of_decide_eq_false hconfig hsame

end VplJail.Task.Lifecycle
