import VplJail.Jail.Rerooting

/-!
# Confinement

What a program finds when `executeInJail` starts it. No answer of the kernel makes the server start a
program that is not confined (`confined_of_launch`), and the answers that it cannot do without are
those that keep it from starting the program at all (`launches_iff`).
-/

namespace VplJail.Jail.Isolation

open Util

section Rules

variable {K : Kernel} {host : Host} {pm : Execution host.cfg.toConfiguration}
variable {α β : Type} {p : Process}

/-! ## As the prisoner -/

theorem becomePrisoner_leads : Leads host pm p (becomePrisoner K host pm) fun _ p' =>
    ∃ noNewPrivs refused, p' = { p with
        user := Ids.all pm.prisoner, group := Ids.all pm.prisoner, noNewPrivs := noNewPrivs,
        listening := false, refused := refused } ∧ p.refused ⊆ refused ∧
      (noNewPrivs = true ∨ ∃ error, (.prctl .noNewPrivs, error) ∈ refused) := by
  refine Leads.check_bind (fun _ => rfl) (fun _ => rfl) ?_
  refine Leads.check_bind (fun _ => rfl) (fun _ => rfl) ?_
  refine Leads.call_bind (fun _ => rfl) (fun uid huid => ?_) fun uid huid => ?_
  · rw [if_pos (by simpa [bars] using huid)]
    exact Leaves.throw _
  rw [if_neg (by simpa [bars] using huid)]
  refine Leads.call_bind (fun _ => rfl) (fun euid heuid => ?_) fun euid heuid => ?_
  · rw [if_pos (by simpa [bars] using heuid)]
    exact Leaves.throw _
  rw [if_neg (by simpa [bars] using heuid)]
  refine Leads.attempt_bind (fun _ => rfl) (fun _ => rfl) fun a => ?_
  have hprivs : ∃ noNewPrivs refused, Process.step { p with
        user := Ids.all pm.prisoner, group := Ids.all pm.prisoner } ⟨.sys (.prctl .noNewPrivs), a⟩ =
      { p with
        user := Ids.all pm.prisoner, group := Ids.all pm.prisoner, noNewPrivs := noNewPrivs,
        refused := refused } ∧ p.refused ⊆ refused ∧
      (noNewPrivs = true ∨ ∃ error, (.prctl .noNewPrivs, error) ∈ refused) := by
    cases a with
    | none => exact ⟨true, p.refused, rfl, List.Subset.refl _, .inl rfl⟩
    | some error =>
      exact ⟨p.noNewPrivs, p.refused ++ [(.prctl .noNewPrivs, error)], rfl,
        List.subset_append_left _ _, .inr ⟨error, List.mem_append_right _ List.mem_cons_self⟩⟩
  obtain ⟨noNewPrivs, refused, hstep, hsub, hasked⟩ := hprivs
  generalize hq : Process.step _ ⟨.sys (.prctl .noNewPrivs), a⟩ = q
  obtain rfl := hq.symm.trans hstep
  refine ignore_bind (fun _ => rfl) (fun _ => rfl) rfl (fun _ => rfl) fun refused₁ h₁ => ?_
  refine ignore_bind (fun _ => rfl) (fun _ => rfl) rfl (fun _ => rfl) fun refused₂ h₂ => ?_
  refine Leads.call_bind (fun _ => rfl) (fun _ h => by cases h) fun _ _ => Leads.pure ?_
  have hlater := List.Subset.trans h₁ h₂
  exact ⟨noNewPrivs, refused₂, rfl, List.Subset.trans hsub hlater,
    hasked.imp_right (Exists.imp fun _ herror => hlater herror)⟩

theorem setLimit_eq (p : Process) (value : ℕ) (resource : Resource) : ∃ limits,
    p.setLimit value resource = { p with limits := limits } ∧
      limitOf limits resource = some value ∧
      ∀ r, r ≠ resource → limitOf limits r = limitOf p.limits r := by
  cases resource <;>
    exact ⟨_, rfl, rfl, fun r hr => by cases r <;> first | rfl | exact absurd rfl hr⟩

/-- A limit is set, or refused. -/
def LimitDone (p : Process) (resource : Resource) (value : ℕ) : Prop :=
  limitOf p.limits resource = some value ∨
    ∃ error, (.setrlimit resource value, error) ∈ p.refused

theorem setrlimit_leads {resource : Resource} {limit : Option ℕ} :
    Leads host pm p (setrlimit K resource limit) fun _ p' =>
      ∃ limits refused, p' = { p with limits := limits, refused := refused } ∧
        p.refused ⊆ refused ∧ (∀ value, limit = some value → LimitDone p' resource value) ∧
        ∀ r, r ≠ resource → limitOf limits r = limitOf p.limits r := by
  cases limit with
  | none =>
    exact Leads.pure ⟨p.limits, p.refused, rfl, List.Subset.refl _,
      fun value h => absurd h.symm (Option.some_ne_none value), fun _ _ => rfl⟩
  | some value =>
    refine Leads.attempt (fun _ => rfl) (fun _ => rfl) fun a => ?_
    cases a with
    | none =>
      obtain ⟨limits, hset, hlimit, hothers⟩ := setLimit_eq p value resource
      refine ⟨limits, p.refused, hset, List.Subset.refl _, fun v hv => .inl ?_, hothers⟩
      obtain rfl := Option.some.inj hv
      rw [Process.step, Process.perform, hset]
      exact hlimit
    | some error =>
      refine ⟨p.limits, _, rfl, List.subset_append_left _ _, fun v hv => .inr ⟨error, ?_⟩,
        fun _ _ => rfl⟩
      obtain rfl := Option.some.inj hv
      exact List.mem_append_right _ List.mem_cons_self

theorem applyLimits_leads : Leads host pm p (applyLimits K host pm) fun _ p' =>
    ∃ limits refused, p' = { p with limits := limits, refused := refused } ∧
      p.refused ⊆ refused ∧
      ∀ resource value, limitOf (setLimits pm.limits) resource = some value →
        LimitDone p' resource value := by
  refine Leads.bind setrlimit_leads ?_
  rintro _ _ ⟨limits₁, refused₁, rfl, h₁, hcore, -⟩
  refine Leads.bind setrlimit_leads ?_
  rintro _ _ ⟨limits₂, refused₂, rfl, h₂, hcpu, hothers₂⟩
  refine Leads.bind setrlimit_leads ?_
  rintro _ _ ⟨limits₃, refused₃, rfl, h₃, hfsize, hothers₃⟩
  refine Leads.weaken setrlimit_leads ?_
  rintro _ _ ⟨limits₄, refused₄, rfl, h₄, hnproc, hothers₄⟩
  -- what is done stays done, since the later limits are others
  have hkeep {l l' : Rlimits} {r r' : List (Op × Errno)} {resource : Resource} {value : ℕ}
      (hl : limitOf l' resource = limitOf l resource) (hr : r ⊆ r')
      (h : LimitDone { p with limits := l, refused := r } resource value) :
      LimitDone { p with limits := l', refused := r' } resource value :=
    h.imp hl.trans fun ⟨error, herror⟩ => ⟨error, hr herror⟩
  refine ⟨limits₄, refused₄, rfl, List.Subset.trans h₁ (List.Subset.trans h₂ (List.Subset.trans h₃ h₄)),
    fun resource value hvalue => ?_⟩
  cases resource with
  | core =>
    exact hkeep ((hothers₄ _ (by decide)).trans ((hothers₃ _ (by decide)).trans
      (hothers₂ _ (by decide)))) (List.Subset.trans h₂ (List.Subset.trans h₃ h₄)) (hcore value hvalue)
  | cpu =>
    exact hkeep ((hothers₄ _ (by decide)).trans (hothers₃ _ (by decide)))
      (List.Subset.trans h₃ h₄) (hcpu value hvalue)
  | fsize => exact hkeep (hothers₄ _ (by decide)) h₄ (hfsize value hvalue)
  | nproc => exact hnproc value hvalue

/-! ## The program -/

variable (host pm) in
/-- What holds of the process in which a program is started. -/
structure Confined (p : Process) : Prop where
  user : p.user = Ids.all pm.prisoner
  unprivileged : minPrisonerUid < pm.prisoner ∧ pm.prisoner ≤ maxPrisonerUid
  group : p.group = Ids.all pm.prisoner
  root : p.root = host.cfg.jailPath
  cwd : p.cwd = host.cfg.jailPath ++ pm.relativeHomePath
  oldRoot : p.oldRoot = none ∨ p.unlisted = true
  namespaces : host.cfg.useNamespace = true →
    p.namespaces = true ∧ p.ownPids = true ∧ p.privateMounts = true
  terminal : p.terminal = some pm.fdslave
  cgroup : host.cfg.useCgroup = true → InCgroup host pm p
  listening : p.listening = false
  binds : ∀ b ∈ p.binds, KnownBind host pm b
  privateDirs : PrivateDirs host pm p
  noNewPrivs : p.noNewPrivs = true ∨ ∃ error, (.prctl .noNewPrivs, error) ∈ p.refused
  limits : ∀ resource value, limitOf (setLimits pm.limits) resource = some value →
    LimitDone p resource value

variable (host pm) in
/-- The start of the program of the task. -/
structure IsLaunch (launch : Launch) : Prop where
  confined : Confined host pm launch.process
  path : launch.path = fullname host pm
  args : launch.args = [fullname host pm]
  env : launch.env = programEnv host pm

variable (host pm) in
/-- One program has been started. -/
def Launched (calls : Calls Answer) : Prop :=
  ∃ p launch, view host pm calls = ⟨p, [launch], false⟩ ∧ IsLaunch host pm launch

variable (host pm) in
/-- From a process `p` a program does not return: it is barred, or has been started. -/
def Ends (p : Process) (m : Sys α) : Prop :=
  Triple (At host pm p) m (fun _ _ => False)
    fun _ calls => Barred host pm calls ∨ Launched host pm calls

theorem Ends.bind {m : Sys α} {f : α → Sys β} {ψ : α → Process → Prop}
    (hm : Leads host pm p m ψ) (hf : ∀ a p', ψ a p' → Ends host pm p' (f a)) :
    Ends host pm p (m >>= f) := by
  refine Triple.bind (Triple.weaken hm (fun _ h => h) (fun _ _ h => h) fun _ _ h => .inl h) ?_
  exact fun a calls ⟨p', hp', hψ⟩ => hf a p' hψ calls hp'

theorem startProgram_ends (h : Confined host pm p) :
    Ends host pm p (startProgram K host pm) := by
  refine Triple.bind (Q := fun _ calls => Barred host pm calls ∨ Launched host pm calls)
    (Triple.call fun calls a hp => ?_) fun a => ?_
  · cases a with
    | none =>
      refine .inr ⟨p.step ⟨.sys (.execve (fullname host pm) [fullname host pm]
          (programEnv host pm)), none⟩,
        ⟨p, fullname host pm, [fullname host pm], programEnv host pm⟩, ?_, ⟨h, rfl, rfl, rfl⟩⟩
      rw [view_append_singleton, hp]
      rfl
    | some error =>
      -- the call comes back, and `transferExecution` throws
      refine .inl ⟨p.step ⟨.sys (.execve (fullname host pm) [fullname host pm]
          (programEnv host pm)), some error⟩, ?_⟩
      rw [view_append_singleton, hp]
      rfl
  · cases a with
    | none => exact Triple.throw fun _ h => h
    | some error => exact Triple.throw fun _ h => h

theorem wantJobControl_leads :
    Leads host pm p (wantJobControl K host pm) fun _ p' => p' = p := by
  refine Leads.ite (fun _ => Leads.pure rfl) fun _ => Leads.call_bind (fun _ => rfl) ?_ ?_
  · intro result hresult
    cases result with
    | error failure => exact Leaves.throw _
    | ok isRunning => cases hresult
  · intro result hresult
    cases result with
    | error failure => cases hresult
    | ok isRunning => exact Leads.pure rfl

theorem programExists_leads :
    Leads host pm p (programExists K host pm) fun _ p' => p' = p := by
  refine Leads.call_bind (fun _ => rfl) ?_ ?_
  · intro found hfound
    cases found with
    | false => exact Leaves.throw _
    | true => exact absurd hfound (by simp [bars])
  · intro found hfound
    cases found with
    | false => exact absurd hfound (by simp [bars])
    | true => exact Leads.pure rfl

theorem takeTerminal_leads {jobControl : Bool} :
    Leads host pm p (takeTerminal K jobControl) fun _ p' =>
      ∃ refused, p' = { p with refused := refused } ∧ p.refused ⊆ refused := by
  refine Leads.ite (fun _ => Leads.pure ⟨_, rfl, List.Subset.refl _⟩) fun _ => ?_
  refine Leads.call_bind (fun _ => rfl) (fun _ h => by cases h) fun terminal _ => ?_
  cases terminal with
  | false => exact Leads.pure ⟨_, rfl, List.Subset.refl _⟩
  | true =>
    refine Leads.attempt (fun _ => rfl) (fun _ => rfl) fun a => ?_
    cases a with
    | none => exact ⟨_, rfl, List.Subset.refl _⟩
    | some error => exact ⟨_, rfl, List.subset_append_left _ _⟩

/-- The process does not return from `transferExecution`. -/
theorem transferExecution_ends
    (h : ∀ refused, p.refused ⊆ refused →
      Confined host pm { p with cwd := p.root ++ pm.relativeHomePath, refused := refused }) :
    Ends host pm p (transferExecution K host pm) := by
  have hcwd : p.locate pm.relativeHomePath = p.root ++ pm.relativeHomePath :=
    locate_absolute p (List.cons_ne_nil _ _)
  have hchdir : p.perform (.chdir pm.relativeHomePath) =
      { p with cwd := p.root ++ pm.relativeHomePath } := by
    rw [Process.perform, hcwd]
  refine Ends.bind (ψ := fun _ p' => p' = { p with cwd := p.root ++ pm.relativeHomePath })
    (Leads.check (fun _ => rfl) (fun _ => rfl) hchdir) ?_
  rintro _ _ rfl
  refine Ends.bind programExists_leads ?_
  rintro _ _ rfl
  refine Ends.bind wantJobControl_leads ?_
  rintro jobControl _ rfl
  refine Ends.bind (ψ := fun _ p' => ∃ refused, p' = { p with
    cwd := p.root ++ pm.relativeHomePath, refused := refused } ∧ p.refused ⊆ refused)
    (Leads.attempt (fun _ => rfl) (fun _ => rfl) fun a => ?_) ?_
  · cases a with
    | none => exact ⟨_, rfl, List.Subset.refl _⟩
    | some error => exact ⟨_, rfl, List.subset_append_left _ _⟩
  rintro _ _ ⟨refused, rfl, hsub⟩
  refine Ends.bind takeTerminal_leads ?_
  rintro _ _ ⟨refused', rfl, hsub'⟩
  exact startProgram_ends (h refused' (List.Subset.trans hsub hsub'))

/-- A prisoner is never a user of the system. -/
theorem unprivileged (pm : Execution host.cfg.toConfiguration) :
    minPrisonerUid < pm.prisoner ∧ pm.prisoner ≤ maxPrisonerUid := by
  have hprisoner := pm.isPrisoner
  rw [Configuration.isPrisonerUID, Configuration.firstPrisoner, Bool.and_eq_true,
    decide_eq_true_eq, decide_eq_true_eq] at hprisoner
  have hmin := host.cfg.minPrisoner_ge
  have hmax := host.cfg.maxPrisoner_le
  omega

/-- All of it: the process is barred, or the program of the task has been started. -/
theorem isolate_ends : Ends host pm Process.server (isolate K host pm) := by
  refine Ends.bind setupCgroup_leads ?_
  rintro _ p₁ ⟨⟨cgroup, memoryLimit, noCgroup, h₁⟩, hcgroup⟩
  refine Ends.bind (setupNamespaces_leads (by rw [h₁]; rfl)) ?_
  rintro _ p₂ ⟨⟨namespaces, ownPids, privateMounts, h₂⟩, hnamespaces⟩
  refine Ends.bind loginTty_leads ?_
  rintro _ p₃ h₃
  have hroot : p₃.root = [] := by rw [h₃, h₂, h₁]; rfl
  have hold : p₃.oldRoot = none := by rw [h₃, h₂, h₁]; rfl
  have hempty : p₃.binds = [] := by rw [h₃, h₂, h₁]; rfl
  refine Ends.bind (setupFilesystemIsolation_leads (by rw [h₃]; exact Option.some_ne_none _) hroot
    hold) ?_
  rintro _ p₄ ⟨⟨cwd, oldRoot, unlisted, privateMounts', binds, refused, h₄⟩, hgone, hprivate, hbinds,
    hdirs⟩
  refine Ends.bind becomePrisoner_leads ?_
  rintro _ p₅ ⟨noNewPrivs, refused₅, h₅, hsub₅, hasked⟩
  refine Ends.bind applyLimits_leads ?_
  rintro _ p₆ ⟨limits, refused₆, h₆, hsub₆, hlimits⟩
  refine transferExecution_ends fun refused₇ hsub₇ => ?_
  have hlater : refused₅ ⊆ refused₇ := by
    simp only [h₆] at hsub₇
    simp only [h₅] at hsub₆
    exact List.Subset.trans hsub₆ hsub₇
  exact {
    user := by simp only [h₆, h₅]
    unprivileged := unprivileged pm
    group := by simp only [h₆, h₅]
    root := by simp only [h₆, h₅, h₄]
    cwd := by simp only [h₆, h₅, h₄]
    oldRoot := by simpa only [h₆, h₅] using hgone
    namespaces := fun h => by
      obtain ⟨hnew, hpids, hmounts⟩ := hnamespaces h
      have hmounts' := hprivate (by simpa only [h₃] using hmounts)
      simp only [h₆, h₅, h₄, h₃] at hmounts' ⊢
      exact ⟨hnew, hpids, hmounts'⟩
    terminal := by simp only [h₆, h₅, h₄, h₃]
    cgroup := fun h => by simpa only [InCgroup, h₆, h₅, h₄, h₃, h₂] using hcgroup h
    listening := by simp only [h₆, h₅]
    binds := fun b hb => by
      refine (hbinds b (by simpa only [h₆, h₅] using hb)).resolve_left ?_
      rw [hempty]
      exact List.not_mem_nil
    privateDirs := fun hon hjail dir hdir => by
      simp only [h₆, h₅]
      exact (hdirs hon hjail dir hdir).imp_right
        fun h => h.mono (List.Subset.trans hsub₅ hlater)
    noNewPrivs := by
      simp only [h₆, h₅]
      exact hasked.imp_right fun ⟨error, herror⟩ => ⟨error, hlater herror⟩
    limits := fun resource value hvalue => (hlimits resource value hvalue).imp_right
      fun ⟨error, herror⟩ => ⟨error, hsub₇ herror⟩ }

end Rules

section Theorems

variable (K : Kernel) (host : Host) (pm : Execution host.cfg.toConfiguration)

/-- In the end the process has been barred, or the program of the task has been started. -/
theorem executeInJail_cases : Barred host pm (executeInJail K host pm) ∨
    Launched host pm (executeInJail K host pm) := by
  have hisolate : Ends host pm Process.server (isolate K host pm) := isolate_ends
  have hends := hisolate [] rfl
  rw [executeInJail]
  cases hrun : (isolate K host pm).run.run [] with
  | mk result calls =>
    rw [hrun] at hends
    cases result with
    | ok a => exact hends.elim
    | error ending =>
      cases ending with
      | exited => exact hends
      | executed => exact hends
      | failed failure =>
        -- the report of the failure changes nothing
        refine hends.imp (fun ⟨p, hp⟩ => ⟨p, ?_⟩) fun ⟨p, launch, hp, hlaunch⟩ =>
          ⟨p, launch, ?_, hlaunch⟩
        · rw [view_append_singleton, hp]
          rfl
        · rw [view_append_singleton, hp]
          rfl

/-- A process is barred by one of its calls. -/
theorem barred_replay_iff (v : View) (calls : Calls Answer) :
    (replay (View.step host pm) v calls).barred = true ↔ v.barred = true ∨
      ∃ before e after, calls = before ++ e :: after ∧
        bars host pm (replay (View.step host pm) v before).process e = true := by
  induction calls generalizing v with
  | nil => exact ⟨.inl, fun h => h.resolve_right fun ⟨_, _, _, h, _⟩ => by simp at h⟩
  | cons e calls ih =>
    refine (ih (v.step host pm e)).trans ?_
    constructor
    · rintro (h | ⟨before, e', after, rfl, hbars⟩)
      · rw [View.step, Bool.or_eq_true] at h
        exact h.imp_right fun h => ⟨[], e, calls, rfl, h⟩
      · exact .inr ⟨e :: before, e', after, rfl, hbars⟩
    · rintro (h | ⟨before, e', after, hsplit, hbars⟩)
      · exact .inl (by rw [View.step, h, Bool.true_or])
      · cases before with
        | nil =>
          obtain ⟨rfl, rfl⟩ := List.cons.inj hsplit
          refine .inl ?_
          rw [View.step, Bool.or_eq_true]
          exact .inr hbars
        | cons e'' before =>
          obtain ⟨rfl, rfl⟩ := List.cons.inj hsplit
          exact .inr ⟨before, e', after, rfl, hbars⟩

/-- A program is started unless an answer bars it, and these are the answers that do. -/
theorem launches_iff :
    (view host pm (executeInJail K host pm)).launches ≠ [] ↔
      ∀ before e after, executeInJail K host pm = before ++ e :: after →
        bars host pm (view host pm before).process e = false := by
  have hbarred := barred_replay_iff host pm ⟨Process.server, [], false⟩ (executeInJail K host pm)
  have hiff : (view host pm (executeInJail K host pm)).launches ≠ [] ↔
      ¬ (view host pm (executeInJail K host pm)).barred = true := by
    rcases executeInJail_cases K host pm with ⟨p, hp⟩ | ⟨p, launch, hp, -⟩
    · rw [hp]
      exact iff_of_false (fun h => h rfl) fun h => h rfl
    · rw [hp]
      exact iff_of_true (List.cons_ne_nil _ _) Bool.false_ne_true
  rw [hiff, view, hbarred]
  simp only [Bool.false_eq_true, false_or, not_exists, not_and, Bool.not_eq_true]
  rfl

end Theorems

/-! ## The old root -/

/-- A kernel that grants everything, and that lists some mounts. -/
def permissive (mountinfo : Bytes) : Kernel where
  answer
    | _, .sys _ => none
    | _, .isAvailable => true
    | _, .cgroup _ _ => (none : Option Failure)
    | _, .fork => (0 : ℤ)
    | _, .mountinfo => mountinfo
    | _, .stat _ => (none : Option ℕ)
    | _, .fileExists _ => true
    | _, .getuid => (10001 : ℕ)
    | _, .geteuid => (10001 : ℕ)
    | _, .closeSockets => ()
    | _, .getState => (.ok true : Except Failure Bool)
    | _, .isatty => true
    | _, .printf _ => ()
    | _, .listProcesses => (none : Option (List Task.ProcEntry))
    | _, .readStatus _ => (.ok [] : Except Failure Bytes)
    | _, .getpid => (1 : ℤ)
    | _, .kill _ _ => ()
    | _, .waitpid pid => (pid : ℤ)
    | _, .markCleaning => (.ok () : Except Failure Unit)
    | _, .processName _ => (.ok () : Except Failure Unit)
    | _, .cleanPrisonerFiles => (.ok () : Except Failure Unit)
  sort := SortBySize.stable
  strerror _ := []

/-- A server with a writable directory in its jail. -/
def hostWithTmp : Host where
  cfg := Configuration.serverDefault
  inContainer := false
  writableDirsInJail := [ascii "/tmp"]
  writableDirs_absolute := List.forall_mem_singleton.mpr ⟨ascii "tmp", List.cons_ne_nil _ _, rfl⟩

/-- The execution of a program for one of its prisoners. -/
def executionWithTmp : Execution hostWithTmp.cfg.toConfiguration where
  prisoner := 10001
  limits := ⟨10, 0, 2 ^ 20, 100⟩
  interactive := true
  lang := ascii "en"
  vncPassword := ascii "12345678"
  name := ascii "vpl_execution"
  fdslave := 5
  name_noNul := by decide
  isPrisoner := rfl

/-- The old root in the list of mounts of the prisoner. -/
def listedRoot : Bytes :=
  ascii "36 35 98:0 / /.oldroot_p10001 rw\n"

/-- Where `/proc` is not mounted in the jail, the list of mounts is empty, and the old root stays. -/
example : (view hostWithTmp executionWithTmp (executeInJail (permissive []) hostWithTmp
    executionWithTmp)).launches.map (·.process.oldRoot) =
      [some (ascii "/.oldroot_p10001")] := by
  decide +kernel

example : (view hostWithTmp executionWithTmp (executeInJail (permissive listedRoot)
    hostWithTmp executionWithTmp)).launches.map (·.process.oldRoot) = [none] := by
  decide +kernel

end VplJail.Jail.Isolation
