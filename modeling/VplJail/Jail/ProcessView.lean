import VplJail.Jail.Isolation

/-!
# What becomes of a process

What the calls of `executeInJail` make of a process, as the manual of the kernel has it, and rules for
the programs that make them: `Leads` says that a program comes from a process to another one, or that
an answer bars it from starting anything. The first stages follow: control group, namespaces and
terminal.
-/

namespace VplJail.Jail.Isolation

open Util

/-! ## The process -/

/-- The limit of a resource. -/
def limitOf (limits : Rlimits) : Resource → Option ℕ
  | .core => limits.core
  | .cpu => limits.cpu
  | .fsize => limits.fsize
  | .nproc => limits.nproc

/-- Real, effective and saved identifiers. -/
structure Ids where
  real : ℕ
  effective : ℕ
  saved : ℕ
deriving DecidableEq, Repr

/-- All three identifiers at once. -/
def Ids.all (id : ℕ) : Ids :=
  ⟨id, id, id⟩

/-- What the kernel keeps of a process. Places are paths of the host, where `[]` is its root; a
symbolic link in them counts as what it leads to. `oldRoot` is where the process still sees the root
of the host, and `unlisted` says that the list of mounts had nothing at this path when it was read.
`refused` are the calls that have failed. -/
structure Process where
  user : Ids
  group : Ids
  root : Bytes
  cwd : Bytes
  oldRoot : Option Bytes
  unlisted : Bool
  namespaces : Bool
  ownPids : Bool
  privateMounts : Bool
  terminal : Option ℤ
  cgroup : Option Bytes
  memoryLimit : Option ℤ
  noCgroup : Bool
  listening : Bool
  noNewPrivs : Bool
  binds : List (Bytes × Bytes)
  limits : Rlimits
  refused : List (Op × Errno)
deriving DecidableEq, Repr

/-- The child of the server that is to become the program. -/
def Process.server : Process where
  user := Ids.all 0
  group := Ids.all 0
  root := []
  cwd := []
  oldRoot := none
  unlisted := false
  namespaces := false
  ownPids := false
  privateMounts := false
  terminal := none
  cgroup := none
  memoryLimit := none
  noCgroup := false
  listening := true
  noNewPrivs := false
  binds := []
  limits := ⟨none, none, none, none⟩
  refused := []

namespace Process

variable (p : Process)

/-- The place of a path. -/
def locate (path : Bytes) : Bytes :=
  if path = ascii "." then p.cwd
  else if path = ascii "/" then p.root
  else if path.head? = some 47 then p.root ++ path
  else p.cwd ++ ascii "/" ++ path

/-- A limit of a resource. -/
def setLimit (value : ℕ) : Resource → Process
  | .core => { p with limits := { p.limits with core := some value } }
  | .cpu => { p with limits := { p.limits with cpu := some value } }
  | .fsize => { p with limits := { p.limits with fsize := some value } }
  | .nproc => { p with limits := { p.limits with nproc := some value } }

/-- What is no longer mounted. -/
def unmounted (target : Bytes) : Process :=
  if p.oldRoot = some target then { p with oldRoot := none } else p

/-- A system call that succeeds. -/
def perform : Op → Process
  | .unshare => { p with namespaces := true }
  | .mount none target _ flags =>
      if target = ascii "/" ∧ flags = [.recursive, .makePrivate] then
        { p with privateMounts := true }
      else p
  | .mount (some source) target _ flags =>
      if .bind ∈ flags then { p with binds := p.binds ++ [(p.locate target, p.locate source)] } else p
  | .umount2 target _ => p.unmounted target
  | .prctl .noNewPrivs => { p with noNewPrivs := true }
  | .loginTty fd => { p with terminal := some fd }
  | .chdir path => { p with cwd := p.locate path }
  | .chroot path => { p with root := p.locate path }
  | .pivotRoot newRoot putOld =>
      { p with
        root := p.locate newRoot
        oldRoot := some ((p.locate putOld).drop (p.locate newRoot).length) }
  | .setresgid gid => { p with group := Ids.all gid }
  | .setresuid uid => { p with user := Ids.all uid }
  | .setrlimit resource value => p.setLimit value resource
  | _ => p

/-- A system call that fails, which tells of `umount2` that there may be nothing to unmount. -/
def refuse (op : Op) (error : Errno) : Process :=
  let p := match op, error with
    | .umount2 target _, .EINVAL => p.unmounted target
    | .umount2 target _, .ENOENT => p.unmounted target
    | _, _ => p
  { p with refused := p.refused ++ [(op, error)] }

/-- The effect of a call. -/
def step : CallEvent Answer → Process
  | ⟨.sys op, none⟩ => p.perform op
  | ⟨.sys op, some error⟩ => p.refuse op error
  | ⟨.isAvailable, available⟩ => { p with noCgroup := !(available : Bool) }
  | ⟨.cgroup name .setMemoryProcs, (none : Option Failure)⟩ => { p with cgroup := some name }
  | ⟨.cgroup _ (.setMemoryLimitInBytes bytes), (none : Option Failure)⟩ =>
      { p with memoryLimit := some bytes }
  | ⟨.fork, _⟩ => { p with ownPids := p.namespaces }
  | ⟨.mountinfo, content⟩ =>
      { p with unlisted := match p.oldRoot with
          | none => p.unlisted
          | some path => !(listMountPoints (content : Bytes)).contains path }
  | ⟨.closeSockets, _⟩ => { p with listening := false }
  | _ => p

end Process

/-- The program that is started, with its arguments and environment. -/
structure Launch where
  process : Process
  path : Bytes
  args : List Bytes
  env : List Bytes
deriving DecidableEq, Repr

section View

variable (host : Host) (pm : Execution host.cfg.toConfiguration)

/-- A failure of a system call after which the program is not started. -/
def Process.bars (p : Process) (error : Errno) : Op → Bool
  | .unshare => true
  | .mount none target _ _ => decide (target = ascii "/") && p.terminal.isNone
  | .umount2 _ detach => !detach && decide (error ≠ .EINVAL) && decide (error ≠ .ENOENT)
  | .loginTty _ => true
  | .chdir _ => true
  | .chroot _ => true
  | .setresgid _ => true
  | .setresuid _ => true
  | .execve _ _ _ => true
  | _ => false

/-- An answer after which the program is not started. -/
def bars (p : Process) : CallEvent Answer → Bool
  | ⟨.sys op, some error⟩ => p.bars error op
  | ⟨.isAvailable, available⟩ => !(available : Bool) && !host.inContainer
  | ⟨.cgroup _ _, failure⟩ => Option.isSome (α := Failure) failure
  | ⟨.fork, pid⟩ => decide ((show ℤ from pid) ≠ 0)
  | ⟨.getuid, uid⟩ => decide ((show ℕ from uid) = 0)
  | ⟨.geteuid, uid⟩ => decide ((show ℕ from uid) = 0)
  | ⟨.fileExists path, found⟩ => decide (path = fullname host pm) && !(found : Bool)
  | ⟨.getState, result⟩ => !Except.isOk (ε := Failure) (α := Bool) result
  | _ => false

/-- The process, the programs that it has been made to start, and whether an answer bars it. -/
structure View where
  process : Process
  launches : List Launch
  barred : Bool

/-- The programs that a call starts. An `execve` that fails comes back, and has started none. -/
def launchesOf (p : Process) : CallEvent Answer → List Launch
  | ⟨.sys (.execve path args env), none⟩ => [⟨p, path, args, env⟩]
  | _ => []

/-- The effect of a call on all this. -/
def View.step (v : View) (e : CallEvent Answer) : View where
  process := v.process.step e
  launches := v.launches ++ launchesOf v.process e
  barred := v.barred || bars host pm v.process e

/-- What some calls come to. -/
def view (calls : Calls Answer) : View :=
  replay (View.step host pm) ⟨Process.server, [], false⟩ calls

end View

/-! ## Rules -/

section Rules

variable {K : Kernel} {host : Host} {pm : Execution host.cfg.toConfiguration}
variable {α β : Type} {p : Process}

variable (host pm) in
/-- Nothing has been started, and nothing will be. -/
def Barred (calls : Calls Answer) : Prop :=
  ∃ p, view host pm calls = ⟨p, [], true⟩

variable (host pm) in
/-- The process goes on, and nothing has been started. -/
def At (p : Process) (calls : Calls Answer) : Prop :=
  view host pm calls = ⟨p, [], false⟩

variable (host pm) in
/-- From a process `p` a program comes to one with `ψ`, or is barred. -/
def Leads (p : Process) (m : Sys α) (ψ : α → Process → Prop) : Prop :=
  Triple (At host pm p) m (fun a calls => ∃ p', At host pm p' calls ∧ ψ a p')
    fun _ => Barred host pm

variable (host pm) in
/-- A program that is barred leaves. -/
def Leaves (m : Sys α) : Prop :=
  Triple (Barred host pm) m (fun _ _ => False) fun _ => Barred host pm

theorem view_append_singleton (calls : Calls Answer) (e : CallEvent Answer) :
    view host pm (calls ++ [e]) = (view host pm calls).step host pm e :=
  replay_append_singleton _ _ _ _

theorem view_append (calls calls' : Calls Answer) :
    view host pm (calls ++ calls') = replay (View.step host pm) (view host pm calls) calls' :=
  List.foldl_append

theorem Leaves.throw (e : Ending) : Leaves host pm (throw e : Sys α) :=
  Triple.throw fun _ h => h

/-- A process that is barred stays so. -/
theorem Leaves.attempt_bind {op : Op} {m : Sys α} (hop : ∀ p a, launchesOf p ⟨.sys op, a⟩ = [])
    (h : Leaves host pm m) : Leaves host pm (attempt K op >>= fun _ => m) := by
  refine Triple.bind (Q := fun _ => Barred host pm) ?_ fun _ => h
  refine Triple.bind (Q := fun _ => Barred host pm) (Triple.call ?_) fun _ => Triple.pure fun _ h => h
  rintro calls a ⟨p, hp⟩
  refine ⟨p.step ⟨.sys op, a⟩, ?_⟩
  rw [view_append_singleton, hp, View.step, hop]
  rfl

namespace Leads

variable {ψ : α → Process → Prop} {χ : β → Process → Prop}

theorem pure {a : α} (h : ψ a p) : Leads host pm p (Pure.pure a) ψ :=
  Triple.pure fun _ hp => ⟨p, hp, h⟩

theorem bind {m : Sys α} {f : α → Sys β} (hm : Leads host pm p m ψ)
    (hf : ∀ a p', ψ a p' → Leads host pm p' (f a) χ) : Leads host pm p (m >>= f) χ :=
  Triple.bind hm fun a calls ⟨p', hp', hψ⟩ => hf a p' hψ calls hp'

theorem weaken {m : Sys α} {ψ' : α → Process → Prop} (h : Leads host pm p m ψ)
    (hψ : ∀ a p', ψ a p' → ψ' a p') : Leads host pm p m ψ' :=
  Triple.weaken h (fun _ hs => hs) (fun a _ ⟨p', hp', h⟩ => ⟨p', hp', hψ a p' h⟩) fun _ _ hE => hE

theorem ite {c : Prop} [Decidable c] {m m' : Sys α} (ht : c → Leads host pm p m ψ)
    (hf : ¬ c → Leads host pm p m' ψ) : Leads host pm p (if c then m else m') ψ :=
  Triple.ite ht hf

/-- A call and what follows: after an answer that bars the process it leaves. -/
theorem call_bind {c : Call} {f : Answer c → Sys α} (hc : ∀ a, launchesOf p ⟨c, a⟩ = [])
    (hstop : ∀ a, bars host pm p ⟨c, a⟩ = true → Leaves host pm (f a))
    (hgo : ∀ a, bars host pm p ⟨c, a⟩ = false → Leads host pm (p.step ⟨c, a⟩) (f a) ψ) :
    Leads host pm p (call K.answer c >>= f) ψ := by
  refine Triple.bind (Q := fun a calls =>
    view host pm calls = ⟨p.step ⟨c, a⟩, [], bars host pm p ⟨c, a⟩⟩) (Triple.call ?_) fun a => ?_
  · intro calls a hp
    rw [view_append_singleton, hp, View.step, hc]
    rfl
  · cases hbars : bars host pm p ⟨c, a⟩ with
    | false => exact hgo a hbars
    | true =>
      refine (hstop a hbars).weaken (fun calls h => ⟨_, h⟩) (fun _ _ h => h.elim) fun _ _ h => h

/-- A call none of whose answers bars the process. -/
theorem call {c : Call} {ψ : Answer c → Process → Prop} (hc : ∀ a, launchesOf p ⟨c, a⟩ = [])
    (hbars : ∀ a, bars host pm p ⟨c, a⟩ = false) (h : ∀ a, ψ a (p.step ⟨c, a⟩)) :
    Leads host pm p (call K.answer c) ψ := by
  refine Triple.call fun calls a hp => ⟨p.step ⟨c, a⟩, ?_, h a⟩
  rw [At, view_append_singleton, hp, View.step, hc, hbars]
  rfl

/-- A system call whose failure does not matter. -/
theorem attempt {op : Op} {ψ : Unit → Process → Prop} (hop : ∀ a, launchesOf p ⟨.sys op, a⟩ = [])
    (hbars : ∀ error, p.bars error op = false) (h : ∀ a, ψ () (p.step ⟨.sys op, a⟩)) :
    Leads host pm p (attempt K op) ψ := by
  refine bind (ψ := fun a p' => p' = p.step ⟨.sys op, a⟩) (call hop ?_ fun a => rfl) ?_
  · intro a
    cases a with
    | none => rfl
    | some error => exact hbars error
  · rintro a _ rfl
    exact pure (h a)

theorem attempt_bind {op : Op} {m : Sys α} (hop : ∀ a, launchesOf p ⟨.sys op, a⟩ = [])
    (hbars : ∀ error, p.bars error op = false)
    (h : ∀ a, Leads host pm (p.step ⟨.sys op, a⟩) m ψ) :
    Leads host pm p (Isolation.attempt K op >>= fun _ => m) ψ := by
  refine bind (ψ := fun _ p' => ∃ a, p' = p.step ⟨.sys op, a⟩)
    (attempt hop hbars fun a => ⟨a, rfl⟩) ?_
  rintro _ _ ⟨a, rfl⟩
  exact h a

/-- A system call that has to succeed. -/
theorem check {op : Op} {failure : Failure} {ψ : Unit → Process → Prop}
    (hop : ∀ a, launchesOf p ⟨.sys op, a⟩ = []) (hbars : ∀ error, p.bars error op = true)
    (h : ψ () (p.perform op)) : Leads host pm p (check K op failure) ψ := by
  refine call_bind hop ?_ ?_
  · intro a ha
    cases a with
    | none => cases ha
    | some error => exact Leaves.throw _
  · intro a ha
    cases a with
    | none => exact pure h
    | some error => exact absurd (hbars error) (by rw [show p.bars error op = false from ha]; decide)

theorem check_bind {op : Op} {failure : Failure} {m : Sys α}
    (hop : ∀ a, launchesOf p ⟨.sys op, a⟩ = []) (hbars : ∀ error, p.bars error op = true)
    (h : Leads host pm (p.perform op) m ψ) :
    Leads host pm p (Isolation.check K op failure >>= fun _ => m) ψ := by
  refine bind (ψ := fun _ p' => p' = p.perform op) (check hop hbars rfl) ?_
  rintro _ _ rfl
  exact h

end Leads

/-! ## Control group, namespaces and terminal -/

/-- A member of the control group has to succeed. -/
theorem cgroup_leads {op : CgroupOp} {ψ : Unit → Process → Prop}
    (h : ψ () (p.step ⟨.cgroup pm.prisonerName op, (none : Option Failure)⟩)) :
    Leads host pm p (cgroup K host pm op) ψ := by
  refine Leads.call_bind (fun _ => rfl) ?_ ?_
  · intro a ha
    cases a with
    | none => cases ha
    | some failure => exact Leaves.throw _
  · intro a ha
    cases a with
    | none => exact Leads.pure h
    | some failure => cases ha

theorem cgroup_bind {op : CgroupOp} {m : Sys α} {ψ : α → Process → Prop}
    (h : Leads host pm (p.step ⟨.cgroup pm.prisonerName op, (none : Option Failure)⟩) m ψ) :
    Leads host pm p (cgroup K host pm op >>= fun _ => m) ψ := by
  refine Leads.bind (cgroup_leads (ψ := fun _ p' => p' = p.step ⟨.cgroup pm.prisonerName op, none⟩)
    rfl) ?_
  rintro _ _ rfl
  exact h

variable (host pm) in
/-- The control group of the prisoner holds the process, with its limit of memory, unless the server
is in a container without control groups. -/
def InCgroup (p : Process) : Prop :=
  (p.cgroup = some pm.prisonerName ∧
      (0 < pm.limits.maxmemory → p.memoryLimit = some pm.limits.maxmemory)) ∨
    (host.inContainer = true ∧ p.noCgroup = true)

theorem setupCgroup_leads : Leads host pm p (setupCgroup K host pm) fun _ p' =>
    (∃ cgroup memoryLimit noCgroup, p' = { p with
      cgroup := cgroup, memoryLimit := memoryLimit, noCgroup := noCgroup }) ∧
    (host.cfg.useCgroup = true → InCgroup host pm p') := by
  refine Leads.ite (fun hoff => Leads.pure ?_) fun hon => Leads.call_bind (fun _ => rfl) ?_ ?_
  · exact ⟨⟨_, _, _, rfl⟩, fun h => absurd (hoff.symm.trans h) Bool.false_ne_true⟩
  · intro available hstop
    cases available with
    | true => cases hstop
    | false =>
      have hcontainer : host.inContainer = false := by simpa [bars] using hstop
      rw [if_neg (by simp [hcontainer]), if_pos rfl]
      exact Leaves.throw _
  · intro available hgo
    cases available with
    | false =>
      have hcontainer : host.inContainer = true := by simpa [bars] using hgo
      rw [if_pos ⟨hcontainer, rfl⟩]
      exact Leads.pure ⟨⟨_, _, _, rfl⟩, fun _ => .inr ⟨hcontainer, rfl⟩⟩
    | true =>
      rw [if_neg (by simp), if_neg (by simp)]
      refine cgroup_bind (cgroup_bind (cgroup_bind (cgroup_bind ?_)))
      refine Leads.ite (fun hmemory => ?_) fun hmemory => Leads.pure ?_
      · exact cgroup_leads ⟨⟨_, _, _, rfl⟩, fun _ => .inl ⟨rfl, fun _ => rfl⟩⟩
      · exact ⟨⟨_, _, _, rfl⟩, fun _ => .inl ⟨rfl, fun h => absurd h hmemory⟩⟩

/-- The namespaces, where they are asked for. The process is the child. -/
theorem setupNamespaces_leads (hterminal : p.terminal = none) :
    Leads host pm p (setupNamespaces K host) fun _ p' =>
      (∃ namespaces ownPids privateMounts, p' = { p with
        namespaces := namespaces, ownPids := ownPids, privateMounts := privateMounts }) ∧
      (host.cfg.useNamespace = true →
        p'.namespaces = true ∧ p'.ownPids = true ∧ p'.privateMounts = true) := by
  refine Leads.ite (fun hoff => Leads.pure ?_) fun hon => ?_
  · exact ⟨⟨_, _, _, rfl⟩, fun h => absurd (hoff.symm.trans h) Bool.false_ne_true⟩
  · refine Leads.check_bind (fun _ => rfl) (fun _ => rfl) ?_
    refine Leads.check_bind (fun _ => rfl) (fun _ => by simp [Process.bars, Process.perform, hterminal])
      (Leads.call_bind (fun _ => rfl) ?_ ?_)
    · intro pid hpid
      have hne : (show ℤ from pid) ≠ 0 := by simpa [bars] using hpid
      split_ifs with hneg hpos
      · exact Leaves.throw _
      · exact Leaves.attempt_bind (fun _ _ => rfl) (Leaves.attempt_bind (fun _ _ => rfl)
          (Leaves.attempt_bind (fun _ _ => rfl) (Leaves.throw _)))
      · exact absurd (le_antisymm (not_lt.mp hpos) (not_lt.mp hneg)) hne
    · intro pid hpid
      have hzero : (show ℤ from pid) = 0 := by simpa [bars] using hpid
      rw [if_neg (by rw [show pid = (0 : ℤ) from hzero]; decide),
        if_neg (by rw [show pid = (0 : ℤ) from hzero]; decide)]
      exact Leads.pure ⟨⟨_, _, _, rfl⟩, fun _ => ⟨rfl, rfl, rfl⟩⟩

theorem loginTty_leads : Leads host pm p (loginTty K host pm) fun _ p' =>
    p' = { p with terminal := some pm.fdslave } := by
  refine Leads.call_bind (fun _ => rfl) ?_ ?_
  · intro a ha
    cases a with
    | none => cases ha
    | some error => exact Leaves.attempt_bind (fun _ _ => rfl) (Leaves.throw _)
  · intro a ha
    cases a with
    | none => exact Leads.pure rfl
    | some error => cases ha

end Rules

end VplJail.Jail.Isolation
