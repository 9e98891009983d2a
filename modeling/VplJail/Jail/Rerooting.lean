import VplJail.Jail.ProcessView

/-!
# The change of the root

`setupFilesystemIsolation` brings a process into the jail, by `pivot_root` or by `chroot`. The old root
is unmounted if the list of mounts has it, and each writable directory of the jail becomes a private
one unless the kernel refuses (`setupFilesystemIsolation_leads`).
-/

namespace VplJail.Jail.Isolation

open Util

section Rules

variable {K : Kernel} {host : Host} {pm : Execution host.cfg.toConfiguration}
variable {α β : Type} {p : Process}

/-! ## The old root -/

/-- An attempt to unmount that ends in an exception. -/
def isFatal : Attempt → Bool
  | (_, some (.other _)) => true
  | _ => false

/-- Unmounting takes away the old root if it is at this path. -/
theorem unmounted_eq (p : Process) (target : Bytes) : ∃ oldRoot,
    p.unmounted target = { p with oldRoot := oldRoot } ∧
      (oldRoot = none ∨ oldRoot = p.oldRoot ∧ some target ≠ p.oldRoot) := by
  unfold Process.unmounted
  split_ifs with h
  · exact ⟨none, rfl, .inl rfl⟩
  · exact ⟨p.oldRoot, rfl, .inr ⟨rfl, fun heq => h heq.symm⟩⟩

variable (host pm) in
/-- The old root goes with the first attempt on it that is not fatal. -/
theorem replay_attempts (attempts : List Attempt) (v : View) :
    ∃ oldRoot refused, replay (View.step host pm) v (attempts.map unmountEvent) =
        ⟨{ v.process with oldRoot := oldRoot, refused := v.process.refused ++ refused }, v.launches,
          v.barred || attempts.any isFatal⟩ ∧
      (oldRoot = none ∨ oldRoot = v.process.oldRoot ∧
        ∀ a ∈ attempts, some a.1 = v.process.oldRoot → isFatal a = true) := by
  induction attempts generalizing v with
  | nil =>
    refine ⟨v.process.oldRoot, [], ?_, .inr ⟨rfl, fun a ha => absurd ha List.not_mem_nil⟩⟩
    simp [replay]
  | cons a attempts ih =>
    obtain ⟨target, result⟩ := a
    -- the step of this attempt
    have hstep : ∃ oldRoot refused, v.step host pm (unmountEvent (target, result)) =
        ⟨{ v.process with oldRoot := oldRoot, refused := v.process.refused ++ refused }, v.launches,
          v.barred || isFatal (target, result)⟩ ∧
        (oldRoot = none ∨ oldRoot = v.process.oldRoot ∧
          (some target = v.process.oldRoot → isFatal (target, result) = true)) := by
      obtain ⟨oldRoot, hunmounted, hgone⟩ := unmounted_eq v.process target
      have hgone' (c : Prop) : oldRoot = none ∨ oldRoot = v.process.oldRoot ∧
          (some target = v.process.oldRoot → c) :=
        hgone.imp_right (And.imp_right fun hne heq => absurd heq hne)
      rcases result with _ | _ | _ | code
      · exact ⟨oldRoot, [], by simp [View.step, unmountEvent, Process.step, Process.perform,
          hunmounted, launchesOf, bars, isFatal], hgone' _⟩
      · exact ⟨oldRoot, [(.umount2 target false, .EINVAL)], by simp [View.step, unmountEvent,
          Process.step, Process.refuse, hunmounted, launchesOf, bars, Process.bars, isFatal],
          hgone' _⟩
      · exact ⟨oldRoot, [(.umount2 target false, .ENOENT)], by simp [View.step, unmountEvent,
          Process.step, Process.refuse, hunmounted, launchesOf, bars, Process.bars, isFatal],
          hgone' _⟩
      · exact ⟨v.process.oldRoot, [(.umount2 target false, .other code)], by simp [View.step,
          unmountEvent, Process.step, Process.refuse, launchesOf, bars, Process.bars, isFatal],
          .inr ⟨rfl, fun _ => rfl⟩⟩
    obtain ⟨oldRoot, refused, hv, hgone⟩ := hstep
    obtain ⟨oldRoot', refused', hrest, hgone'⟩ := ih (v.step host pm (unmountEvent (target, result)))
    refine ⟨oldRoot', refused ++ refused', ?_, ?_⟩
    · rw [List.map_cons, replay, List.foldl_cons]
      exact hrest.trans (by simp [hv, Bool.or_assoc])
    · simp only [hv] at hgone'
      rcases hgone' with hnone | ⟨hsame, hfatal⟩
      · exact .inl hnone
      · rcases hgone with hnone | ⟨hsame', hfatal'⟩
        · exact .inl (hsame.trans hnone)
        · refine .inr ⟨hsame.trans hsame', List.forall_mem_cons.mpr ⟨hfatal', fun a ha h => ?_⟩⟩
          exact hfatal a ha (h.trans hsame'.symm)

/-- The targets are unmounted, or the exception is this one. -/
theorem unmountTargets_result (umount2 : List Attempt → Bytes → Option Errno) (done : List Attempt)
    (targets : List Bytes) : (unmountTargets umount2 done targets).2 = .ok () ∨
      (unmountTargets umount2 done targets).2 = .error unmountFailed := by
  induction targets generalizing done with
  | nil => exact .inl rfl
  | cons mp targets ih =>
    rw [unmountTargets]
    split
    · exact .inr rfl
    · exact ih _

/-- An attempt is fatal where its error is none of the two. -/
theorem any_isFatal_iff (attempts : List Attempt) :
    attempts.any isFatal = true ↔ ∃ a ∈ attempts, ∃ code, a.2 = some (.other code) := by
  rw [List.any_eq_true]
  refine exists_congr fun a => and_congr_right fun _ => ?_
  obtain ⟨target, result⟩ := a
  rcases result with _ | _ | _ | code <;> simp [isFatal]

/-- What comes of unmounting a tree: an exception for a fatal attempt, and else an attempt on the path
if it is listed. -/
theorem unmountMountTreeOrThrow_spec (sort : SortBySize)
    (umount2 : List Attempt → Bytes → Option Errno) (content : Bytes) {path : Bytes}
    (hpath : (0 : UInt8) ∉ path) :
    ((unmountMountTreeOrThrow sort umount2 content path).2 = .ok () ∧
        (unmountMountTreeOrThrow sort umount2 content path).1.any isFatal = false ∧
        (path ∈ listMountPoints content →
          ∃ a ∈ (unmountMountTreeOrThrow sort umount2 content path).1, a.1 = path)) ∨
      ((unmountMountTreeOrThrow sort umount2 content path).2 = .error unmountFailed ∧
        (unmountMountTreeOrThrow sort umount2 content path).1.any isFatal = true) := by
  unfold unmountMountTreeOrThrow
  dsimp only
  obtain ⟨attempts, hattempts, -, hok, hfatal⟩ := unmountTargets_spec umount2 []
    (sort.sort ((listMountPoints content).filter (isPathUnderPrefix · path)))
  rw [List.nil_append] at hattempts
  rw [← any_isFatal_iff] at hfatal
  rw [hattempts]
  rcases unmountTargets_result umount2 []
    (sort.sort ((listMountPoints content).filter (isPathUnderPrefix · path))) with hr | hr
  · refine .inl ⟨hr, ?_, fun hlisted => ?_⟩
    · rw [Bool.eq_false_iff, Ne, hfatal, hr]
      exact fun h => by cases h
    · have hunder : isPathUnderPrefix path path = true := if_pos rfl
      have htarget : path ∈ attempts.map Prod.fst := by
        rw [hok hr, List.mem_map]
        refine ⟨path, ?_, cstr_eq_self hpath⟩
        exact (sort.perm _).mem_iff.mpr (List.mem_filter.mpr ⟨hlisted, hunder⟩)
      obtain ⟨a, ha, hfst⟩ := List.mem_map.mp htarget
      exact ⟨a, ha, hfst⟩
  · exact .inr ⟨hr, hfatal.mpr hr⟩

/-- The old root is unmounted if it is listed. -/
theorem unmountTree_leads {path : Bytes} (hpath : (0 : UInt8) ∉ path)
    (hold : p.oldRoot = some path) : Leads host pm p (unmountTree K path) fun _ p' =>
      ∃ oldRoot unlisted refused, p' = { p with
        oldRoot := oldRoot, unlisted := unlisted, refused := p.refused ++ refused } ∧
        (oldRoot = none ∨ unlisted = true) := by
  refine Leads.call_bind (fun _ => rfl) (fun _ h => by cases h) fun content _ => ?_
  have hlist : p.step ⟨.mountinfo, content⟩ =
      { p with unlisted := !(listMountPoints content).contains path } := by
    rw [Process.step, hold]
  rw [hlist]
  refine Triple.bind_get fun calls hcalls => ?_
  have hspec := unmountMountTreeOrThrow_spec K.sort
    (fun done target => K.answer (calls ++ done.map unmountEvent) (.sys (.umount2 target false)))
    content hpath
  generalize unmountMountTreeOrThrow K.sort (fun done target =>
    K.answer (calls ++ done.map unmountEvent) (.sys (.umount2 target false))) content path = r
    at hspec ⊢
  obtain ⟨done, result⟩ := r
  -- what the attempts come to
  obtain ⟨oldRoot, refused, hreplay, hgone⟩ := replay_attempts host pm done
    ⟨{ p with unlisted := !(listMountPoints content).contains path }, [], false⟩
  have hview : view host pm (calls ++ done.map unmountEvent) =
      ⟨{ p with
          oldRoot := oldRoot
          unlisted := !(listMountPoints content).contains path
          refused := p.refused ++ refused }, [], done.any isFatal⟩ :=
    (view_append _ _).trans ((congrArg (replay _ · _) hcalls).trans hreplay)
  refine Triple.bind (Q := fun _ calls' => calls' = calls ++ done.map unmountEvent)
    (Triple.set fun s hs => rfl) fun _ => ?_
  rcases hspec with ⟨rfl, hfatal, hlisted⟩ | ⟨rfl, hfatal⟩
  · refine Triple.pure ?_
    rintro _ rfl
    refine ⟨_, by rw [At, hview, hfatal], oldRoot, _, refused, rfl, ?_⟩
    · rcases hgone with hnone | ⟨-, hattempts⟩
      · exact .inl hnone
      · -- an attempt on the old root has not been fatal, so it is not listed
        refine .inr ?_
        rw [Bool.not_eq_true', Bool.eq_false_iff, Ne, List.contains_iff_mem]
        intro hmem
        obtain ⟨a, ha, hpath⟩ := hlisted hmem
        have hall := hattempts a ha (by rw [hpath]; exact hold.symm)
        exact absurd (List.any_eq_true.mpr ⟨a, ha, hall⟩) (by rw [hfatal]; exact Bool.false_ne_true)
  · refine Triple.throw ?_
    rintro _ rfl
    exact ⟨_, by rw [hview, hfatal]⟩

/-! ## The root -/

/-- A system call without effect, except that it may be refused. -/
theorem ignore_bind {op : Op} {m : Sys α} {ψ : α → Process → Prop}
    (hop : ∀ a, launchesOf p ⟨.sys op, a⟩ = []) (hbars : ∀ error, p.bars error op = false)
    (hperform : p.perform op = p)
    (hrefuse : ∀ error, p.refuse op error = { p with refused := p.refused ++ [(op, error)] })
    (h : ∀ refused, p.refused ⊆ refused → Leads host pm { p with refused := refused } m ψ) :
    Leads host pm p (attempt K op >>= fun _ => m) ψ := by
  refine Leads.attempt_bind hop hbars fun a => ?_
  cases a with
  | none =>
    rw [Process.step, hperform]
    exact h p.refused (List.Subset.refl _)
  | some error =>
    rw [Process.step, hrefuse]
    exact h _ (List.subset_append_left _ _)

/-- The mounts are made private, or this is refused. -/
theorem private_bind {m : Sys α} {ψ : α → Process → Prop} (hterminal : p.terminal ≠ none)
    (h : ∀ privateMounts refused, (p.privateMounts = true → privateMounts = true) →
      p.refused ⊆ refused →
      Leads host pm { p with privateMounts := privateMounts, refused := refused } m ψ) :
    Leads host pm p
      (attempt K (.mount none (ascii "/") none [.recursive, .makePrivate]) >>= fun _ => m) ψ := by
  refine Leads.attempt_bind (fun _ => rfl) (fun error => ?_) fun a => ?_
  · simpa [Process.bars] using Option.isSome_iff_ne_none.mpr hterminal
  · cases a with
    | none =>
      rw [Process.step, Process.perform, if_pos ⟨rfl, rfl⟩]
      exact h true p.refused (fun _ => rfl) (List.Subset.refl _)
    | some error => exact h p.privateMounts _ id (List.subset_append_left _ _)

variable (host) in
/-- The process has the jail as its root, and the old root is gone if it was listed. -/
def Rooted (p p' : Process) : Prop :=
  ∃ cwd oldRoot unlisted privateMounts binds refused, p' = { p with
      root := host.cfg.jailPath, cwd := cwd, oldRoot := oldRoot, unlisted := unlisted,
      privateMounts := privateMounts, binds := binds, refused := refused } ∧
    (oldRoot = none ∨ unlisted = true) ∧ (p.privateMounts = true → privateMounts = true) ∧
    (∀ b ∈ binds, b ∈ p.binds ∨ b = (host.cfg.jailPath, host.cfg.jailPath)) ∧ p.refused ⊆ refused

theorem jailPath_ne_root : host.cfg.jailPath ≠ ascii "/" := by
  intro h
  rcases host.cfg.jailPath_correct with hnil | hcorrect
  · rw [hnil] at h
    cases h
  · rw [h] at hcorrect
    exact absurd hcorrect (by decide +kernel)

/-- The path of the jail, as the server sees it. -/
theorem locate_jailPath (hroot : p.root = []) (hjail : host.cfg.jailPath ≠ []) :
    p.locate host.cfg.jailPath = host.cfg.jailPath := by
  have habsolute := host.cfg.jailPath_absolute.resolve_left hjail
  have hdot : host.cfg.jailPath ≠ ascii "." := by
    intro h
    rw [h] at habsolute
    cases habsolute
  rw [Process.locate, if_neg hdot, if_neg jailPath_ne_root, if_pos habsolute, hroot, List.nil_append]

/-- The change to the jail by `chroot`. -/
theorem chroot_leads {failure failure' : Failure} (hroot : p.root = [])
    (hjail : host.cfg.jailPath ≠ []) :
    Leads host pm p (do
      check K (.chdir host.cfg.jailPath) failure
      check K (.chroot host.cfg.jailPath) failure') fun _ p' =>
        p' = { p with root := host.cfg.jailPath, cwd := host.cfg.jailPath } := by
  refine Leads.check_bind (fun _ => rfl) (fun _ => rfl) (Leads.check (fun _ => rfl) (fun _ => rfl) ?_)
  have hlocate := locate_jailPath hroot hjail
  have hlocate' := locate_jailPath (p := { p with cwd := host.cfg.jailPath }) hroot hjail
  rw [Process.perform, Process.perform, hlocate, hlocate']

/-- The old root is put below the new one. -/
theorem locate_oldrootRelative (p : Process) (pm : Execution host.cfg.toConfiguration) :
    p.locate (oldrootRelative host pm) = p.cwd ++ ascii "/" ++ oldrootRelative host pm := by
  have hcons : oldrootRelative host pm = 46 :: (ascii "oldroot_p" ++ itos pm.prisoner) := rfl
  rw [Process.locate, hcons, if_neg, if_neg, if_neg]
  · exact fun h => absurd (Option.some.inj h) (by decide)
  · exact fun h => absurd (List.cons.inj h).1 (by decide)
  · exact fun h => absurd (List.cons.inj h).2 (by simp [ascii])

theorem zero_notMem_oldroot : (0 : UInt8) ∉ ascii "/" ++ oldrootRelative host pm := by
  have hdigits : (0 : UInt8) ∉ itos pm.prisoner := fun h => by
    rcases mem_itos h with h | h <;> exact absurd h (by decide)
  rw [oldrootRelative, List.mem_append, List.mem_append]
  rintro (h | h | h)
  · exact absurd h (by decide)
  · exact absurd h (by decide)
  · exact hdigits h

/-- The change to the jail by `pivot_root`, or by `chroot` where it is refused. -/
theorem pivot_leads {failure failure' failure'' : Failure} (hroot : p.root = [])
    (hold : p.oldRoot = none) (hjail : host.cfg.jailPath ≠ []) :
    Leads host pm p (do
      check K (.chdir host.cfg.jailPath) failure
      let result ← sys K (.pivotRoot (ascii ".") (oldrootRelative host pm))
      if result ≠ none then
        check K (.chroot host.cfg.jailPath) failure'
      else do
        check K (.chdir (ascii "/")) failure''
        unmountTree K (ascii "/" ++ oldrootRelative host pm)
        attempt K (.rmdir (ascii "/" ++ oldrootRelative host pm))) fun _ p' =>
      ∃ cwd oldRoot unlisted refused, p' = { p with
        root := host.cfg.jailPath, cwd := cwd, oldRoot := oldRoot, unlisted := unlisted,
        refused := refused } ∧ (oldRoot = none ∨ unlisted = true) ∧ p.refused ⊆ refused := by
  have hlocate : p.locate host.cfg.jailPath = host.cfg.jailPath := locate_jailPath hroot hjail
  refine Leads.check_bind (fun _ => rfl) (fun _ => rfl) ?_
  rw [Process.perform, hlocate]
  refine Leads.call_bind (fun _ => rfl) (fun a ha => ?_) fun a _ => ?_
  · -- a refused `pivot_root` does not bar the process
    cases a with
    | none => cases ha
    | some error => exact absurd ha (by simp [bars, Process.bars])
  cases a with
  | some error =>
    rw [if_pos (by simp)]
    refine Leads.check (fun _ => rfl) (fun _ => rfl) ⟨host.cfg.jailPath, p.oldRoot, p.unlisted,
      p.refused ++ [(.pivotRoot (ascii ".") (oldrootRelative host pm), error)], ?_, .inl hold,
      List.subset_append_left _ _⟩
    have hlocate' : Process.locate { p with cwd := host.cfg.jailPath } host.cfg.jailPath =
        host.cfg.jailPath := locate_jailPath hroot hjail
    exact congrArg (fun place => { p with
      root := place
      cwd := host.cfg.jailPath
      refused := p.refused ++ [(Op.pivotRoot (ascii ".") (oldrootRelative host pm), error)] }) hlocate'
  | none =>
    rw [if_neg (by simp)]
    refine Leads.check_bind (fun _ => rfl) (fun _ => rfl) ?_
    refine Leads.bind (unmountTree_leads zero_notMem_oldroot ?_) ?_
    · -- the old root is where the call has put it
      have hput := locate_oldrootRelative { p with cwd := host.cfg.jailPath } pm
      have hdot : Process.locate { p with cwd := host.cfg.jailPath } (ascii ".") = host.cfg.jailPath :=
        if_pos rfl
      rw [Process.step, Process.perform, Process.perform, hput, hdot]
      simp [List.append_assoc]
    · rintro _ _ ⟨oldRoot, unlisted, refused, rfl, hgone⟩
      refine Leads.attempt (fun _ => rfl) (fun _ => rfl) fun a => ?_
      cases a with
      | none => exact ⟨_, oldRoot, unlisted, _, rfl, hgone, List.subset_append_left _ _⟩
      | some error =>
        refine ⟨_, oldRoot, unlisted, _, rfl, hgone, ?_⟩
        exact List.Subset.trans (List.subset_append_left _ refused) (List.subset_append_left _ _)

/-- Both ways of `pivotRoot`, by `pivot_root` and by `chroot`, end in the jail. -/
theorem pivotRoot_leads (hterminal : p.terminal ≠ none) (hroot : p.root = [])
    (hold : p.oldRoot = none) (hjail : host.cfg.jailPath ≠ []) :
    Leads host pm p (pivotRoot K host pm host.cfg.jailPath) fun _ p' => Rooted host p p' := by
  refine Leads.ite (fun h => absurd h hjail) fun _ => private_bind hterminal ?_
  intro privateMounts refused hprivate hrefused
  have hlocate : p.locate host.cfg.jailPath = host.cfg.jailPath := locate_jailPath hroot hjail
  refine Leads.call_bind (fun _ => rfl) (fun a ha => ?_) fun a _ => ?_
  · -- a bind mount that is refused does not bar the process
    cases a with
    | none => cases ha
    | some error => exact absurd ha (by simp [bars, Process.bars])
  cases a with
  | some error =>
    rw [if_pos (by simp)]
    refine Leads.weaken (chroot_leads hroot hjail) ?_
    rintro _ _ rfl
    exact ⟨_, _, _, _, _, _, rfl, .inl hold, hprivate, fun b hb => .inl hb,
      List.Subset.trans hrefused (List.subset_append_left _ _)⟩
  | none =>
    rw [if_neg (by simp)]
    -- the jail is a mount point now
    generalize hmounted : Process.step _ _ = q
    have hq : q = { p with
        privateMounts := privateMounts
        refused := refused
        binds := p.binds ++ [(host.cfg.jailPath, host.cfg.jailPath)] } := by
      rw [← hmounted, Process.step, Process.perform, if_pos (by simp)]
      exact congrArg (fun place => { p with
        privateMounts := privateMounts
        refused := refused
        binds := p.binds ++ [(place, place)] }) hlocate
    clear hmounted
    subst hq
    refine ignore_bind (fun _ => rfl) (fun _ => by simp [Process.bars, jailPath_ne_root])
      (by rw [Process.perform, if_neg fun h => jailPath_ne_root h.1]) (fun _ => rfl) ?_
    intro refused₁ hrefused₁
    refine ignore_bind (fun _ => rfl) (fun _ => rfl) rfl (fun _ => rfl) ?_
    intro refused₂ hrefused₂
    refine Leads.weaken (pivot_leads hroot hold hjail) ?_
    rintro _ _ ⟨cwd, oldRoot, unlisted, refused₃, rfl, hgone, hrefused₃⟩
    refine ⟨_, oldRoot, unlisted, privateMounts, _, refused₃, rfl, hgone, hprivate, ?_, ?_⟩
    · exact fun b hb => (List.mem_append.mp hb).imp_right List.mem_singleton.mp
    · exact List.Subset.trans hrefused (List.Subset.trans hrefused₁
        (List.Subset.trans hrefused₂ hrefused₃))

/-! ## Inside the jail -/

/-- A mount is detached, which may be that of the old root. -/
theorem detach_bind {target : Bytes} {m : Sys α} {ψ : α → Process → Prop}
    (h : ∀ oldRoot refused, (oldRoot = none ∨ oldRoot = p.oldRoot) → p.refused ⊆ refused →
      Leads host pm { p with oldRoot := oldRoot, refused := refused } m ψ) :
    Leads host pm p (attempt K (.umount2 target true) >>= fun _ => m) ψ := by
  obtain ⟨oldRoot, hunmounted, hold⟩ := unmounted_eq p target
  have hold' : oldRoot = none ∨ oldRoot = p.oldRoot := hold.imp_right And.left
  refine Leads.attempt_bind (fun _ => rfl) (fun _ => rfl) fun a => ?_
  rcases a with _ | _ | _ | code
  · rw [Process.step, Process.perform, hunmounted]
    exact h oldRoot p.refused hold' (List.Subset.refl _)
  · rw [Process.step, Process.refuse, hunmounted]
    exact h oldRoot _ hold' (List.subset_append_left _ _)
  · rw [Process.step, Process.refuse, hunmounted]
    exact h oldRoot _ hold' (List.subset_append_left _ _)
  · exact h p.oldRoot _ (.inr rfl) (List.subset_append_left _ _)

theorem remountProc_leads : Leads host pm p (remountProc K) fun _ p' =>
    ∃ oldRoot refused, p' = { p with oldRoot := oldRoot, refused := refused } ∧
      (oldRoot = none ∨ oldRoot = p.oldRoot) ∧ p.refused ⊆ refused := by
  refine detach_bind fun oldRoot refused hold hrefused => ?_
  refine Leads.call_bind (fun _ => rfl) (fun a ha => ?_) fun a _ => ?_
  · cases a with
    | none => cases ha
    | some error => cases ha
  cases a with
  | some error =>
    rw [if_pos (by simp)]
    exact Leads.pure ⟨oldRoot, _, rfl, hold,
      List.Subset.trans hrefused (List.subset_append_left _ _)⟩
  | none =>
    rw [if_neg (by simp)]
    refine Leads.call_bind (fun _ => rfl) (fun isFile h => ?_) fun isFile _ => ?_
    · -- `/sys` is not the program
      have hne : ascii "/sys" ≠ fullname host pm := fun h =>
        absurd (List.cons.inj (List.cons.inj h).2).1 (by decide)
      simp [bars, hne] at h
    · cases isFile with
      | false => exact Leads.pure ⟨oldRoot, refused, rfl, hold, hrefused⟩
      | true =>
        rw [if_pos rfl]
        refine detach_bind fun oldRoot' refused' hold' hrefused' => ?_
        refine Leads.attempt (fun _ => rfl) (fun _ => rfl) fun a => ?_
        have hold'' : oldRoot' = none ∨ oldRoot' = p.oldRoot :=
          hold'.elim .inl fun h => hold.imp h.trans h.trans
        have hall := List.Subset.trans hrefused hrefused'
        cases a with
        | none => exact ⟨oldRoot', refused', rfl, hold'', hall⟩
        | some error =>
          exact ⟨oldRoot', _, rfl, hold'', List.Subset.trans hall (List.subset_append_left _ _)⟩

variable (host pm) in
/-- A writable directory is left as it is since the kernel has refused what it needs. -/
def Missed (refused : List (Op × Errno)) (dir : Bytes) : Prop :=
  ∃ op error, (op, error) ∈ refused ∧
    (op = .mount (some (privateSource host pm dir)) dir none [.bind] ∨
      (∃ mode, op = .mkdir (privateSource host pm dir) mode ∨ op = .mkdir dir mode) ∧ error ≠ EEXIST)

theorem Missed.mono {refused refused' : List (Op × Errno)} {dir : Bytes}
    (h : Missed host pm refused dir) (hsub : refused ⊆ refused') : Missed host pm refused' dir :=
  let ⟨op, error, hmem, hop⟩ := h
  ⟨op, error, hsub hmem, hop⟩

variable (host pm) in
/-- The bind mount of a writable directory: the place and what is found there. -/
def bindOf (root dir : Bytes) : Bytes × Bytes :=
  (root ++ dir, root ++ privateSource host pm dir)

theorem locate_absolute (p : Process) {name : Bytes} (hname : name ≠ []) :
    p.locate (47 :: name) = p.root ++ 47 :: name := by
  rw [Process.locate, if_neg, if_neg, if_pos List.head?_cons]
  · exact fun h => hname (List.cons.inj h).2
  · exact fun h => absurd (List.cons.inj h).1 (by decide)

/-- A directory that is made, or is there already, before the rest. -/
theorem mkdir_bind {path : Bytes} {mode : ℕ} {rest : Sys Unit} {ψ : Unit → Process → Prop}
    (hfail : ∀ error, error ≠ EEXIST →
      ψ () { p with refused := p.refused ++ [(.mkdir path mode, error)] })
    (hgo : ∀ refused, p.refused ⊆ refused →
      Leads host pm { p with refused := refused } rest ψ) :
    Leads host pm p (sys K (.mkdir path mode) >>= fun result =>
      if result ≠ none ∧ result ≠ some EEXIST then pure () else rest) ψ := by
  refine Leads.call_bind (fun _ => rfl) (fun a ha => ?_) fun a _ => ?_
  · cases a with
    | none => cases ha
    | some error => cases ha
  cases a with
  | none =>
    rw [if_neg (by simp)]
    exact hgo p.refused (List.Subset.refl _)
  | some error =>
    by_cases hexist : error = EEXIST
    · rw [if_neg (by simp [hexist])]
      exact hgo _ (List.subset_append_left _ _)
    · rw [if_pos (by simp [hexist])]
      exact Leads.pure (hfail error hexist)

theorem setupPrivateWritableDir_leads {dir : Bytes} (hdir : ∃ name, name ≠ [] ∧ dir = 47 :: name) :
    Leads host pm p (setupPrivateWritableDir K host pm dir) fun _ p' =>
      ∃ binds refused, p' = { p with binds := p.binds ++ binds, refused := refused } ∧
        (∀ b ∈ binds, b = bindOf host pm p.root dir) ∧ p.refused ⊆ refused ∧
        (bindOf host pm p.root dir ∈ binds ∨ Missed host pm refused dir) := by
  have hplace : p.locate dir = p.root ++ dir := by
    obtain ⟨name, hname, rfl⟩ := hdir
    exact locate_absolute p hname
  have hsource : p.locate (privateSource host pm dir) = p.root ++ privateSource host pm dir :=
    locate_absolute p (List.cons_ne_nil _ _)
  have hne : dir ≠ ascii "/" := by
    obtain ⟨name, hname, rfl⟩ := hdir
    exact fun h => hname (List.cons.inj h).2
  -- nothing is mounted where the kernel refuses a step
  have hmissed {q : Process} {refused : List (Op × Errno)} (hq : q = { p with refused := refused })
      (hsub : p.refused ⊆ refused) (h : Missed host pm refused dir) :
      ∃ binds refused, q = { p with binds := p.binds ++ binds, refused := refused } ∧
        (∀ b ∈ binds, b = bindOf host pm p.root dir) ∧ p.refused ⊆ refused ∧
        (bindOf host pm p.root dir ∈ binds ∨ Missed host pm refused dir) :=
    ⟨[], refused, by rw [hq, List.append_nil], fun b hb => absurd hb List.not_mem_nil, hsub, .inr h⟩
  refine Leads.call_bind (fun _ => rfl) (fun _ h => by cases h) fun origStat _ => mkdir_bind ?_ ?_
  · exact fun error hexist => hmissed rfl (List.subset_append_left _ _)
      ⟨_, error, List.mem_append_right _ List.mem_cons_self, .inr ⟨⟨_, .inl rfl⟩, hexist⟩⟩
  intro refused₁ h₁
  refine ignore_bind (fun _ => rfl) (fun _ => rfl) rfl (fun _ => rfl) fun refused₂ h₂ => ?_
  refine ignore_bind (fun _ => rfl) (fun _ => rfl) rfl (fun _ => rfl) fun refused₃ h₃ => ?_
  have hsub : p.refused ⊆ refused₃ := List.Subset.trans h₁ (List.Subset.trans h₂ h₃)
  refine mkdir_bind ?_ ?_
  · exact fun error hexist => hmissed rfl (List.Subset.trans hsub (List.subset_append_left _ _))
      ⟨_, error, List.mem_append_right _ List.mem_cons_self, .inr ⟨⟨_, .inr rfl⟩, hexist⟩⟩
  intro refused₄ h₄
  have hsub₄ := List.Subset.trans hsub h₄
  refine Leads.call_bind (fun _ => rfl) (fun a ha => ?_) fun a _ => ?_
  · cases a with
    | none => cases ha
    | some error => exact absurd ha (by simp [bars, Process.bars])
  cases a with
  | some error =>
    rw [if_pos (by simp)]
    exact Leads.pure (hmissed rfl (List.Subset.trans hsub₄ (List.subset_append_left _ _))
      ⟨_, error, List.mem_append_right _ List.mem_cons_self, .inl rfl⟩)
  | none =>
    rw [if_neg (by simp)]
    generalize hmounted : Process.step _ _ = q
    have hq : q = { p with
        binds := p.binds ++ [bindOf host pm p.root dir]
        refused := refused₄ } := by
      rw [← hmounted, Process.step, Process.perform, if_pos (by simp)]
      exact congrArg₂ (fun place source => { p with
        binds := p.binds ++ [(place, source)]
        refused := refused₄ }) hplace hsource
    clear hmounted
    subst hq
    refine ignore_bind (fun _ => rfl) (fun _ => by simp [Process.bars, hne])
      (by rw [Process.perform, if_neg fun h => hne h.1]) (fun _ => rfl) fun refused₅ h₅ => ?_
    refine Leads.attempt (fun _ => rfl) (fun _ => by simp [Process.bars, hne]) fun a => ?_
    have hsub₅ := List.Subset.trans hsub₄ h₅
    cases a with
    | none =>
      rw [Process.step, Process.perform, if_neg fun h => hne h.1]
      exact ⟨_, refused₅, rfl, fun b hb => List.mem_singleton.mp hb, hsub₅,
        .inl List.mem_cons_self⟩
    | some error =>
      exact ⟨[_], _, rfl, fun b hb => List.mem_singleton.mp hb,
        List.Subset.trans hsub₅ (List.subset_append_left _ _), .inl List.mem_cons_self⟩

theorem setupDirs_leads {dirs : List Bytes}
    (hdirs : ∀ dir ∈ dirs, ∃ name, name ≠ [] ∧ dir = 47 :: name) :
    Leads host pm p (setupDirs K host pm dirs) fun _ p' =>
      ∃ binds refused, p' = { p with binds := p.binds ++ binds, refused := refused } ∧
        (∀ b ∈ binds, ∃ dir ∈ dirs, b = bindOf host pm p.root dir) ∧ p.refused ⊆ refused ∧
        ∀ dir ∈ dirs, bindOf host pm p.root dir ∈ binds ∨ Missed host pm refused dir := by
  induction dirs generalizing p with
  | nil =>
    exact Leads.pure ⟨[], p.refused, by rw [List.append_nil], fun b hb => absurd hb List.not_mem_nil,
      List.Subset.refl _, fun dir hdir => absurd hdir List.not_mem_nil⟩
  | cons dir dirs ih =>
    obtain ⟨hdir, hdirs⟩ := List.forall_mem_cons.mp hdirs
    refine Leads.bind (setupPrivateWritableDir_leads hdir) ?_
    rintro _ _ ⟨binds, refused, rfl, hbinds, hsub, hdone⟩
    refine Leads.weaken (ih hdirs) ?_
    rintro _ _ ⟨binds', refused', rfl, hbinds', hsub', hdone'⟩
    refine ⟨binds ++ binds', refused', by rw [List.append_assoc], fun b hb => ?_,
      List.Subset.trans hsub hsub', List.forall_mem_cons.mpr ⟨?_, fun d hd => ?_⟩⟩
    · rcases List.mem_append.mp hb with hb | hb
      · exact ⟨dir, List.mem_cons_self, hbinds b hb⟩
      · obtain ⟨d, hd, hb⟩ := hbinds' b hb
        exact ⟨d, List.mem_cons_of_mem _ hd, hb⟩
    · exact hdone.imp (List.mem_append_left _) fun h => h.mono hsub'
    · exact (hdone' d hd).imp_left (List.mem_append_right _)

/-! ## In the jail -/

variable (host pm) in
/-- The bind mounts are that of the jail on itself and those of the private directories. -/
def KnownBind (b : Bytes × Bytes) : Prop :=
  b = (host.cfg.jailPath, host.cfg.jailPath) ∨
    ∃ dir ∈ host.writableDirsInJail, b = bindOf host pm host.cfg.jailPath dir

variable (host pm) in
/-- Every writable directory is a private one, or is missed. -/
def PrivateDirs (p : Process) : Prop :=
  host.cfg.useNamespace = true → host.cfg.jailPath ≠ [] → ∀ dir ∈ host.writableDirsInJail,
    bindOf host pm host.cfg.jailPath dir ∈ p.binds ∨ Missed host pm p.refused dir

theorem setupFilesystemIsolation_leads (hterminal : p.terminal ≠ none) (hroot : p.root = [])
    (hold : p.oldRoot = none) :
    Leads host pm p (setupFilesystemIsolation K host pm) fun _ p' =>
      (∃ cwd oldRoot unlisted privateMounts binds refused, p' = { p with
        root := host.cfg.jailPath, cwd := cwd, oldRoot := oldRoot, unlisted := unlisted,
        privateMounts := privateMounts, binds := binds, refused := refused }) ∧
      (p'.oldRoot = none ∨ p'.unlisted = true) ∧
      (p.privateMounts = true → p'.privateMounts = true) ∧
      (∀ b ∈ p'.binds, b ∈ p.binds ∨ KnownBind host pm b) ∧ PrivateDirs host pm p' := by
  refine Leads.ite (fun hjail => Leads.pure ?_) fun hjail => Leads.ite (fun hoff => ?_) fun hon => ?_
  · refine ⟨⟨p.cwd, p.oldRoot, p.unlisted, p.privateMounts, p.binds, p.refused, ?_⟩, .inl hold, id,
      fun b hb => .inl hb, fun _ hne => absurd hjail hne⟩
    rw [hjail, ← hroot]
  · refine Leads.weaken (chroot_leads hroot hjail) ?_
    rintro _ _ rfl
    exact ⟨⟨_, _, _, _, _, _, rfl⟩, .inl hold, id, fun b hb => .inl hb,
      fun h => absurd (hoff.symm.trans h) Bool.false_ne_true⟩
  · refine Leads.bind (pivotRoot_leads hterminal hroot hold hjail) ?_
    rintro _ _ ⟨cwd, oldRoot, unlisted, privateMounts, binds, refused, rfl, hgone, hprivate, hbinds, -⟩
    refine Leads.bind remountProc_leads ?_
    rintro _ _ ⟨oldRoot', refused', rfl, hold', -⟩
    refine Leads.ite (fun hoff => absurd hoff hon) fun _ => ?_
    refine Leads.weaken (setupDirs_leads host.writableDirs_absolute) ?_
    rintro _ _ ⟨binds', refused'', rfl, hbinds', -, hdone⟩
    refine ⟨⟨_, _, _, _, _, _, rfl⟩, ?_, hprivate, fun b hb => ?_, fun _ _ dir hdir => ?_⟩
    · exact hold'.elim .inl fun h => hgone.imp_left h.trans
    · rcases List.mem_append.mp hb with hb | hb
      · exact (hbinds b hb).imp_right .inl
      · exact .inr (.inr (hbinds' b hb))
    · exact (hdone dir hdir).imp_left (List.mem_append_right _)

end Rules

end VplJail.Jail.Isolation
