import Mathlib.Data.List.Pairwise
import Mathlib.Order.WellFounded
import VplJail.Common.CriticalSection

/-!
# Locks that are taken in order

Processes run code that takes and gives back exclusive locks. If every branch of the code asks only
for locks above those it holds, and gives back what it has taken before it ends (`Balanced`), then
no process asks for a lock of its own and no processes wait for each other in a circle, whatever the
order of the steps and whatever else happens to the shared state.
-/

namespace VplJail.LockOrder

open CriticalSection

/-- The code of a process: steps on the shared state, and locks that are taken and given back. -/
inductive Code (k σ ρ : Type*)
  | done (result : ρ)
  | step (update : σ → σ) (next : σ → Code k σ ρ)
  | lock (name : k) (rest : Code k σ ρ)
  | unlock (name : k) (rest : Code k σ ρ)

variable {ι γ k σ τ ρ : Type*}

namespace Code

/-- A code followed by another one on its result. -/
def bind {ρ' : Type*} : Code k σ ρ → (ρ → Code k σ ρ') → Code k σ ρ'
  | done r, f => f r
  | step update next, f => .step update fun s => (next s).bind f
  | lock name rest, f => .lock name (rest.bind f)
  | unlock name rest, f => .unlock name (rest.bind f)

instance : Monad (Code k σ) where
  pure := done
  bind := bind

/-- A part that runs while a lock is held. -/
def hold (name : k) (part : Code k σ ρ) : Code k σ ρ :=
  .lock name (part.bind fun r => .unlock name (.done r))

/-- Every branch asks for locks in order, and ends with the locks `last` held. -/
def Ordered [LT k] (last : List k) : List k → Code k σ ρ → Prop
  | held, done _ => held = last
  | held, step _ next => ∀ s, Ordered last held (next s)
  | held, lock name rest => (∀ other ∈ held, other < name) ∧ Ordered last (name :: held) rest
  | held, unlock name rest => ∃ below, held = name :: below ∧ Ordered last below rest

section Rules

variable [LT k] {held last : List k}

/-- The parts of a code one after the other. -/
theorem Ordered.bind {ρ' : Type*} {between : List k} {x : Code k σ ρ} {f : ρ → Code k σ ρ'}
    (hx : x.Ordered between held) (hf : ∀ r, (f r).Ordered last between) :
    (x.bind f).Ordered last held := by
  induction x generalizing held with
  | done r =>
    obtain rfl : held = between := hx
    exact hf r
  | step update next ih => exact fun s => ih s (hx s)
  | lock name rest ih => exact ⟨hx.1, ih hx.2⟩
  | unlock name rest ih =>
    obtain ⟨below, rfl, hrest⟩ := hx
    exact ⟨below, rfl, ih hrest⟩

/-- A lock above those that are held may be taken around a part. -/
theorem Ordered.hold {name : k} {part : Code k σ ρ} (hname : ∀ other ∈ held, other < name)
    (hpart : part.Ordered (name :: held) (name :: held)) :
    (part.hold name).Ordered held held :=
  ⟨hname, hpart.bind fun _ => ⟨held, rfl, rfl⟩⟩

end Rules

end Code

/-! ## Code that may throw -/

section Except

universe u

variable {ε α β : Type u} [LT k] {held : List k}

/-- What is held at the end is what was held, on every branch, also where an exception leaves it. -/
structure Balanced (held : List k) (x : ExceptT ε (Code k σ) α) : Prop where
  ordered : x.run.Ordered held held

protected theorem Balanced.pure (a : α) : Balanced held (pure a : ExceptT ε (Code k σ) α) := ⟨rfl⟩

protected theorem Balanced.throw (e : ε) : Balanced held (throw e : ExceptT ε (Code k σ) α) := ⟨rfl⟩

protected theorem Balanced.ofExcept (r : Except ε α) :
    Balanced held (ofExcept r : ExceptT ε (Code k σ) α) := by
  cases r with
  | ok a => exact .pure a
  | error e => exact .throw e

/-- What is thrown skips the rest. -/
protected theorem Balanced.bind {x : ExceptT ε (Code k σ) α} {f : α → ExceptT ε (Code k σ) β}
    (hx : Balanced held x) (hf : ∀ a, Balanced held (f a)) : Balanced held (x >>= f) := by
  refine ⟨hx.ordered.bind fun r => ?_⟩
  cases r with
  | ok a => exact (hf a).ordered
  | error e => rfl

protected theorem Balanced.ite {p : Prop} [Decidable p] {x y : ExceptT ε (Code k σ) α}
    (hx : Balanced held x) (hy : Balanced held y) : Balanced held (if p then x else y) := by
  split
  · exact hx
  · exact hy

/-- A handler runs with the locks that were held before the part that has thrown. -/
protected theorem Balanced.tryCatch {x : ExceptT ε (Code k σ) α}
    {handler : ε → ExceptT ε (Code k σ) α}
    (hx : Balanced held x) (hhandler : ∀ e, Balanced held (handler e)) :
    Balanced held (tryCatch x handler) := by
  refine ⟨hx.ordered.bind fun r => ?_⟩
  cases r with
  | ok a => rfl
  | error e => exact (hhandler e).ordered

/-- A loop over a list keeps the locks if its turns do. -/
protected theorem Balanced.forM {l : List τ} {f : τ → ExceptT ε (Code k σ) PUnit}
    (hf : ∀ a, Balanced held (f a)) : Balanced held (l.forM f) := by
  induction l with
  | nil => exact .pure _
  | cons a l ih => exact (hf a).bind fun _ => ih

/-- What a process sees of the shared state. -/
def see (f : σ → α) : ExceptT ε (Code k σ) α :=
  ExceptT.mk (.step id fun s => .done (.ok (f s)))

protected theorem Balanced.see (f : σ → α) : Balanced held (see f : ExceptT ε (Code k σ) α) :=
  ⟨fun _ => rfl⟩

/-- A change of the shared state. -/
def act (update : σ → σ) : ExceptT ε (Code k σ) PUnit :=
  ExceptT.mk (.step update fun _ => .done (.ok ⟨⟩))

protected theorem Balanced.act (update : σ → σ) :
    Balanced held (act update : ExceptT ε (Code k σ) PUnit) :=
  ⟨fun _ => rfl⟩

/-- A change of the shared state, with what comes of it. -/
def atomic (f : σ → σ × Except ε α) : ExceptT ε (Code k σ) α :=
  ExceptT.mk (.step (fun s => (f s).1) fun s => .done (f s).2)

protected theorem Balanced.atomic (f : σ → σ × Except ε α) :
    Balanced held (atomic f : ExceptT ε (Code k σ) α) :=
  ⟨fun _ => rfl⟩

/-- A part that runs while a lock is held, which is given back however the part ends. -/
def holding (name : k) (part : ExceptT ε (Code k σ) α) : ExceptT ε (Code k σ) α :=
  ExceptT.mk (part.run.hold name)

protected theorem Balanced.holding {name : k} {part : ExceptT ε (Code k σ) α}
    (hname : ∀ other ∈ held, other < name) (hpart : Balanced (name :: held) part) :
    Balanced held (holding name part) :=
  ⟨.hold hname hpart.ordered⟩

/-- Steps without locks on a part of the shared state, each of which may throw. -/
def attempt (fault : σ → Option ε) (get : σ → τ) (put : σ → τ → σ) :
    Prog τ (Except ε α) → Code k σ (Except ε α)
  | .done r => .done r
  | .step update next => .step
      (fun s => if (fault s).isSome then s else put s (update (get s)))
      fun s => match fault s with
        | some e => .done (.error e)
        | none => attempt fault get put (next (get s))

theorem ordered_attempt (fault : σ → Option ε) (get : σ → τ) (put : σ → τ → σ)
    (x : Prog τ (Except ε α)) : (attempt fault get put x : Code k σ _).Ordered held held := by
  induction x with
  | done r => rfl
  | step update next ih =>
    intro s
    cases hfault : fault s with
    | some e =>
      simp only [hfault]
      rfl
    | none =>
      simp only [hfault]
      exact ih (get s)

end Except

/-! ## Processes -/

/-- The shared state, the holders of the locks, and what the processes still have to run. -/
structure System (ι k σ ρ : Type*) where
  shared : σ
  holder : k → Option ι
  procs : ι → Option (Code k σ ρ)

/-- No lock is held and nothing runs. -/
def System.initial (shared : σ) : System ι k σ ρ :=
  ⟨shared, fun _ => none, fun _ => none⟩

variable [DecidableEq ι] [DecidableEq k]

/-- A step of a process, which starts any call once it has ended the one before, or something else
that happens to the shared state. A lock that is held is not given, not even to its holder. -/
inductive Step (body : ι → γ → Code k σ ρ) : System ι k σ ρ → System ι k σ ρ → Prop
  | call {s : System ι k σ ρ} (i : ι) (c : γ) (h : s.procs i = none) :
      Step body s { s with procs := Function.update s.procs i (some (body i c)) }
  | tick {s : System ι k σ ρ} (i : ι) {update : σ → σ} {next : σ → Code k σ ρ}
      (h : s.procs i = some (.step update next)) :
      Step body s { s with
        shared := update s.shared
        procs := Function.update s.procs i (some (next s.shared)) }
  | lock {s : System ι k σ ρ} (i : ι) {name : k} {rest : Code k σ ρ}
      (h : s.procs i = some (.lock name rest)) (hfree : s.holder name = none) :
      Step body s { s with
        holder := Function.update s.holder name (some i)
        procs := Function.update s.procs i (some rest) }
  | unlock {s : System ι k σ ρ} (i : ι) {name : k} {rest : Code k σ ρ}
      (h : s.procs i = some (.unlock name rest)) :
      Step body s { s with
        holder := Function.update s.holder name none
        procs := Function.update s.procs i (some rest) }
  | return {s : System ι k σ ρ} (i : ι) {r : ρ} (h : s.procs i = some (.done r)) :
      Step body s { s with procs := Function.update s.procs i none }
  | environment {s : System ι k σ ρ} (shared : σ) : Step body s { s with shared := shared }

/-- The runs. -/
abbrev Reaches (body : ι → γ → Code k σ ρ) : System ι k σ ρ → System ι k σ ρ → Prop :=
  Relation.ReflTransGen (Step body)

/-- A process that asks for a lock. -/
def System.Requests (s : System ι k σ ρ) (i : ι) (name : k) : Prop :=
  ∃ rest, s.procs i = some (.lock name rest)

/-- A process that asks for a lock that another one, or itself, holds. -/
def System.WaitsFor (s : System ι k σ ρ) (i j : ι) : Prop :=
  ∃ name, s.Requests i name ∧ s.holder name = some j

/-- What a process still has to run is in order. -/
def InOrder [LT k] (held : List k) : Option (Code k σ ρ) → Prop
  | none => held = []
  | some code => code.Ordered [] held

/-- The locks that a process holds. -/
def Owns (holder : k → Option ι) (i : ι) (held : List k) : Prop :=
  ∀ name, holder name = some i ↔ name ∈ held

/-- Each process holds its locks in order, the last one first, and goes on in order. -/
def Disciplined [LT k] (s : System ι k σ ρ) : Prop :=
  ∀ i, ∃ held : List k, Owns s.holder i held ∧
    held.Pairwise (fun name below => below < name) ∧ InOrder held (s.procs i)

section Owns

variable {holder : k → Option ι} {i j : ι} {held : List k} {name : k}

omit [DecidableEq ι] in
theorem Owns.lock (h : Owns holder i held) :
    Owns (Function.update holder name (some i)) i (name :: held) := by
  intro other
  rw [List.mem_cons, ← h other]
  by_cases hother : other = name
  · simp [hother]
  · simp [hother]

omit [DecidableEq ι] in
theorem Owns.lock_of_ne (h : Owns holder j held) (hfree : holder name = none) (hj : j ≠ i) :
    Owns (Function.update holder name (some i)) j held := by
  intro other
  rw [← h other]
  by_cases hother : other = name
  · simp [hother, hfree, Ne.symm hj]
  · rw [Function.update_of_ne hother]

omit [DecidableEq ι] in
theorem Owns.unlock (h : Owns holder i (name :: held)) (hname : name ∉ held) :
    Owns (Function.update holder name none) i held := by
  intro other
  by_cases hother : other = name
  · simp [hother, hname]
  · rw [Function.update_of_ne hother, h other, List.mem_cons, or_iff_right hother]

omit [DecidableEq ι] in
theorem Owns.unlock_of_ne (h : Owns holder j held) (hi : holder name = some i) (hj : j ≠ i) :
    Owns (Function.update holder name none) j held := by
  intro other
  rw [← h other]
  by_cases hother : other = name
  · simp [hother, hi, Ne.symm hj]
  · rw [Function.update_of_ne hother]

end Owns

section Runs

variable {body : ι → γ → Code k σ ρ} {s s' : System ι k σ ρ}

omit [DecidableEq k] in
/-- What the processes still have to run when one of them goes on. -/
theorem inOrder_update [LT k] {procs : ι → Option (Code k σ ρ)} {i j : ι}
    {rest : Option (Code k σ ρ)} {held : List k} (hself : j = i → InOrder held rest)
    (hother : j ≠ i → InOrder held (procs j)) :
    InOrder held (Function.update procs i rest j) := by
  by_cases hj : j = i
  · rw [hj, Function.update_self]
    exact hself hj
  · rw [Function.update_of_ne hj]
    exact hother hj

omit [DecidableEq k] in
/-- A step without locks. -/
theorem Disciplined.update [LT k] (h : Disciplined s) {i : ι} {rest : Option (Code k σ ρ)}
    (hi : ∀ held : List k, InOrder held (s.procs i) → InOrder held rest) (shared : σ) :
    Disciplined { s with shared := shared, procs := Function.update s.procs i rest } := by
  intro j
  obtain ⟨held, howns, hpairwise, horder⟩ := h j
  refine ⟨held, howns, hpairwise, inOrder_update ?_ fun _ => horder⟩
  rintro rfl
  exact hi held horder

/-- A step keeps the discipline if the calls do. -/
theorem Disciplined.step [Preorder k] (hbody : ∀ i c, (body i c).Ordered [] [])
    (h : Disciplined s) (hstep : Step body s s') : Disciplined s' := by
  cases hstep with
  | call i c hi =>
    refine h.update (fun held horder => ?_) s.shared
    rw [hi] at horder
    rw [horder]
    exact hbody i c
  | tick i hi =>
    refine h.update (fun held horder => ?_) _
    rw [hi] at horder
    exact horder s.shared
  | @lock i name rest hi hfree =>
    intro j
    obtain ⟨held, howns, hpairwise, horder⟩ := h j
    by_cases hj : j = i
    · -- the lock is above those that the process has
      subst hj
      rw [hi] at horder
      exact ⟨name :: held, howns.lock, List.pairwise_cons.mpr ⟨horder.1, hpairwise⟩,
        inOrder_update (fun _ => horder.2) fun hne => absurd rfl hne⟩
    · exact ⟨held, howns.lock_of_ne hfree hj, hpairwise,
        inOrder_update (fun heq => absurd heq hj) fun _ => horder⟩
  | @unlock i name rest hi =>
    obtain ⟨mine, hmine, hlast, hrest⟩ := h i
    rw [hi] at hrest
    obtain ⟨below, rfl, hrest⟩ := hrest
    obtain ⟨hbelow, hlast⟩ := List.pairwise_cons.mp hlast
    intro j
    by_cases hj : j = i
    · subst hj
      have hname : name ∉ below := fun hmem => lt_irrefl name (hbelow name hmem)
      exact ⟨below, hmine.unlock hname, hlast,
        inOrder_update (fun _ => hrest) fun hne => absurd rfl hne⟩
    · obtain ⟨held, howns, hpairwise, horder⟩ := h j
      have hself : s.holder name = some i := (hmine name).mpr List.mem_cons_self
      exact ⟨held, howns.unlock_of_ne hself hj, hpairwise,
        inOrder_update (fun heq => absurd heq hj) fun _ => horder⟩
  | «return» i hi =>
    refine h.update (fun held horder => ?_) s.shared
    rw [hi] at horder
    exact horder
  | environment shared => exact h

/-- Every state reached is one of discipline. -/
theorem disciplined_of_reaches [Preorder k] (hbody : ∀ i c, (body i c).Ordered [] [])
    {shared : σ} (h : Reaches body (System.initial shared) s) : Disciplined s :=
  invariant_of_reaches (fun _ _ hs hstep => hs.step hbody hstep) h fun i =>
    ⟨[], fun name => iff_of_false (fun h => by cases h) List.not_mem_nil, .nil, rfl⟩

/-! ## No process waits for itself -/

omit [DecidableEq ι] [DecidableEq k]

variable [Preorder k]

/-- A process asks only for locks above those that it holds. -/
theorem Disciplined.lt_of_requests (h : Disciplined s) {i : ι} {name other : k}
    (hrequest : s.Requests i name) (hother : s.holder other = some i) : other < name := by
  obtain ⟨rest, hi⟩ := hrequest
  obtain ⟨held, hholder, -, horder⟩ := h i
  rw [hi] at horder
  exact horder.1 other ((hholder other).mp hother)

/-- Of two locks of a process one is above the other. -/
theorem Disciplined.lt_or_lt (h : Disciplined s) {i : ι} {name other : k} (hne : name ≠ other)
    (hname : s.holder name = some i) (hother : s.holder other = some i) :
    name < other ∨ other < name := by
  obtain ⟨held, hholder, hpairwise, -⟩ := h i
  have : Std.Symm fun name other : k => name < other ∨ other < name := ⟨fun _ _ h => h.symm⟩
  have hall := (hpairwise.imp fun hlt => Or.inr hlt : held.Pairwise fun name other =>
    name < other ∨ other < name)
  exact hall.forall ((hholder name).mp hname) ((hholder other).mp hother) hne

omit [Preorder k] in
theorem System.Requests.unique {i : ι} {name other : k} (h : s.Requests i name)
    (hother : s.Requests i other) : name = other := by
  obtain ⟨rest, hrest⟩ := h
  obtain ⟨rest', hrest'⟩ := hother
  rw [hrest] at hrest'
  cases hrest'
  rfl

/-- Along the processes that wait for each other the locks go up. -/
theorem Disciplined.le_of_waitsFor (h : Disciplined s) {i j : ι} {name : k}
    (hrequest : s.Requests i name) (hwaits : Relation.TransGen s.WaitsFor i j) :
    ∃ other, s.holder other = some j ∧ name ≤ other := by
  induction hwaits with
  | single hwait =>
    obtain ⟨other, hother, hholder⟩ := hwait
    exact ⟨other, hholder, le_of_eq (hrequest.unique hother)⟩
  | tail _ hwait ih =>
    obtain ⟨other, hholder, hle⟩ := ih
    obtain ⟨next, hnext, hholder'⟩ := hwait
    exact ⟨next, hholder', hle.trans (h.lt_of_requests hnext hholder).le⟩

/-- No processes wait for each other in a circle. -/
theorem Disciplined.not_waitsFor (h : Disciplined s) (i : ι) :
    ¬ Relation.TransGen s.WaitsFor i i := by
  intro hcircle
  obtain ⟨j, ⟨name, hrequest, hholder⟩, -⟩ := Relation.TransGen.head'_iff.mp hcircle
  obtain ⟨other, hother, hle⟩ := h.le_of_waitsFor hrequest hcircle
  exact lt_irrefl _ (hle.trans_lt (h.lt_of_requests hrequest hother))

/-- While a process runs, one that runs need not wait. -/
theorem Disciplined.exists_running [WellFoundedGT k] (h : Disciplined s) {i : ι}
    (hi : (s.procs i).isSome) : ∃ j, (s.procs j).isSome ∧ ∀ m, ¬ s.WaitsFor j m := by
  by_contra hall
  have hwait (j : ι) (hj : (s.procs j).isSome) : ∃ m, s.WaitsFor j m := by
    by_contra hnone
    exact hall ⟨j, hj, fun m hm => hnone ⟨m, hm⟩⟩
  -- a process that is waited for is above the one that waits
  suffices ∀ (name : k) (j : ι), ¬ s.Requests j name by
    obtain ⟨m, name, hrequest, -⟩ := hwait i hi
    exact this name i hrequest
  intro name
  induction name using WellFoundedGT.induction with
  | ind name ih =>
    intro j hrequest
    have hj : (s.procs j).isSome := by
      obtain ⟨rest, hrest⟩ := hrequest
      rw [hrest]
      rfl
    obtain ⟨m, other, hother, hholder⟩ := hwait j hj
    obtain rfl := hrequest.unique hother
    obtain ⟨held, hheld, -, horder⟩ := h m
    have hm : (s.procs m).isSome := by
      cases hproc : s.procs m with
      | none =>
        rw [hproc] at horder
        have hmem := (hheld name).mp hholder
        rw [horder] at hmem
        cases hmem
      | some code => rfl
    obtain ⟨m', next, hnext, -⟩ := hwait m hm
    exact ih next (h.lt_of_requests hnext hholder) m hnext

end Runs

end VplJail.LockOrder
