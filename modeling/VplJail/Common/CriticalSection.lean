import Mathlib.Logic.Function.Basic
import Mathlib.Logic.Relation

/-!
# Critical sections under one lock

Processes call bodies that run under a single exclusive lock, one small step at a time, while the
others go on. `exists_calls_of_reaches` shows that every run is one of whole calls, in the order in
which they get the lock; `reaches_of_calls` that each such order is a run. A guard on the calls that
get the lock restricts both sides alike.
-/

namespace VplJail

/-- An invariant of the steps is one of the runs. -/
theorem invariant_of_reaches {σ : Type*} {r : σ → σ → Prop} {P : σ → Prop}
    (hstep : ∀ s s', P s → r s s' → P s') {s s' : σ} (h : Relation.ReflTransGen r s s') (hs : P s) :
    P s' := by
  induction h with
  | refl => exact hs
  | tail _ hr ih => exact hstep _ _ ih hr

namespace CriticalSection

/-- The body of a critical section on a shared state: steps that update the state and go on by what
they saw of it, up to a result. -/
inductive Prog (σ ρ : Type*)
  | done (result : ρ)
  | step (update : σ → σ) (next : σ → Prog σ ρ)

variable {ι γ σ ρ : Type*}

namespace Prog

/-- A body run to its end. -/
def run : Prog σ ρ → σ → σ × ρ
  | done r, s => (s, r)
  | step update next, s => (next s).run (update s)

/-- A body followed by another one on its result. -/
def bind {τ : Type*} : Prog σ ρ → (ρ → Prog σ τ) → Prog σ τ
  | done r, f => f r
  | step update next, f => .step update fun s => (next s).bind f

instance : Monad (Prog σ) where
  pure := done
  bind := bind

/-- The shared state as it stands. -/
def look : Prog σ σ :=
  .step id .done

/-- A body of a single step. -/
def atomic (f : σ → σ × ρ) : Prog σ ρ :=
  .step (fun s => (f s).1) fun s => .done (f s).2

/-- A change of the shared state. -/
def change (update : σ → σ) : Prog σ Unit :=
  .step update fun _ => .done ()

@[simp] theorem run_pure (r : ρ) (s : σ) : (pure r : Prog σ ρ).run s = (s, r) := rfl

@[simp] theorem run_look (s : σ) : (look : Prog σ σ).run s = (s, s) := rfl

@[simp] theorem run_change (update : σ → σ) (s : σ) : (change update).run s = (update s, ()) := rfl

@[simp] theorem run_atomic (f : σ → σ × ρ) (s : σ) : (atomic f).run s = f s := rfl

theorem run_bind {τ : Type*} (x : Prog σ ρ) (f : ρ → Prog σ τ) (s : σ) :
    (x.bind f).run s = (f (x.run s).2).run (x.run s).1 := by
  induction x generalizing s with
  | done r => rfl
  | step update next ih => exact ih s (update s)

section Except

universe u

variable {ε α β : Type u}

/-- A body that may throw, run to its end. -/
def runExcept (x : ExceptT ε (Prog σ) α) (s : σ) : σ × Except ε α :=
  Prog.run x.run s

@[simp] theorem runExcept_pure (a : α) (s : σ) :
    runExcept (pure a : ExceptT ε (Prog σ) α) s = (s, .ok a) := rfl

@[simp] theorem runExcept_throw (e : ε) (s : σ) :
    runExcept (throw e : ExceptT ε (Prog σ) α) s = (s, .error e) := rfl

@[simp] theorem runExcept_lift (x : Prog σ α) (s : σ) :
    runExcept (ExceptT.lift x : ExceptT ε (Prog σ) α) s = ((x.run s).1, .ok (x.run s).2) :=
  run_bind x _ s

@[simp] theorem runExcept_ofExcept (r : Except ε α) (s : σ) :
    runExcept (ofExcept r : ExceptT ε (Prog σ) α) s = (s, r) := by
  cases r <;> rfl

theorem runExcept_ite (p : Prop) [Decidable p] (x y : ExceptT ε (Prog σ) α) (s : σ) :
    runExcept (if p then x else y) s = if p then runExcept x s else runExcept y s :=
  apply_ite (fun x => runExcept x s) p x y

/-- What is thrown skips the rest. -/
@[simp] theorem runExcept_bind (x : ExceptT ε (Prog σ) α) (f : α → ExceptT ε (Prog σ) β) (s : σ) :
    runExcept (x >>= f) s =
      match runExcept x s with
      | (s', .ok a) => runExcept (f a) s'
      | (s', .error e) => (s', .error e) := by
  have h : runExcept (x >>= f) s = (ExceptT.bindCont f (x.run.run s).2).run (x.run.run s).1 :=
    run_bind x.run _ s
  rw [h, runExcept]
  cases hr : x.run.run s with
  | mk s' r => cases r <;> rfl

/-- A body keeps a property of the state, also when it throws. -/
def Preserves (P : σ → Prop) (x : ExceptT ε (Prog σ) α) : Prop :=
  ∀ s, P s → P (runExcept x s).1

variable {P : σ → Prop}

theorem preserves_pure (a : α) : Preserves P (pure a : ExceptT ε (Prog σ) α) :=
  fun _ hs => hs

theorem preserves_throw (e : ε) : Preserves P (throw e : ExceptT ε (Prog σ) α) :=
  fun _ hs => hs

theorem preserves_ofExcept (r : Except ε α) :
    Preserves P (ofExcept r : ExceptT ε (Prog σ) α) := by
  intro s hs
  rw [runExcept_ofExcept]
  exact hs

theorem preserves_lift {x : Prog σ α} (h : ∀ s, P s → P (x.run s).1) :
    Preserves P (ExceptT.lift x : ExceptT ε (Prog σ) α) := by
  intro s hs
  rw [runExcept_lift]
  exact h s hs

theorem Preserves.bind {x : ExceptT ε (Prog σ) α} {f : α → ExceptT ε (Prog σ) β}
    (hx : Preserves P x) (hf : ∀ a, Preserves P (f a)) : Preserves P (x >>= f) := by
  intro s hs
  have hfirst := hx s hs
  rw [runExcept_bind]
  generalize runExcept x s = outcome at hfirst ⊢
  obtain ⟨s', e | a⟩ := outcome
  · exact hfirst
  · exact hf a s' hfirst

theorem Preserves.ite {p : Prop} [Decidable p] {x y : ExceptT ε (Prog σ) α} (hx : Preserves P x)
    (hy : Preserves P y) : Preserves P (if p then x else y) := by
  split
  · exact hx
  · exact hy

end Except

end Prog

/-- Where a process is. -/
inductive Local (γ σ ρ : Type*)
  | idle
  | waiting (call : γ)
  | inside (call : γ) (rest : Prog σ ρ)

/-- The shared state, the holder of the lock, the processes, and the calls that have returned. -/
structure System (ι γ σ ρ : Type*) where
  shared : σ
  lock : Option ι
  procs : ι → Local γ σ ρ
  log : List (ι × γ × ρ)

/-- Nobody is inside and nothing has returned yet. -/
def System.initial (shared : σ) : System ι γ σ ρ :=
  ⟨shared, none, fun _ => .idle, []⟩

variable [DecidableEq ι] (body : ι → γ → Prog σ ρ) (ok : σ → ι → γ → Prop)

/-- A step of one process. A call gets the lock only if the guard `ok` allows it. -/
inductive Step : System ι γ σ ρ → System ι γ σ ρ → Prop
  | request {s : System ι γ σ ρ} (i : ι) (c : γ) (h : s.procs i = .idle) :
      Step s { s with procs := Function.update s.procs i (.waiting c) }
  | acquire {s : System ι γ σ ρ} (i : ι) (c : γ) (hlock : s.lock = none)
      (h : s.procs i = .waiting c) (hok : ok s.shared i c) :
      Step s { s with lock := some i, procs := Function.update s.procs i (.inside c (body i c)) }
  | tick {s : System ι γ σ ρ} (i : ι) (c : γ) {update : σ → σ} {next : σ → Prog σ ρ}
      (h : s.procs i = .inside c (.step update next)) :
      Step s { s with
        shared := update s.shared
        procs := Function.update s.procs i (.inside c (next s.shared)) }
  | release {s : System ι γ σ ρ} (i : ι) (c : γ) {r : ρ} (h : s.procs i = .inside c (.done r)) :
      Step s { s with
        lock := none
        procs := Function.update s.procs i .idle
        log := s.log ++ [(i, c, r)] }

/-- The runs of the system. -/
abbrev Reaches : System ι γ σ ρ → System ι γ σ ρ → Prop :=
  Relation.ReflTransGen (Step body ok)

/-! ## Whole calls -/

/-- Calls run one after the other. -/
def runCalls (s : σ) : List (ι × γ) → σ × List (ι × γ × ρ)
  | [] => (s, [])
  | (i, c) :: cs =>
      let (s', r) := (body i c).run s
      let (s'', log) := runCalls s' cs
      (s'', (i, c, r) :: log)

/-- The guard holds whenever one of the calls starts. -/
def CallsOk (s : σ) : List (ι × γ) → Prop
  | [] => True
  | (i, c) :: cs => ok s i c ∧ CallsOk ((body i c).run s).1 cs

variable {body ok}

omit [DecidableEq ι] in
theorem runCalls_append (s : σ) (cs cs' : List (ι × γ)) :
    runCalls body s (cs ++ cs') =
      ((runCalls body (runCalls body s cs).1 cs').1,
        (runCalls body s cs).2 ++ (runCalls body (runCalls body s cs).1 cs').2) := by
  induction cs generalizing s with
  | nil => rfl
  | cons c cs ih => simp only [List.cons_append, runCalls, ih]

variable (body) in
omit [DecidableEq ι] in
/-- The log names the calls. -/
theorem map_log_runCalls (s : σ) (cs : List (ι × γ)) :
    (runCalls body s cs).2.map (fun entry => (entry.1, entry.2.1)) = cs := by
  induction cs generalizing s with
  | nil => rfl
  | cons c cs ih => simp only [runCalls, List.map_cons, ih]

omit [DecidableEq ι] in
/-- An entry of the log is that of a call on what the calls before it have left. -/
theorem exists_of_log_eq_append {s : σ} {cs : List (ι × γ)} {before after : List (ι × γ × ρ)}
    {i : ι} {c : γ} {r : ρ} (h : (runCalls body s cs).2 = before ++ (i, c, r) :: after) :
    ∃ cs₁ cs₂, cs = cs₁ ++ (i, c) :: cs₂ ∧ (runCalls body s cs₁).2 = before ∧
      r = ((body i c).run (runCalls body s cs₁).1).2 ∧
      (runCalls body ((body i c).run (runCalls body s cs₁).1).1 cs₂).2 = after := by
  induction cs generalizing s before with
  | nil => exact absurd h.symm (List.append_ne_nil_of_right_ne_nil _ (List.cons_ne_nil _ _))
  | cons call cs ih =>
      obtain ⟨j, d⟩ := call
      rw [runCalls] at h
      cases before with
      | nil =>
          obtain ⟨hentry, hafter⟩ := List.cons.inj h
          cases hentry
          exact ⟨[], cs, rfl, rfl, rfl, hafter⟩
      | cons entry before =>
          obtain ⟨hentry, hrest⟩ := List.cons.inj h
          obtain ⟨cs₁, cs₂, rfl, hbefore, hr, hafter⟩ := ih hrest
          refine ⟨(j, d) :: cs₁, cs₂, rfl, ?_, hr, hafter⟩
          show (j, d, ((body j d).run s).2) :: _ = entry :: before
          rw [hbefore]
          exact congrArg (· :: before) hentry

omit [DecidableEq ι] in
/-- What holds of each call from a state with an invariant holds of the whole log. -/
theorem forall_mem_log {I : σ → Prop} {ok : γ → Prop} {P : ι × γ × ρ → Prop}
    (h : ∀ s i c, I s → ok c → I ((body i c).run s).1 ∧ P (i, c, ((body i c).run s).2))
    {s : σ} (hs : I s) {cs : List (ι × γ)} (hok : ∀ c ∈ cs, ok c.2) :
    I (runCalls body s cs).1 ∧ ∀ entry ∈ (runCalls body s cs).2, P entry := by
  induction cs generalizing s with
  | nil => exact ⟨hs, fun entry hentry => absurd hentry List.not_mem_nil⟩
  | cons c cs ih =>
      obtain ⟨hc, hcs⟩ := List.forall_mem_cons.mp hok
      obtain ⟨hnext, hentry⟩ := h s c.1 c.2 hs hc
      obtain ⟨hlast, hrest⟩ := ih hnext hcs
      exact ⟨hlast, List.forall_mem_cons.mpr ⟨hentry, hrest⟩⟩

omit [DecidableEq ι] in
theorem callsOk_append (s : σ) (cs cs' : List (ι × γ)) :
    CallsOk body ok s (cs ++ cs') ↔
      CallsOk body ok s cs ∧ CallsOk body ok (runCalls body s cs).1 cs' := by
  induction cs generalizing s with
  | nil => simp [CallsOk, runCalls]
  | cons c cs ih => simp only [List.cons_append, CallsOk, runCalls, ih, and_assoc]

omit [DecidableEq ι] in
/-- Any calls are allowed if no call is refused. -/
theorem callsOk_true (body : ι → γ → Prog σ ρ) (s : σ) (cs : List (ι × γ)) :
    CallsOk body (fun _ _ _ => True) s cs := by
  induction cs generalizing s with
  | nil => trivial
  | cons c cs ih => exact ⟨trivial, ih _⟩

section AtMostOnce

variable {use : ι × γ × ρ → Bool} {Good Spent : σ → Prop}

omit [DecidableEq ι] in
/-- Once spent, no call is a use. -/
theorem countP_runCalls_eq_zero
    (hspent : ∀ s i c, Spent s → Spent ((body i c).run s).1 ∧ ¬ use (i, c, ((body i c).run s).2))
    {s : σ} (hs : Spent s) (cs : List (ι × γ)) : (runCalls body s cs).2.countP use = 0 := by
  induction cs generalizing s with
  | nil => rfl
  | cons c cs ih =>
      obtain ⟨hs', huse⟩ := hspent s c.1 c.2 hs
      rw [runCalls, List.countP_cons_of_neg huse]
      exact ih hs'

omit [DecidableEq ι] in
/-- At most one call is a use if a use spends. -/
theorem countP_runCalls_le_one
    (hgood : ∀ s i c, Good s → Good ((body i c).run s).1)
    (hspent : ∀ s i c, Spent s → Spent ((body i c).run s).1 ∧ ¬ use (i, c, ((body i c).run s).2))
    (huse : ∀ s i c, Good s → ok s i c → use (i, c, ((body i c).run s).2) →
      Spent ((body i c).run s).1)
    {s : σ} (hs : Good s) {cs : List (ι × γ)} (hok : CallsOk body ok s cs) :
    (runCalls body s cs).2.countP use ≤ 1 := by
  induction cs generalizing s with
  | nil => exact Nat.zero_le 1
  | cons c cs ih =>
      obtain ⟨hc, hok⟩ := hok
      rw [runCalls]
      by_cases h : use (c.1, c.2, ((body c.1 c.2).run s).2)
      · have hzero := countP_runCalls_eq_zero hspent (huse s c.1 c.2 hs hc h) cs
        rw [List.countP_cons_of_pos h]
        omega
      · rw [List.countP_cons_of_neg h]
        exact ih (hgood s c.1 c.2 hs) hok

end AtMostOnce

section Balance

omit [DecidableEq ι]

/-- What the calls of one kind add and those of another take balances what the state holds. -/
theorem countP_runCalls_balance {adds takes : ι × γ × ρ → Bool} (held : σ → Nat)
    (h : ∀ s i c, (takes (i, c, ((body i c).run s).2)).toNat + held ((body i c).run s).1 =
      (adds (i, c, ((body i c).run s).2)).toNat + held s)
    (s : σ) (cs : List (ι × γ)) :
    (runCalls body s cs).2.countP takes + held (runCalls body s cs).1 =
      (runCalls body s cs).2.countP adds + held s := by
  induction cs generalizing s with
  | nil => rfl
  | cons c cs ih =>
      obtain ⟨i, c⟩ := c
      have hcall := h s i c
      have hrest := ih ((body i c).run s).1
      have hcount (p : ι × γ × ρ → Bool) : (runCalls body s ((i, c) :: cs)).2.countP p =
          (runCalls body ((body i c).run s).1 cs).2.countP p +
            (p (i, c, ((body i c).run s).2)).toNat := by
        rw [runCalls, List.countP_cons]
        cases p (i, c, ((body i c).run s).2) <;> rfl
      have hstate : (runCalls body s ((i, c) :: cs)).1 =
          (runCalls body ((body i c).run s).1 cs).1 := rfl
      rw [hcount, hcount, hstate]
      omega

variable (body) in
/-- Calls of two systems that correspond step by step. -/
theorem runCalls_simulation {τ : Type*} (body' : ι → γ → Prog τ ρ) {R : σ → τ → Prop}
    (h : ∀ s t i c, R s t → R ((body i c).run s).1 ((body' i c).run t).1 ∧
      ((body i c).run s).2 = ((body' i c).run t).2)
    {s : σ} {t : τ} (hR : R s t) (cs : List (ι × γ)) :
    R (runCalls body s cs).1 (runCalls body' t cs).1 ∧
      (runCalls body s cs).2 = (runCalls body' t cs).2 := by
  induction cs generalizing s t with
  | nil => exact ⟨hR, rfl⟩
  | cons c cs ih =>
      obtain ⟨i, c⟩ := c
      obtain ⟨hnext, hresult⟩ := h s t i c hR
      obtain ⟨hlast, hlog⟩ := ih hnext
      refine ⟨hlast, ?_⟩
      show (i, c, ((body i c).run s).2) :: _ = (i, c, ((body' i c).run t).2) :: _
      rw [hresult, hlog]

end Balance

/-- A process that is not in its critical section. -/
def Local.Outside : Local γ σ ρ → Prop
  | inside _ _ => False
  | _ => True

/-- A process that is updated stays outside if it goes outside, the others if they were. -/
theorem outside_update {procs : ι → Local γ σ ρ} {i j : ι} {l : Local γ σ ρ}
    (hself : j = i → l.Outside) (hother : j ≠ i → (procs j).Outside) :
    (Function.update procs i l j).Outside := by
  by_cases hj : j = i
  · rw [hj, Function.update_self]
    exact hself hj
  · rw [Function.update_of_ne hj]
    exact hother hj

/-- What every state reached looks like: whole calls, and the rest of one more while the lock is
held. -/
def Serial (body : ι → γ → Prog σ ρ) (ok : σ → ι → γ → Prop) (init : σ)
    (s : System ι γ σ ρ) : Prop :=
  ∃ cs, CallsOk body ok init cs ∧ s.log = (runCalls body init cs).2 ∧
    match s.lock with
    | none => s.shared = (runCalls body init cs).1 ∧ ∀ i, (s.procs i).Outside
    | some i => ∃ c rest, s.procs i = .inside c rest ∧ ok (runCalls body init cs).1 i c ∧
        rest.run s.shared = (body i c).run (runCalls body init cs).1 ∧
        ∀ j, j ≠ i → (s.procs j).Outside

/-- A process inside its critical section holds the lock. -/
theorem Serial.lock_eq {init : σ} {s : System ι γ σ ρ} (h : Serial body ok init s) {i : ι} {c : γ}
    {rest : Prog σ ρ} (hi : s.procs i = .inside c rest) : s.lock = some i := by
  obtain ⟨cs, -, -, h⟩ := h
  cases hl : s.lock with
  | none =>
      rw [hl] at h
      have := h.2 i
      rw [hi] at this
      exact this.elim
  | some j =>
      rw [hl] at h
      obtain ⟨c', rest', -, -, -, hout⟩ := h
      by_contra hij
      have := hout i fun h => hij (by rw [h])
      rw [hi] at this
      exact this.elim

/-- A step of a process keeps the shape. -/
theorem Serial.step {init : σ} {s s' : System ι γ σ ρ} (h : Serial body ok init s)
    (hstep : Step body ok s s') : Serial body ok init s' := by
  cases hstep with
  | request i c hi =>
      obtain ⟨cs, hok, hlog, h⟩ := h
      refine ⟨cs, hok, hlog, ?_⟩
      dsimp only
      cases hl : s.lock with
      | none =>
          rw [hl] at h
          exact ⟨h.1, fun j => outside_update (fun _ => trivial) fun _ => h.2 j⟩
      | some k =>
          rw [hl] at h
          obtain ⟨c', rest, hk, hok', hrun, hout⟩ := h
          have hki : k ≠ i := by
            rintro rfl
            rw [hi] at hk
            cases hk
          exact ⟨c', rest, by rw [Function.update_of_ne hki, hk], hok', hrun,
            fun j hj => outside_update (fun _ => trivial) fun _ => hout j hj⟩
  | acquire i c hlock hi hok' =>
      obtain ⟨cs, hok, hlog, h⟩ := h
      rw [hlock] at h
      exact ⟨cs, hok, hlog, c, body i c, Function.update_self .., h.1 ▸ hok', by rw [h.1],
        fun j hj => outside_update (fun h => absurd h hj) fun _ => h.2 j⟩
  | tick i c hi =>
      have hlock := h.lock_eq hi
      obtain ⟨cs, hok, hlog, h⟩ := h
      rw [hlock] at h
      obtain ⟨c', rest, hi', hok', hrun, hout⟩ := h
      rw [hi] at hi'
      obtain ⟨rfl, rfl⟩ := Local.inside.inj hi'
      refine ⟨cs, hok, hlog, ?_⟩
      simp only [hlock]
      exact ⟨c, _, Function.update_self .., hok', hrun,
        fun j hj => outside_update (fun h => absurd h hj) fun _ => hout j hj⟩
  | release i c hi =>
      have hlock := h.lock_eq hi
      obtain ⟨cs, hok, hlog, h⟩ := h
      rw [hlock] at h
      obtain ⟨c', rest, hi', hok', hrun, hout⟩ := h
      rw [hi] at hi'
      obtain ⟨rfl, rfl⟩ := Local.inside.inj hi'
      -- the call is one of the whole calls now
      rw [Prog.run] at hrun
      refine ⟨cs ++ [(i, c)], (callsOk_append ..).mpr ⟨hok, hok', trivial⟩, ?_, ?_,
        fun j => outside_update (fun _ => trivial) (hout j)⟩
      · simp [runCalls_append, runCalls, ← hrun, hlog]
      · simp [runCalls_append, runCalls, ← hrun]

/-- Every state reached has this shape. -/
theorem serial_of_reaches {init : σ} {s : System ι γ σ ρ}
    (h : Reaches body ok (System.initial init) s) : Serial body ok init s :=
  invariant_of_reaches (fun _ _ hs hstep => hs.step hstep) h
    ⟨[], trivial, rfl, rfl, fun _ => trivial⟩

/-- Every run is one of whole calls in the order in which they get the lock. -/
theorem exists_calls_of_reaches {init : σ} {s : System ι γ σ ρ}
    (h : Reaches body ok (System.initial init) s) :
    ∃ cs, CallsOk body ok init cs ∧ s.log = (runCalls body init cs).2 := by
  obtain ⟨cs, hok, hlog, -⟩ := serial_of_reaches h
  exact ⟨cs, hok, hlog⟩

omit [DecidableEq ι] in
/-- While nobody is inside, the shared state is that of the whole calls. -/
theorem Serial.shared_eq {init : σ} {s : System ι γ σ ρ} (h : Serial body ok init s) :
    ∃ cs, CallsOk body ok init cs ∧ s.log = (runCalls body init cs).2 ∧
      (s.lock = none → s.shared = (runCalls body init cs).1) := by
  obtain ⟨cs, hok, hlog, h⟩ := h
  refine ⟨cs, hok, hlog, fun hlock => ?_⟩
  rw [hlock] at h
  exact h.1

/-! ## Every order of calls is a run -/

/-- A body runs to its end and releases the lock. -/
theorem reaches_release {s : System ι γ σ ρ} {i : ι} {c : γ} {rest : Prog σ ρ}
    (hi : s.procs i = .inside c rest) :
    Reaches body ok s
      ⟨(rest.run s.shared).1, none, Function.update s.procs i .idle,
        s.log ++ [(i, c, (rest.run s.shared).2)]⟩ := by
  induction rest generalizing s with
  | done r => exact .single (.release i c hi)
  | step update next ih =>
      refine .head (.tick i c hi) ?_
      have := ih s.shared (s := { s with
        shared := update s.shared
        procs := Function.update s.procs i (.inside c (next s.shared)) }) (Function.update_self ..)
      simpa [Prog.run] using this

/-- Each order of calls that the guard allows is a run. -/
theorem reaches_of_calls {init : σ} {cs : List (ι × γ)} (h : CallsOk body ok init cs) :
    Reaches body ok (System.initial init)
      ⟨(runCalls body init cs).1, none, fun _ => .idle, (runCalls body init cs).2⟩ := by
  suffices ∀ (log : List (ι × γ × ρ)) (init : σ), CallsOk body ok init cs →
      Reaches body ok ⟨init, none, fun _ => .idle, log⟩
        ⟨(runCalls body init cs).1, none, fun _ => .idle, log ++ (runCalls body init cs).2⟩ from
    this [] init h
  clear h init
  induction cs with
  | nil =>
      intro log init _
      rw [runCalls, List.append_nil]
  | cons call cs ih =>
      obtain ⟨i, c⟩ := call
      intro log init h
      have hcall : Reaches body ok ⟨init, none, fun _ => .idle, log⟩
          ⟨((body i c).run init).1, none, fun _ => .idle,
            log ++ [(i, c, ((body i c).run init).2)]⟩ := by
        refine .head (.request i c rfl) (.head (.acquire i c rfl (Function.update_self ..) h.1) ?_)
        let s : System ι γ σ ρ := ⟨init, some i, Function.update (Function.update (fun _ => .idle) i
          (.waiting c)) i (.inside c (body i c)), log⟩
        have hrelease : Reaches body ok s _ := reaches_release (Function.update_self ..)
        have hidle : Function.update (Function.update (Function.update (fun _ => .idle) i
            (.waiting c)) i (.inside c (body i c))) i .idle =
              fun _ : ι => (.idle : Local γ σ ρ) := by
          simp
        rw [hidle] at hrelease
        exact hrelease
      refine hcall.trans ?_
      have := ih (log ++ [(i, c, ((body i c).run init).2)]) _ h.2
      rw [List.append_assoc] at this
      exact this

end CriticalSection

end VplJail
