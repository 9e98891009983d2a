import Mathlib.Init

/-!
# Triples for programs that may stop early

A program of `ExceptT ε (StateM σ)` ends with a value or stops with an exit, and leaves a state in
both cases. `Triple P m Q E` says that from a state with `P` the program `m` ends in a state with `Q`
or stops in one with `E`. There is a rule for each construction; an invariant is a triple whose three
conditions are the same (`Keeps`).
-/

namespace VplJail

variable {σ ε α β : Type}

theorem run_bind_of_ok {m : ExceptT ε (StateM σ) α} {f : α → ExceptT ε (StateM σ) β} {s s' : σ}
    {a : α} (h : m.run.run s = (.ok a, s')) : (m >>= f).run.run s = (f a).run.run s' := by
  rw [ExceptT.run_bind, StateT.run_bind, h]
  rfl

theorem run_tryCatch_of_error {m : ExceptT ε (StateM σ) α} {f : ε → ExceptT ε (StateM σ) α} {s s' : σ}
    {e : ε} (h : m.run.run s = (.error e, s')) :
    (tryCatch m f).run.run s = (f e).run.run s' := by
  have hcatch : (tryCatch m f).run = m.run >>= fun x =>
      match x with
      | Except.ok a => Pure.pure (Except.ok a)
      | Except.error e => (f e).run := rfl
  rw [hcatch, StateT.run_bind, h]
  rfl

theorem run_bind_get (f : σ → ExceptT ε (StateM σ) α) (s : σ) :
    (get >>= f : ExceptT ε (StateM σ) α).run.run s = (f s).run.run s :=
  rfl

theorem run_bind_set (s' : σ) (f : PUnit → ExceptT ε (StateM σ) α) (s : σ) :
    (set s' >>= f : ExceptT ε (StateM σ) α).run.run s = (f ⟨⟩).run.run s' :=
  rfl

theorem run_bind_modify (f : σ → σ) (g : PUnit → ExceptT ε (StateM σ) α) (s : σ) :
    (modify f >>= g : ExceptT ε (StateM σ) α).run.run s = (g ⟨⟩).run.run (f s) :=
  rfl

/-- From a state with `P`, the program ends with `Q` or stops with `E`. -/
def Triple (P : σ → Prop) (m : ExceptT ε (StateM σ) α) (Q : α → σ → Prop) (E : ε → σ → Prop) :
    Prop :=
  ∀ s, P s → match m.run.run s with
    | (.ok a, s') => Q a s'
    | (.error e, s') => E e s'

namespace Triple

variable {P P' : σ → Prop} {Q Q' : α → σ → Prop} {E E' : ε → σ → Prop}

theorem pure {a : α} (h : ∀ s, P s → Q a s) :
    Triple P (Pure.pure a : ExceptT ε (StateM σ) α) Q E :=
  fun s hs => h s hs

theorem throw {e : ε} (h : ∀ s, P s → E e s) :
    Triple P (MonadExcept.throw e : ExceptT ε (StateM σ) α) Q E :=
  fun s hs => h s hs

theorem get {Q : σ → σ → Prop} (h : ∀ s, P s → Q s s) :
    Triple P (MonadState.get : ExceptT ε (StateM σ) σ) Q E :=
  fun s hs => h s hs

theorem set {s' : σ} {Q : PUnit → σ → Prop} (h : ∀ s, P s → Q ⟨⟩ s') :
    Triple P (MonadStateOf.set s' : ExceptT ε (StateM σ) PUnit) Q E :=
  fun s hs => h s hs

theorem modify {f : σ → σ} {Q : PUnit → σ → Prop} (h : ∀ s, P s → Q ⟨⟩ (f s)) :
    Triple P (modify f : ExceptT ε (StateM σ) PUnit) Q E :=
  fun s hs => h s hs

theorem bind {m : ExceptT ε (StateM σ) α} {f : α → ExceptT ε (StateM σ) β}
    {R : β → σ → Prop} (hm : Triple P m Q E) (hf : ∀ a, Triple (Q a) (f a) R E) :
    Triple P (m >>= f) R E := by
  intro s hs
  have hms := hm s hs
  rw [ExceptT.run_bind, StateT.run_bind]
  cases hrun : m.run.run s with
  | mk x s' =>
    rw [hrun] at hms
    cases x with
    | ok a => exact hf a s' hms
    | error e => exact hms

/-- A program that starts with `get` may be followed from each state on its own. -/
theorem bind_get {f : σ → ExceptT ε (StateM σ) α}
    (h : ∀ s, P s → Triple (fun s' => s' = s) (f s) Q E) :
    Triple P (MonadState.get >>= f) Q E :=
  fun s hs => h s hs s rfl

theorem ite {c : Prop} [Decidable c] {m m' : ExceptT ε (StateM σ) α}
    (ht : c → Triple P m Q E) (hf : ¬ c → Triple P m' Q E) :
    Triple P (if c then m else m') Q E := by
  by_cases hc : c
  · rw [if_pos hc]
    exact ht hc
  · rw [if_neg hc]
    exact hf hc

/-- Where the program stops, its handler goes on from there. -/
theorem tryCatch {m : ExceptT ε (StateM σ) α} {f : ε → ExceptT ε (StateM σ) α}
    (hm : Triple P m Q E) (hf : ∀ e, Triple (E e) (f e) Q E') :
    Triple P (MonadExcept.tryCatch m f) Q E' := by
  intro s hs
  have hms := hm s hs
  have hcatch : (MonadExcept.tryCatch m f).run = m.run >>= fun x =>
      match x with
      | Except.ok a => Pure.pure (Except.ok a)
      | Except.error e => (f e).run := rfl
  rw [hcatch, StateT.run_bind]
  cases h : m.run.run s with
  | mk x s' =>
    rw [h] at hms
    cases x with
    | ok a => exact hms
    | error e => exact hf e s' hms

theorem weaken {m : ExceptT ε (StateM σ) α} (h : Triple P m Q E) (hP : ∀ s, P' s → P s)
    (hQ : ∀ a s, Q a s → Q' a s) (hE : ∀ e s, E e s → E' e s) : Triple P' m Q' E' := by
  intro s hs
  have hms := h s (hP s hs)
  cases hrun : m.run.run s with
  | mk x s' =>
    rw [hrun] at hms
    cases x with
    | ok a => exact hQ a s' hms
    | error e => exact hE e s' hms

/-- A triple is used at a single state. -/
theorem at_state {m : ExceptT ε (StateM σ) α} {s : σ} (h : Triple P m Q E) (hs : P s) :
    Triple (fun s' => s' = s) m Q E :=
  h.weaken (fun _ heq => heq ▸ hs) (fun _ _ hQ => hQ) fun _ _ hE => hE

/-- A triple may be proved at each state on its own. -/
theorem of_states {m : ExceptT ε (StateM σ) α}
    (h : ∀ s, P s → Triple (fun s' => s' = s) m Q E) : Triple P m Q E :=
  fun s hs => h s hs s rfl

/-- What holds however a program ends holds in its last state. -/
theorem final {m : ExceptT ε (StateM σ) α} {I : σ → Prop}
    (h : Triple P m (fun _ => I) (fun _ => I)) {s : σ} (hs : P s) : I (m.run.run s).2 := by
  have hrun := h s hs
  cases hm : m.run.run s with
  | mk x s' =>
    rw [hm] at hrun
    cases x <;> exact hrun

end Triple

/-- The program keeps `I`, however it ends. -/
def Keeps (I : σ → Prop) (m : ExceptT ε (StateM σ) α) : Prop :=
  Triple I m (fun _ => I) (fun _ => I)

end VplJail
