import VplJail.Common.CriticalSection

/-!
# A program among others

A program runs step by step on a state that others change in between. What it knows of the state is
what it has seen, as far as the others keep it: `Knows` is a proof outline of stable facts, and
`Knows.of_reaches` draws the conclusion about the end of every run.
-/

namespace VplJail.Interference

open CriticalSection

variable {σ α ρ : Type*}

/-- A value of the state as it stands. -/
def ask (f : σ → α) : Prog σ α :=
  .step id fun s => .done (f s)

@[simp] theorem run_ask (f : σ → α) (s : σ) : (ask f).run s = (s, f s) := rfl

/-- A value is asked for, and the program goes on. -/
theorem run_ask_bind (f : σ → α) (g : α → Prog σ ρ) (s : σ) :
    ((ask f).bind g).run s = (g (f s)).run s := rfl

theorem run_ite (p : Prop) [Decidable p] (x y : Prog σ ρ) (s : σ) :
    (if p then x else y).run s = if p then x.run s else y.run s :=
  apply_ite (fun x => x.run s) p x y

/-- A step of the program, or of the others. -/
inductive Step (R : σ → σ → Prop) : σ × Prog σ ρ → σ × Prog σ ρ → Prop
  | around {s s' : σ} {x : Prog σ ρ} (h : R s s') : Step R (s, x) (s', x)
  | own {s : σ} {update : σ → σ} {next : σ → Prog σ ρ} :
      Step R (s, .step update next) (update s, next s)

/-- The runs of a program among others. -/
abbrev Reaches (R : σ → σ → Prop) : σ × Prog σ ρ → σ × Prog σ ρ → Prop :=
  Relation.ReflTransGen (Step R)

/-- The others keep a fact. -/
def Stable (R : σ → σ → Prop) (K : σ → Prop) : Prop :=
  ∀ s s', R s s' → K s → K s'

/-- A program that knows `K` when it starts finds stable facts at each step from which `Q` follows in
the end. -/
def Knows (R : σ → σ → Prop) (Q : ρ → σ → Prop) : Prog σ ρ → (σ → Prop) → Prop
  | .done r, K => ∀ s, K s → Q r s
  | .step update next, K =>
      ∀ s, K s → ∃ K', Stable R K' ∧ K' (update s) ∧ Knows R Q (next s) K'

/-- A program that only looks. -/
def Quiet : Prog σ ρ → Prop
  | .done _ => True
  | .step update next => update = id ∧ ∀ s, Quiet (next s)

variable {R : σ → σ → Prop} {Q : ρ → σ → Prop} {K : σ → Prop}

/-- What a program knows in the end of a run holds there. -/
theorem Knows.of_reaches {s s' : σ} {x : Prog σ ρ} {r : ρ} (h : Knows R Q x K) (hK : Stable R K)
    (hs : K s) (hreach : Reaches R (s, x) (s', .done r)) : Q r s' := by
  have hinv : ∀ a b : σ × Prog σ ρ, (∃ K, Stable R K ∧ K a.1 ∧ Knows R Q a.2 K) → Step R a b →
      ∃ K, Stable R K ∧ K b.1 ∧ Knows R Q b.2 K := by
    rintro a b ⟨K, hstable, hKa, hknows⟩ hstep
    cases hstep with
    | around hR => exact ⟨K, hstable, hstable _ _ hR hKa, hknows⟩
    | own => exact hknows _ hKa
  obtain ⟨K', -, hKs', hknows⟩ := invariant_of_reaches hinv hreach ⟨K, hK, hs, h⟩
  exact hknows s' hKs'

/-- A value is asked for, and what it tells is kept. -/
theorem Knows.ask {f : σ → α} {g : α → Prog σ ρ}
    (h : ∀ s, K s → ∃ K', Stable R K' ∧ K' s ∧ Knows R Q (g (f s)) K') :
    Knows R Q ((ask f).bind g) K := h

/-- A value is asked for, and what was known is enough. -/
theorem Knows.ask_same {f : σ → α} {g : α → Prog σ ρ} (hK : Stable R K)
    (h : ∀ a, Knows R Q (g a) K) : Knows R Q ((Interference.ask f).bind g) K :=
  .ask fun s hs => ⟨K, hK, hs, h (f s)⟩

/-- A program that only looks finds a stable fact still there. -/
theorem Knows.of_quiet {x : Prog σ ρ} (hx : Quiet x) (hK : Stable R K) (h : ∀ r s, K s → Q r s) :
    Knows R Q x K := by
  induction x with
  | done r => exact h r
  | step update next ih =>
    obtain ⟨rfl, hnext⟩ := hx
    exact fun s hs => ⟨K, hK, hs, ih s (hnext s)⟩

/-- Nothing has to be known for a result that needs nothing. -/
theorem Knows.done_of {r : ρ} (h : ∀ s, Q r s) : Knows R Q (.done r) K :=
  fun s _ => h s

theorem Quiet.bind {x : Prog σ α} {f : α → Prog σ ρ} (hx : Quiet x) (h : ∀ a, Quiet (f a)) :
    Quiet (x.bind f) := by
  induction x with
  | done a => exact h a
  | step update next ih => exact ⟨hx.1, fun s => ih s (hx.2 s)⟩

theorem quiet_ask (f : σ → α) : Quiet (ask f) :=
  ⟨rfl, fun _ => trivial⟩

/-! ## Schedules -/

/-- A run by a schedule of actions of the others, and of steps of the program. -/
def runSchedule {β : Type*} (act : σ → β → Option σ) :
    List (Option β) → σ × Prog σ ρ → σ × Prog σ ρ
  | [], a => a
  | some b :: rest, (s, x) => runSchedule act rest ((act s b).getD s, x)
  | none :: rest, (s, .done r) => runSchedule act rest (s, .done r)
  | none :: rest, (s, .step update next) => runSchedule act rest (update s, next s)

/-- A schedule is a run. -/
theorem reaches_runSchedule {β : Type*} {act : σ → β → Option σ}
    (hact : ∀ b s s', act s b = some s' → R s s') (schedule : List (Option β))
    (a : σ × Prog σ ρ) : Reaches R a (runSchedule act schedule a) := by
  induction schedule generalizing a with
  | nil => exact .refl
  | cons entry rest ih =>
    obtain ⟨s, x⟩ := a
    cases entry with
    | some b =>
      rw [runSchedule]
      cases hb : act s b with
      | none => exact ih (s, x)
      | some s' => exact .head (.around (hact b s s' hb)) (ih (s', x))
    | none =>
      cases x with
      | done r => exact ih (s, .done r)
      | step update next => exact .head .own (ih (update s, next s))

/-- The result of a program that has ended. -/
def result : Prog σ ρ → Option ρ
  | .done r => some r
  | .step _ _ => none

/-- A schedule at whose end there is a result. -/
theorem reaches_of_result {β : Type*} {act : σ → β → Option σ}
    (hact : ∀ b s s', act s b = some s' → R s s') (schedule : List (Option β))
    (a : σ × Prog σ ρ) {r : ρ} (h : result (runSchedule act schedule a).2 = some r) :
    Reaches R a ((runSchedule act schedule a).1, .done r) := by
  have hreach := reaches_runSchedule hact schedule a
  generalize runSchedule act schedule a = out at h hreach ⊢
  obtain ⟨s, x⟩ := out
  cases x with
  | done r' =>
    obtain rfl := Option.some.inj h
    exact hreach
  | step update next => cases h

end VplJail.Interference
