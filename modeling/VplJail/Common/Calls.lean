import VplJail.Common.Triple

/-!
# Programs that call an environment

A program makes calls to an environment, which answers each of them as it likes and may look at all
the calls before. What has been called and answered is kept as the state of the program. It is read
by replaying it: each event has an effect on a state of one's own choice.
-/

namespace VplJail

variable {C : Type} {A : C → Type} {σ ε : Type}

/-- A call with its answer. -/
abbrev CallEvent (A : C → Type) := (c : C) × A c

/-- The calls that have been made, in their order. -/
abbrev Calls (A : C → Type) := List (CallEvent A)

/-- The answers to calls, which may depend on the calls before. -/
abbrev Environment (A : C → Type) := Calls A → (c : C) → A c

/-- A call that the environment answers. -/
def call (env : Environment A) (c : C) : ExceptT ε (StateM (Calls A)) (A c) := do
  let calls ← get
  set (calls ++ [⟨c, env calls c⟩])
  pure (env calls c)

/-- The state after some calls. -/
def replay (effect : σ → CallEvent A → σ) (s : σ) (calls : Calls A) : σ :=
  calls.foldl effect s

theorem replay_append_singleton (effect : σ → CallEvent A → σ) (s : σ) (calls : Calls A)
    (e : CallEvent A) : replay effect s (calls ++ [e]) = effect (replay effect s calls) e :=
  List.foldl_append.trans rfl

/-- Each call, in the light of those before. -/
def EachCall (P : Calls A → CallEvent A → Prop) (calls : Calls A) : Prop :=
  ∀ before e after, calls = before ++ e :: after → P before e

theorem EachCall.nil (P : Calls A → CallEvent A → Prop) : EachCall P [] :=
  fun _ _ _ h => absurd h.symm (List.append_ne_nil_of_right_ne_nil _ (List.cons_ne_nil _ _))

/-- One more call. -/
theorem EachCall.append_singleton {P : Calls A → CallEvent A → Prop} {calls : Calls A}
    {e : CallEvent A} (h : EachCall P calls) (he : P calls e) : EachCall P (calls ++ [e]) := by
  intro before e' after heq
  rcases List.eq_nil_or_concat after with rfl | ⟨after, last, rfl⟩
  · obtain ⟨rfl, hlast⟩ := List.append_inj' heq rfl
    exact (List.cons.inj hlast).1 ▸ he
  · have hsplit : calls ++ [e] = (before ++ e' :: after) ++ [last] := by
      rw [heq, List.concat_eq_append, List.append_assoc]
      rfl
    exact h before e' after (List.append_inj' hsplit rfl).1

namespace Triple

/-- A call adds one event, with any answer. -/
theorem call {env : Environment A} {c : C} {P : Calls A → Prop} {Q : A c → Calls A → Prop}
    {E : ε → Calls A → Prop} (h : ∀ calls a, P calls → Q a (calls ++ [⟨c, a⟩])) :
    Triple P (VplJail.call env c) Q E :=
  fun calls hP => h calls (env calls c) hP

/-- A call whose answer is known. -/
theorem call_answer {env : Environment A} {c : C} {P : Calls A → Prop} {Q : A c → Calls A → Prop}
    {E : ε → Calls A → Prop}
    (h : ∀ calls, P calls → Q (env calls c) (calls ++ [⟨c, env calls c⟩])) :
    Triple P (VplJail.call env c) Q E :=
  fun calls hP => h calls hP

end Triple

end VplJail
