import Mathlib.Data.Nat.Find

/-!
# Attempts

A loop makes one attempt after another until one of them fails or gives a value. Where an invariant
tells which attempts let the loop go on, `retry_cases` tells how the loop ends.
-/

namespace VplJail.Retry

variable {σ α ε : Type*}

/-- At most `n` attempts from the number `i` on. One that gives no value lets the loop go on. -/
def retry (attempt : ℕ → σ → σ × Except ε (Option α)) (exhausted : ε) :
    ℕ → ℕ → σ → σ × Except ε α
  | 0, _, s => (s, .error exhausted)
  | n + 1, i, s =>
      match attempt i s with
      | (s', .error e) => (s', .error e)
      | (s', .ok (some a)) => (s', .ok a)
      | (s', .ok none) => retry attempt exhausted n (i + 1) s'

/-- What is known before each attempt tells the outcome. -/
theorem retry_induction {attempt : ℕ → σ → σ × Except ε (Option α)} {exhausted : ε} {P : σ → Prop}
    {Q : σ → Except ε α → Prop}
    (hgo : ∀ i s s', P s → attempt i s = (s', .ok none) → P s')
    (hend : ∀ i s s' r, P s → attempt i s = (s', Except.map some r) → Q s' r)
    (hexhausted : ∀ s, P s → Q s (.error exhausted)) {n i : ℕ} {s : σ} (hs : P s) :
    Q (retry attempt exhausted n i s).1 (retry attempt exhausted n i s).2 := by
  induction n generalizing i s with
  | zero => exact hexhausted s hs
  | succ n ih =>
    rw [retry]
    rcases hattempt : attempt i s with ⟨s', e | a | a⟩
    · exact hend i s s' (.error e) hs hattempt
    · exact ih (hgo i s s' hs hattempt)
    · exact hend i s s' (.ok a) hs hattempt
/-- What is known before each attempt, and which attempts end the loop. -/
structure Outline (attempt : ℕ → σ → σ × Except ε (Option α)) (Inv : ℕ → σ → Prop)
    (Ends : ℕ → Prop) : Prop where
  goesOn : ∀ i s, Inv i s → ¬ Ends i → ∃ s', attempt i s = (s', .ok none) ∧ Inv (i + 1) s'
  ends : ∀ i s, Inv i s → Ends i → (attempt i s).2 ≠ .ok none

section Outline

variable {attempt : ℕ → σ → σ × Except ε (Option α)} {Inv : ℕ → σ → Prop} {Ends : ℕ → Prop}

/-- No attempt ends the loop. -/
theorem retry_of_forall_not_ends (h : Outline attempt Inv Ends) (exhausted : ε) {n i : ℕ} {s : σ}
    (hs : Inv i s) (hgo : ∀ k, i ≤ k → k < i + n → ¬ Ends k) :
    ∃ s', Inv (i + n) s' ∧ retry attempt exhausted n i s = (s', .error exhausted) := by
  induction n generalizing i s with
  | zero => exact ⟨s, hs, rfl⟩
  | succ n ih =>
    obtain ⟨s', hattempt, hs'⟩ := h.goesOn i s hs (hgo i le_rfl (by omega))
    rw [retry, hattempt]
    have hrest := ih hs' fun k hik hkn => hgo k (by omega) (by omega)
    rwa [Nat.add_right_comm] at hrest

/-- An attempt that ends the loop tells its result. -/
theorem retry_succ_of_ends (h : Outline attempt Inv Ends) (exhausted : ε) (n : ℕ) {k : ℕ} {s : σ}
    (hs : Inv k s) (hk : Ends k) : ∃ s' r, attempt k s = (s', Except.map some r) ∧
      retry attempt exhausted (n + 1) k s = (s', r) := by
  have hne := h.ends k s hs hk
  rw [retry]
  generalize attempt k s = out at hne ⊢
  rcases out with ⟨s', e | a | a⟩
  · exact ⟨s', .error e, rfl, rfl⟩
  · exact absurd rfl hne
  · exact ⟨s', .ok a, rfl, rfl⟩

/-- The first attempt that ends the loop is the last. -/
theorem retry_of_ends (h : Outline attempt Inv Ends) (exhausted : ε) {n i k : ℕ} {s : σ}
    (hs : Inv i s) (hik : i ≤ k) (hkn : k < i + n) (hk : Ends k)
    (hbefore : ∀ j, i ≤ j → j < k → ¬ Ends j) :
    ∃ before s' r, Inv k before ∧ attempt k before = (s', Except.map some r) ∧
      retry attempt exhausted n i s = (s', r) := by
  induction n generalizing i s with
  | zero => omega
  | succ n ih =>
    rcases Nat.eq_or_lt_of_le hik with rfl | hlt
    · obtain ⟨s', r, hattempt, hrun⟩ := retry_succ_of_ends h exhausted n hs hk
      exact ⟨s, s', r, hs, hattempt, hrun⟩
    · obtain ⟨s', hattempt, hs'⟩ := h.goesOn i s hs (hbefore i le_rfl hlt)
      rw [retry, hattempt]
      exact ih hs' hlt (by omega) fun j hij hjk => hbefore j (by omega) hjk

/-- The loop is exhausted, or one of the attempts ends it. -/
theorem retry_cases (h : Outline attempt Inv Ends) (exhausted : ε) (n : ℕ) {s : σ} (hs : Inv 0 s) :
    (∀ k < n, ¬ Ends k) ∧
        (∃ s', Inv n s' ∧ retry attempt exhausted n 0 s = (s', .error exhausted)) ∨
      ∃ k < n, Ends k ∧ (∀ j < k, ¬ Ends j) ∧ ∃ before s' r, Inv k before ∧
        attempt k before = (s', Except.map some r) ∧ retry attempt exhausted n 0 s = (s', r) := by
  classical
  by_cases hex : ∃ k, k < n ∧ Ends k
  · obtain ⟨hlt, hk⟩ := Nat.find_spec hex
    have hbefore (j : ℕ) (hj : j < Nat.find hex) : ¬ Ends j := fun hend =>
      Nat.find_min hex hj ⟨by omega, hend⟩
    exact .inr ⟨_, hlt, hk, hbefore, retry_of_ends h exhausted hs (Nat.zero_le _) (by omega) hk
      fun j _ hj => hbefore j hj⟩
  · have hgo (k : ℕ) (hk : k < n) : ¬ Ends k := fun hend => hex ⟨k, hk, hend⟩
    have hrun := retry_of_forall_not_ends h exhausted hs (n := n) fun k _ hk => hgo k (by omega)
    rw [Nat.zero_add] at hrun
    exact .inl ⟨hgo, hrun⟩

end Outline

end VplJail.Retry
