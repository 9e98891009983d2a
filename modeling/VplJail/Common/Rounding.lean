import Mathlib.Data.Nat.Log
import Mathlib.Tactic.Ring

/-!
# Rounding to significant digits

A natural number rounded to some significant digits in a base, ties to even: what a floating-point
format does with an integer, and what a decimal notation of limited precision does.
`roundTo_eq_self_iff` says which numbers have that many digits.
-/

namespace VplJail

/-- The multiple of `d` nearest to `n`, as a factor, ties to even. -/
def roundHalfEven (n d : ℕ) : ℕ :=
  if 2 * (n % d) < d ∨ (2 * (n % d) = d ∧ n / d % 2 = 0) then n / d else n / d + 1

/-- The digits that `n` has in a base more than `p`. -/
def excess (base p n : ℕ) : ℕ :=
  Nat.log base n + 1 - p

/-- A number rounded to `p` significant digits. -/
def roundTo (base p n : ℕ) : ℕ :=
  roundHalfEven n (base ^ excess base p n) * base ^ excess base p n

theorem roundHalfEven_mul_self_iff {n d : ℕ} (hd : 0 < d) : roundHalfEven n d * d = n ↔ d ∣ n := by
  refine ⟨fun h => ⟨roundHalfEven n d, by rw [mul_comm, h]⟩, ?_⟩
  rintro ⟨m, rfl⟩
  rw [roundHalfEven, Nat.mul_mod_right, if_pos (.inl (by omega)), Nat.mul_div_cancel_left m hd,
    mul_comm]

variable {base p n : ℕ}

theorem lt_pow_add_excess (hbase : 1 < base) : n < base ^ (p + excess base p n) :=
  (Nat.lt_pow_succ_log_self hbase n).trans_le
    (Nat.pow_le_pow_right (Nat.zero_lt_of_lt hbase) (by unfold excess; omega))

/-- The numbers that are not changed are those with at most `p` significant digits. -/
theorem roundTo_eq_self_iff (hbase : 1 < base) :
    roundTo base p n = n ↔ ∃ m k, m < base ^ p ∧ n = m * base ^ k := by
  have hpow (k : ℕ) : 0 < base ^ k := Nat.pow_pos (Nat.zero_lt_of_lt hbase)
  rw [roundTo, roundHalfEven_mul_self_iff (hpow _)]
  constructor
  · rintro ⟨m, hm⟩
    have hlt := lt_pow_add_excess (p := p) (n := n) hbase
    have hm' : n = m * base ^ excess base p n := hm.trans (mul_comm _ _)
    refine ⟨m, excess base p n, ?_, hm'⟩
    rw [pow_add] at hlt
    exact Nat.lt_of_mul_lt_mul_right (hm'.symm.trans_lt hlt)
  · rintro ⟨m, k, hm, rfl⟩
    by_cases hzero : m * base ^ k = 0
    · rw [hzero]
      exact dvd_zero _
    · -- at most `k` digits are in excess, and these are zeros
      have hlt : m * base ^ k < base ^ (p + k) := by
        rw [pow_add]
        exact Nat.mul_lt_mul_of_pos_right hm (hpow k)
      have hlog := Nat.log_lt_of_lt_pow hzero hlt
      exact (pow_dvd_pow base (by unfold excess; omega)).trans (Nat.dvd_mul_left _ m)

theorem roundTo_of_lt (h : n < base ^ p) (hbase : 1 < base) : roundTo base p n = n :=
  (roundTo_eq_self_iff hbase).mpr ⟨n, 0, h, by rw [pow_zero, mul_one]⟩

theorem roundHalfEven_mul_le (n d : ℕ) : roundHalfEven n d * d ≤ n + d := by
  have hdiv := Nat.div_mul_le_self n d
  unfold roundHalfEven
  split
  · omega
  · rw [Nat.add_one_mul]
    omega

/-- Rounding does not double a number. -/
theorem roundTo_le (hbase : 1 < base) (hp : 0 < p) : roundTo base p n ≤ 2 * n := by
  rcases Nat.lt_or_ge n (base ^ p) with h | h
  · rw [roundTo_of_lt h hbase]
    omega
  · have hn : n ≠ 0 := Nat.ne_of_gt ((Nat.pow_pos (Nat.zero_lt_of_lt hbase)).trans_le h)
    have hpow : base ^ excess base p n ≤ n :=
      (Nat.pow_le_pow_right (Nat.zero_lt_of_lt hbase) (by unfold excess; omega)).trans
        (Nat.pow_log_le_self base hn)
    have := roundHalfEven_mul_le n (base ^ excess base p n)
    unfold roundTo
    omega

end VplJail
