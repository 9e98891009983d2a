import Mathlib.Tactic.Common

/-!
# UTF-16

Sequences of code units, and the scalar values that they stand for when every surrogate without its
other half is replaced.
-/

namespace VplJail.Util

/-- The first half of a surrogate pair. -/
def IsHigh (n : ℕ) : Prop :=
  0xD800 ≤ n ∧ n < 0xDC00

/-- The second half. -/
def IsLow (n : ℕ) : Prop :=
  0xDC00 ≤ n ∧ n < 0xE000

instance (n : ℕ) : Decidable (IsHigh n) :=
  inferInstanceAs (Decidable (_ ∧ _))

instance (n : ℕ) : Decidable (IsLow n) :=
  inferInstanceAs (Decidable (_ ∧ _))

/-- The scalar value of a pair. -/
def pairValue (high low : ℕ) : ℕ :=
  0x10000 + 0x400 * (high - 0xD800) + (low - 0xDC00)

/-- The scalar value of a unit that is in no pair. -/
def loneValue (n : ℕ) : ℕ :=
  if IsHigh n ∨ IsLow n then 0xFFFD else n

/-- The scalar values of a sequence of units. -/
def decodeUtf16 : List ℕ → List ℕ
  | [] => []
  | [n] => [loneValue n]
  | n :: n' :: rest =>
      if IsHigh n ∧ IsLow n' then pairValue n n' :: decodeUtf16 rest
      else loneValue n :: decodeUtf16 (n' :: rest)

/-- The units of a scalar value. -/
def encodeUtf16 (n : ℕ) : List ℕ :=
  if n < 0x10000 then [n]
  else [0xD800 + (n - 0x10000) / 0x400, 0xDC00 + (n - 0x10000) % 0x400]

variable {n : ℕ} {rest : List ℕ}

theorem decodeUtf16_pair {low : ℕ} (hhigh : IsHigh n) (hlow : IsLow low) :
    decodeUtf16 (n :: low :: rest) = pairValue n low :: decodeUtf16 rest := by
  rw [decodeUtf16, if_pos ⟨hhigh, hlow⟩]

/-- A unit that does not start a pair. -/
theorem decodeUtf16_lone (h : IsHigh n → ∀ low ∈ rest.head?, ¬ IsLow low) :
    decodeUtf16 (n :: rest) = loneValue n :: decodeUtf16 rest := by
  cases rest with
  | nil => rfl
  | cons n' rest =>
    rw [decodeUtf16, if_neg]
    rintro ⟨hhigh, hlow⟩
    exact h hhigh n' rfl hlow

theorem loneValue_of_lt (h : n < 0xD800 ∨ 0xE000 ≤ n) : loneValue n = n := by
  refine if_neg ?_
  rw [IsHigh, IsLow]
  omega

/-- A scalar value is read back. -/
theorem decodeUtf16_encodeUtf16 (hvalid : n < 0xD800 ∨ 0xE000 ≤ n) (hmax : n < 0x110000) :
    decodeUtf16 (encodeUtf16 n ++ rest) = n :: decodeUtf16 rest := by
  rw [encodeUtf16]
  split
  · have hnot : ¬ IsHigh n := fun h => by
      obtain ⟨hlow, hhigh⟩ := h
      omega
    rw [List.singleton_append, decodeUtf16_lone (fun h => absurd h hnot), loneValue_of_lt hvalid]
  · have hhigh : IsHigh (0xD800 + (n - 0x10000) / 0x400) := ⟨by omega, by omega⟩
    have hlow : IsLow (0xDC00 + (n - 0x10000) % 0x400) := ⟨by omega, by omega⟩
    have hvalue : pairValue (0xD800 + (n - 0x10000) / 0x400)
        (0xDC00 + (n - 0x10000) % 0x400) = n := by
      unfold pairValue
      omega
    rw [List.cons_append, List.singleton_append, decodeUtf16_pair hhigh hlow, hvalue]

/-- It does not start with the second half of a pair. -/
theorem not_isLow_encodeUtf16 (hvalid : n < 0xD800 ∨ 0xE000 ≤ n) (hmax : n < 0x110000) :
    ∀ low ∈ (encodeUtf16 n ++ rest).head?, ¬ IsLow low := by
  intro low hlow
  rw [encodeUtf16] at hlow
  rintro ⟨hleast, hmost⟩
  split at hlow
  · have heq := Option.some.inj hlow
    omega
  · have heq := Option.some.inj hlow
    omega

end VplJail.Util
