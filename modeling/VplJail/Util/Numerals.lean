import VplJail.Common.Rounding
import VplJail.Util.Text
import Mathlib.Data.Rat.Cast.Order

/-!
# Numerals of doubles

`Util::dtos` prints a `double` by `%lg`: six significant digits, in fixed or exponent notation,
without trailing zeros. `decimalValue` reads such a numeral. What `dtos` prints of an integer is the
integer if it has at most six significant digits (`decimalValue_dtos_iff`).
-/

namespace VplJail.Util

/-! ## Writing -/

/-- An integer as a `double`: 53 significant bits. -/
def toDouble (n : ℤ) : ℤ :=
  n.sign * roundTo 2 53 n.natAbs

/-- The exponent of a numeral, of two digits or more. -/
def exponentText (x : ℕ) : Bytes :=
  ascii "e+" ++ (if x < 10 then [48] else []) ++ decimal x

/-- `%g` with a precision, of a natural number. -/
def printG (precision n : ℕ) : Bytes :=
  let rounded := roundTo 10 precision n
  if rounded < 10 ^ precision then decimal rounded
  else
    let digits := (decimal rounded).rdropWhile (· = 48)
    let mantissa :=
      if digits.tail = [] then digits else digits.take 1 ++ 46 :: digits.tail
    mantissa ++ exponentText ((decimal rounded).length - 1)

/-- `Util::dtos`, of an integer that is converted to `double`. -/
def dtos (value : ℤ) : Bytes :=
  if value < 0 then 45 :: printG 6 (toDouble value).natAbs
  else printG 6 (toDouble value).natAbs

/-! ## Reading -/

/-- What stands behind an optional sign. -/
def readSigned {α : Type} [Neg α] (read : Bytes → Option α) : Bytes → Option α
  | [] => read []
  | b :: s => if b = 45 then (read s).map (- ·) else if b = 43 then read s else read (b :: s)

/-- One digit or more, and nothing else. -/
def readDigits (s : Bytes) : Option ℤ :=
  if s ≠ [] ∧ s.all isDigit then some (digitsValue s) else none

/-- The exponent of a numeral, or nothing. -/
def readExponent : Bytes → Option ℤ
  | [] => some 0
  | b :: s => if b = 101 ∨ b = 69 then readSigned readDigits s else none

/-- The value of a numeral without a sign. -/
def readMagnitude (s : Bytes) : Option ℚ :=
  let whole := s.takeWhile isDigit
  let s := s.dropWhile isDigit
  let fraction := if s.head? = some 46 then s.tail.takeWhile isDigit else []
  let s := if s.head? = some 46 then s.tail.dropWhile isDigit else s
  if whole ++ fraction = [] then none
  else (readExponent s).map fun e : ℤ =>
    digitsValue (whole ++ fraction) * (10 : ℚ) ^ (e - fraction.length)

/-- The value of a decimal numeral. -/
def decimalValue (s : Bytes) : Option ℚ :=
  readSigned readMagnitude s

/-! ## Numerals -/

theorem readSigned_of_isDigit {α : Type} [Neg α] (read : Bytes → Option α) {s : Bytes}
    (h : ∀ b ∈ s.head?, isDigit b = true) : readSigned read s = read s := by
  cases s with
  | nil => rfl
  | cons b s =>
      have hb := h b rfl
      rw [readSigned, if_neg, if_neg]
      · rintro rfl
        cases hb
      · rintro rfl
        cases hb

/-- Digits are taken whole. -/
theorem span_isDigit {ds s : Bytes} (hds : ∀ b ∈ ds, isDigit b = true)
    (hs : ∀ b ∈ s.head?, isDigit b = false) :
    (ds ++ s).takeWhile isDigit = ds ∧ (ds ++ s).dropWhile isDigit = s := by
  rw [List.takeWhile_append_of_pos hds, List.dropWhile_append_of_pos hds]
  cases s with
  | nil => simp
  | cons b s =>
      have hb := hs b rfl
      simp [hb]

theorem readMagnitude_append {whole fraction exponent : Bytes}
    (hwhole : ∀ b ∈ whole, isDigit b = true) (hfraction : ∀ b ∈ fraction, isDigit b = true)
    (hne : whole ≠ []) (hexponent : ∀ b ∈ exponent.head?, isDigit b = false ∧ b ≠ 46) :
    readMagnitude (whole ++ ((if fraction = [] then [] else 46 :: fraction) ++ exponent)) =
      (readExponent exponent).map fun e : ℤ =>
        digitsValue (whole ++ fraction) * (10 : ℚ) ^ (e - fraction.length) := by
  have hdigit : ∀ b ∈ exponent.head?, isDigit b = false := fun b hb => (hexponent b hb).1
  by_cases hfrac : fraction = []
  · subst hfrac
    have hpoint : exponent.head? ≠ some 46 := fun h => (hexponent 46 h).2 rfl
    obtain ⟨htake, hdrop⟩ := span_isDigit hwhole hdigit
    simp only [if_true, List.nil_append, readMagnitude, htake, hdrop, if_neg hpoint,
      List.append_nil, if_neg hne]
  · obtain ⟨htake, hdrop⟩ := span_isDigit (s := 46 :: (fraction ++ exponent)) hwhole
      (by intro b hb; obtain rfl := Option.some.inj hb; rfl)
    obtain ⟨htake', hdrop'⟩ := span_isDigit hfraction hdigit
    simp only [if_neg hfrac, readMagnitude, htake, hdrop, List.cons_append, List.head?_cons,
      if_true, List.tail_cons, htake', hdrop']
    rw [if_neg (List.append_ne_nil_of_left_ne_nil hne _)]

theorem readDigits_decimal (n : ℕ) : readDigits (decimal n) = some (n : ℤ) ∧
    readDigits (48 :: decimal n) = some (n : ℤ) := by
  obtain ⟨d, ds, hd, -⟩ := exists_decimal_eq_cons n
  have hne : decimal n ≠ [] := hd ▸ List.cons_ne_nil _ _
  have hall : (decimal n).all isDigit = true :=
    List.all_eq_true.mpr fun b hb => isDigit_of_mem_decimal hb
  have hzero : digitsValue (48 :: decimal n) = digitsValue (decimal n) := rfl
  rw [readDigits, readDigits, if_pos ⟨hne, hall⟩, if_pos ⟨List.cons_ne_nil _ _, hall⟩, hzero,
    digitsValue_decimal]
  exact ⟨rfl, rfl⟩

theorem readExponent_exponentText (x : ℕ) : readExponent (exponentText x) = some (x : ℤ) := by
  have hdigits : readDigits ((if x < 10 then [48] else []) ++ decimal x) = some (x : ℤ) := by
    split
    · exact (readDigits_decimal x).2
    · exact (readDigits_decimal x).1
  exact hdigits

/-- Zeros at the end multiply by ten. -/
theorem digitsValue_append_zeros (ds : Bytes) (k : ℕ) :
    digitsValue (ds ++ List.replicate k 48) = digitsValue ds * 10 ^ k := by
  induction k with
  | zero => simp
  | succ k ih =>
      rw [List.replicate_succ', ← List.append_assoc, digitsValue, List.foldl_append]
      rw [digitsValue] at ih
      rw [ih, pow_succ]
      simp [digitsValue]
      ring

/-- A number in decimal notation has its value. -/
theorem readMagnitude_decimal (n : ℕ) : readMagnitude (decimal n) = some (n : ℚ) := by
  obtain ⟨d, ds, hd, -⟩ := exists_decimal_eq_cons n
  have h : readMagnitude (decimal n ++ ([] ++ [])) = _ :=
    readMagnitude_append (fun b hb => isDigit_of_mem_decimal hb)
      (fun b hb => absurd hb List.not_mem_nil) (hd ▸ List.cons_ne_nil _ _) fun b hb => by cases hb
  simpa [readExponent, digitsValue_decimal] using h

theorem head_decimal_isDigit (n : ℕ) : ∀ b ∈ (decimal n).head?, isDigit b = true :=
  fun _ hb => isDigit_of_mem_decimal (List.mem_of_mem_head? hb)

theorem decimalValue_itos (n : ℤ) : decimalValue (itos n) = some (n : ℚ) := by
  rw [itos]
  split
  · next hneg =>
      rw [decimalValue, readSigned, if_pos rfl, readMagnitude_decimal, Option.map_some]
      have habs : (n.natAbs : ℤ) = -n := by omega
      have hcast : ((n.natAbs : ℤ) : ℚ) = ((-n : ℤ) : ℚ) := congrArg _ habs
      rw [Int.cast_natCast, Int.cast_neg] at hcast
      rw [hcast, neg_neg]
  · next hneg =>
      rw [decimalValue, readSigned_of_isDigit _ (head_decimal_isDigit _), readMagnitude_decimal]
      have habs : (n.natAbs : ℤ) = n := by omega
      exact congrArg some (congrArg (Int.cast : ℤ → ℚ) habs)

/-- A number in decimal notation, as its digits up to the last that is not zero. -/
theorem decimal_eq_append_zeros {n : ℕ} (h : n ≠ 0) :
    ∃ d ds k, (decimal n).rdropWhile (· = 48) = d :: ds ∧
      decimal n = (d :: ds) ++ List.replicate k 48 := by
  have hsplit := List.rdropWhile_append_rtakeWhile (p := fun b : UInt8 => decide (b = 48))
    (l := decimal n)
  have hzeros : (decimal n).rtakeWhile (fun b => decide (b = 48)) =
      List.replicate ((decimal n).rtakeWhile (fun b => decide (b = 48))).length 48 :=
    List.eq_replicate_of_mem fun b hb => by simpa using List.mem_rtakeWhile_imp hb
  rw [hzeros] at hsplit
  cases hdigits : (decimal n).rdropWhile (fun b => decide (b = 48)) with
  | nil =>
      -- only zeros are those of zero
      rw [hdigits] at hsplit
      have hvalue := digitsValue_append_zeros []
        ((decimal n).rtakeWhile (fun b => decide (b = 48))).length
      rw [hsplit, digitsValue_decimal] at hvalue
      exact absurd (hvalue.trans (Nat.zero_mul _)) h
  | cons d ds =>
      rw [hdigits] at hsplit
      exact ⟨d, ds, _, rfl, hsplit.symm⟩

/-- What is printed has the value of the rounded number. -/
theorem readMagnitude_printG (precision n : ℕ) :
    readMagnitude (printG precision n) = some (roundTo 10 precision n : ℚ) := by
  unfold printG
  generalize roundTo 10 precision n = rounded
  dsimp only
  split
  · exact readMagnitude_decimal rounded
  · next hlarge =>
      -- exponent notation: the zeros at the end are those that the exponent puts back
      have hne : rounded ≠ 0 := by
        rintro rfl
        exact hlarge (Nat.pow_pos (by omega))
      obtain ⟨d, ds, k, hdigits, hdecimal⟩ := decimal_eq_append_zeros hne
      have hall : ∀ b ∈ d :: ds, isDigit b = true := fun b hb =>
        isDigit_of_mem_decimal (hdecimal ▸ List.mem_append_left _ hb)
      obtain ⟨hd, hds⟩ := List.forall_mem_cons.mp hall
      have hexponent : ∀ b ∈ (exponentText ((decimal rounded).length - 1)).head?,
          isDigit b = false ∧ b ≠ 46 := by
        intro b hb
        obtain rfl : 101 = b := Option.some.inj hb
        decide
      have hread := readMagnitude_append (List.forall_mem_singleton.mpr hd) hds
        (List.cons_ne_nil d []) hexponent
      have hmantissa : (if (d :: ds).tail = [] then d :: ds
          else (d :: ds).take 1 ++ 46 :: (d :: ds).tail) =
          [d] ++ if ds = [] then [] else 46 :: ds := by
        cases ds <;> rfl
      rw [hdigits, hmantissa, List.append_assoc, hread, readExponent_exponentText, Option.map_some]
      have hvalue : rounded = digitsValue ([d] ++ ds) * 10 ^ k := by
        rw [← digitsValue_decimal rounded, hdecimal, digitsValue_append_zeros]
        rfl
      have hlength : (((decimal rounded).length - 1 : ℕ) : ℤ) - ds.length = (k : ℤ) := by
        rw [hdecimal, List.length_append, List.length_cons, List.length_replicate]
        omega
      rw [hlength, zpow_natCast]
      exact congrArg some (by exact_mod_cast hvalue.symm)

/-! ## Integers -/

/-- An integer of at most 53 bits is a `double`. -/
theorem toDouble_eq_self {n : ℤ} (hlow : -2 ^ 53 ≤ n) (hhigh : n ≤ 2 ^ 53) : toDouble n = n := by
  have habs : roundTo 2 53 n.natAbs = n.natAbs := by
    rw [roundTo_eq_self_iff Nat.one_lt_two]
    rcases Nat.lt_or_ge n.natAbs (2 ^ 53) with h | h
    · exact ⟨n.natAbs, 0, h, by rw [pow_zero, mul_one]⟩
    · -- 2 ^ 53 itself
      refine ⟨1, 53, by decide, ?_⟩
      omega
  rw [toDouble, habs, Int.sign_mul_natAbs]

/-- A numeral without a sign has its value. -/
theorem decimalValue_of_readMagnitude {s : Bytes} {q : ℚ} (h : readMagnitude s = some q) :
    decimalValue s = some q := by
  cases s with
  | nil => exact h
  | cons b s =>
      rw [decimalValue, readSigned, if_neg, if_neg, h]
      · rintro rfl
        cases h
      · rintro rfl
        cases h

/-- What is printed of an integer up to 2 ^ 53 has the value of the integer rounded to six
digits. -/
theorem decimalValue_dtos {n : ℤ} (hlow : -2 ^ 53 ≤ n) (hhigh : n ≤ 2 ^ 53) :
    decimalValue (dtos n) = some ((n.sign * roundTo 10 6 n.natAbs : ℤ) : ℚ) := by
  rw [dtos, toDouble_eq_self hlow hhigh]
  have hread := readMagnitude_printG 6 n.natAbs
  rcases lt_trichotomy n 0 with hneg | rfl | hpos
  · rw [if_pos hneg, decimalValue, readSigned, if_pos rfl, hread, Int.sign_eq_neg_one_of_neg hneg]
    simp
  · rw [if_neg (lt_irrefl 0), decimalValue_of_readMagnitude hread, Int.natAbs_zero,
      roundTo_of_lt (by decide) (by decide)]
    simp
  · rw [if_neg hpos.not_gt, decimalValue_of_readMagnitude hread, Int.sign_eq_one_of_pos hpos]
    simp

/-- An integer up to 2 ^ 53 is printed exactly if it has at most six significant digits. -/
theorem decimalValue_dtos_iff {n : ℤ} (hlow : -2 ^ 53 ≤ n) (hhigh : n ≤ 2 ^ 53) :
    decimalValue (dtos n) = some (n : ℚ) ↔ ∃ m k, m < 10 ^ 6 ∧ n.natAbs = m * 10 ^ k := by
  rw [decimalValue_dtos hlow hhigh, ← roundTo_eq_self_iff (by decide), Option.some_inj,
    Int.cast_inj]
  constructor
  · intro h
    rcases eq_or_ne n 0 with rfl | hne
    · exact roundTo_of_lt (by decide) (by decide)
    · have habs := congrArg Int.natAbs h
      rwa [Int.natAbs_mul, Int.natAbs_sign_of_ne_zero hne, Nat.one_mul, Int.natAbs_natCast] at habs
  · intro h
    rw [h, Int.sign_mul_natAbs]

theorem mem_printG {precision n : ℕ} {b : UInt8} (h : b ∈ printG precision n) :
    isDigit b = true ∨ b ∈ ascii ".e+" := by
  unfold printG at h
  generalize roundTo 10 precision n = rounded at h
  dsimp only at h
  have hdigits (b : UInt8) (hb : b ∈ (decimal rounded).rdropWhile (· = 48)) : isDigit b = true :=
    isDigit_of_mem_decimal ((List.rdropWhile_prefix _ _).subset hb)
  split at h
  · exact .inl (isDigit_of_mem_decimal h)
  · rcases List.mem_append.mp h with h | h
    · split at h
      · exact .inl (hdigits b h)
      · rcases List.mem_append.mp h with h | h
        · exact .inl (hdigits b (List.mem_of_mem_take h))
        · rcases List.mem_cons.mp h with rfl | h
          · exact .inr (by decide)
          · exact .inl (hdigits b (List.mem_of_mem_tail h))
    · unfold exponentText at h
      rcases List.mem_append.mp h with h | h
      · rcases List.mem_append.mp h with h | h
        · exact .inr (List.mem_cons_of_mem _ h)
        · split at h
          · exact .inl (List.mem_singleton.mp h ▸ rfl)
          · exact absurd h List.not_mem_nil
      · exact .inl (isDigit_of_mem_decimal h)

/-- A numeral has digits, a sign, a point and an exponent. -/
theorem mem_dtos {n : ℤ} {b : UInt8} (h : b ∈ dtos n) : isDigit b = true ∨ b ∈ ascii "-.e+" := by
  unfold dtos at h
  split at h
  · rcases List.mem_cons.mp h with rfl | h
    · exact .inr (by decide)
    · exact (mem_printG h).imp_right (List.mem_cons_of_mem _)
  · exact (mem_printG h).imp_right (List.mem_cons_of_mem _)

end VplJail.Util
