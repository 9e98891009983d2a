import VplJail.Common.Bytes
import Mathlib.Data.List.DropRight
import Mathlib.Data.Nat.Digits.Lemmas
import Mathlib.Tactic.IntervalCases

/-!
# Numbers and text

The conversions between numbers and text that the task configuration goes through, and the string
helpers of `util.h` that the configuration parser uses.
-/

namespace VplJail.Util

/-! ## Numbers -/

/-- `isspace` in the C locale. -/
def isSpace (b : UInt8) : Bool :=
  b == 32 || (decide (9 ≤ b) && decide (b ≤ 13))

/-- `isdigit`: a decimal digit. -/
def isDigit (b : UInt8) : Bool :=
  decide (48 ≤ b) && decide (b ≤ 57)

/-- The number that a string of digits stands for. -/
def digitsValue (ds : Bytes) : ℕ :=
  ds.foldl (fun n d => 10 * n + (d.toNat - 48)) 0

/-- The value clamped to the range of `long` and `long long`. -/
def clamp64 (v : ℤ) : ℤ :=
  max (-2 ^ 63) (min v (2 ^ 63 - 1))

/-- `strtol(s, NULL, 10)`: blanks, a sign, and the digits that follow. -/
def strtol (s : Bytes) : ℤ :=
  match s.dropWhile isSpace with
  | 45 :: ds => clamp64 (-digitsValue (ds.takeWhile isDigit))
  | 43 :: ds => clamp64 (digitsValue (ds.takeWhile isDigit))
  | ds => clamp64 (digitsValue (ds.takeWhile isDigit))

/-- The library's `atoll`. -/
def atoll (s : Bytes) : ℤ :=
  strtol s

/-- The library's `atoi`, which keeps the low 32 bits. -/
def atoi (s : Bytes) : ℤ :=
  (strtol s).bmod (2 ^ 32)

/-- A natural number in decimal notation. -/
def decimal (n : ℕ) : Bytes :=
  if n = 0 then [48] else (Nat.digits 10 n).reverse.map fun d => UInt8.ofNat (48 + d)

/-- `Util::itos`: a number in digits. -/
def itos (value : ℤ) : Bytes :=
  if value < 0 then 45 :: decimal value.natAbs else decimal value.natAbs

/-- A digit is no blank. -/
theorem isSpace_eq_false_of_isDigit {b : UInt8} (h : isDigit b = true) : isSpace b = false := by
  simp only [isDigit, isSpace, Bool.and_eq_true, decide_eq_true_eq, Bool.or_eq_false_iff,
    beq_eq_false_iff_ne, Bool.and_eq_false_iff, decide_eq_false_iff_not, UInt8.le_iff_toNat_le,
    ne_eq, ← UInt8.toNat_inj] at h ⊢
  simp at h ⊢
  omega

/-- A number in decimal notation consists of digits. -/
theorem isDigit_of_mem_decimal {n : ℕ} {b : UInt8} (h : b ∈ decimal n) : isDigit b = true := by
  rw [decimal] at h
  split at h
  · rw [List.mem_singleton.mp h]
    rfl
  · obtain ⟨d, hd, rfl⟩ := List.mem_map.mp h
    have hlt : d < 10 := Nat.digits_lt_base (by omega) (List.mem_reverse.mp hd)
    interval_cases d <;> rfl

/-- `itos` writes digits and a sign. -/
theorem mem_itos {value : ℤ} {b : UInt8} (h : b ∈ itos value) : b = 45 ∨ isDigit b = true := by
  rw [itos] at h
  split at h
  · rcases List.mem_cons.mp h with rfl | h
    · exact .inl rfl
    · exact .inr (isDigit_of_mem_decimal h)
  · exact .inr (isDigit_of_mem_decimal h)

/-- The digits of a number are read back. -/
theorem digitsValue_decimal (n : ℕ) : digitsValue (decimal n) = n := by
  rw [decimal]
  split
  · rename_i h
    rw [h]
    rfl
  · have hdigits : ∀ ds : List ℕ, (∀ d ∈ ds, d < 10) →
        digitsValue (ds.reverse.map fun d => UInt8.ofNat (48 + d)) = Nat.ofDigits 10 ds := by
      intro ds hds
      rw [digitsValue, List.foldl_map, List.foldl_reverse]
      induction ds with
      | nil => rfl
      | cons d ds ih =>
          obtain ⟨hd, hds⟩ := List.forall_mem_cons.mp hds
          rw [List.foldr_cons, ih hds, Nat.ofDigits_cons, UInt8.toNat_ofNat']
          omega
    rw [hdigits _ fun d hd => Nat.digits_lt_base (by omega) hd, Nat.ofDigits_digits]

/-- A number in decimal notation starts with a digit. -/
theorem exists_decimal_eq_cons (n : ℕ) :
    ∃ d ds, decimal n = d :: ds ∧ isDigit d = true ∧ d ≠ 45 ∧ d ≠ 43 ∧ isSpace d = false := by
  have hne : decimal n ≠ [] := by
    rw [decimal]
    split
    · exact List.cons_ne_nil _ _
    · simpa using Nat.digits_ne_nil_iff_ne_zero.mpr ‹¬n = 0›
  obtain ⟨d, ds, h⟩ := List.exists_cons_of_ne_nil hne
  have hd : isDigit d = true := isDigit_of_mem_decimal (h ▸ List.mem_cons_self)
  refine ⟨d, ds, h, hd, ?_, ?_, isSpace_eq_false_of_isDigit hd⟩
  · rintro rfl
    cases hd
  · rintro rfl
    cases hd

/-- The decimal notation has no leading zeros. -/
theorem decimal_of_head_eq {n : ℕ} (h : (decimal n).head? = some 48) : decimal n = [48] := by
  rw [decimal] at h ⊢
  split at h
  · exact if_pos ‹_›
  · rename_i hn
    have hne : Nat.digits 10 n ≠ [] := Nat.digits_ne_nil_iff_ne_zero.mpr hn
    have hlast := Nat.getLast_digit_ne_zero 10 hn
    have hlt : (Nat.digits 10 n).getLast hne < 10 :=
      Nat.digits_lt_base (by omega) (List.getLast_mem hne)
    rw [List.head?_map, List.head?_reverse, List.getLast?_eq_some_getLast hne, Option.map_some] at h
    have hnat := congrArg UInt8.toNat (Option.some.inj h)
    rw [UInt8.toNat_ofNat', show (48 : UInt8).toNat = 48 from rfl] at hnat
    omega

/-- Two numbers are not written alike. -/
theorem itos_injective : Function.Injective itos := by
  have hsign (m n : ℕ) : 45 :: decimal m ≠ decimal n := by
    obtain ⟨d, ds, hd, -, hne, -⟩ := exists_decimal_eq_cons n
    rw [hd]
    exact fun h => hne (List.cons.inj h).1.symm
  have habs {m n : ℤ} (h : decimal m.natAbs = decimal n.natAbs) : m.natAbs = n.natAbs := by
    have hvalue := congrArg digitsValue h
    rwa [digitsValue_decimal, digitsValue_decimal] at hvalue
  intro m n h
  unfold itos at h
  split at h
  · split at h
    · have := habs (List.cons.inj h).2
      omega
    · exact absurd h (hsign _ _)
  · split at h
    · exact absurd h.symm (hsign _ _)
    · have := habs h
      omega

/-- `strtol` reads back what `itos` writes, whatever follows that is no digit. -/
theorem strtol_itos_append {value : ℤ} {rest : Bytes} (hlow : -2 ^ 63 ≤ value)
    (hhigh : value < 2 ^ 63) (hrest : rest.takeWhile isDigit = []) :
    strtol (itos value ++ rest) = value := by
  have hall : (decimal value.natAbs ++ rest).takeWhile isDigit = decimal value.natAbs := by
    rw [List.takeWhile_append_of_pos fun b hb => isDigit_of_mem_decimal hb, hrest, List.append_nil]
  rw [itos]
  split
  · have hdrop : ((45 :: decimal value.natAbs) ++ rest).dropWhile isSpace =
        45 :: (decimal value.natAbs ++ rest) := rfl
    rw [strtol, hdrop]
    simp only [hall, digitsValue_decimal, clamp64]
    omega
  · obtain ⟨d, ds, hd, -, h45, h43, hspace⟩ := exists_decimal_eq_cons value.natAbs
    have hcons : decimal value.natAbs ++ rest = d :: (ds ++ rest) := by rw [hd, List.cons_append]
    have hdrop : (decimal value.natAbs ++ rest).dropWhile isSpace = d :: (ds ++ rest) := by
      rw [hcons, List.dropWhile_cons_of_neg (by simp [hspace])]
    have hmatch : strtol (decimal value.natAbs ++ rest) =
        clamp64 (digitsValue ((d :: (ds ++ rest)).takeWhile isDigit)) := by
      rw [strtol, hdrop]
      split
      · rename_i h
        exact absurd (List.cons.inj h).1 h45
      · rename_i h
        exact absurd (List.cons.inj h).1 h43
      · rfl
    rw [hmatch, ← hcons, hall, digitsValue_decimal, clamp64]
    omega

theorem strtol_itos {value : ℤ} (hlow : -2 ^ 63 ≤ value) (hhigh : value < 2 ^ 63) :
    strtol (itos value) = value := by
  rw [← List.append_nil (itos value)]
  exact strtol_itos_append hlow hhigh rfl

/-- `strtol` of digits alone. -/
theorem strtol_of_forall_isDigit {text : Bytes} (hne : text ≠ [])
    (h : ∀ b ∈ text, isDigit b = true) : strtol text = clamp64 (digitsValue text) := by
  obtain ⟨d, ds, rfl⟩ := List.exists_cons_of_ne_nil hne
  have hd := h d List.mem_cons_self
  have hdrop : (d :: ds).dropWhile isSpace = d :: ds :=
    List.dropWhile_cons_of_neg (by simp [isSpace_eq_false_of_isDigit hd])
  rw [strtol, hdrop]
  split
  · rename_i heq
    rw [(List.cons.inj heq).1] at hd
    exact absurd hd (by decide)
  · rename_i heq
    rw [(List.cons.inj heq).1] at hd
    exact absurd hd (by decide)
  · rw [List.takeWhile_eq_self_iff.mpr h]

/-- `atoi` reads back an `int`. -/
theorem atoi_itos {value : ℤ} (hlow : -2 ^ 31 ≤ value) (hhigh : value < 2 ^ 31) :
    atoi (itos value) = value := by
  rw [atoi, strtol_itos (by omega) (by omega)]
  exact Int.bmod_eq_of_le (by omega) (by omega)

/-! ## Strings -/

/-- `toupper` in the C locale. -/
def toupper (b : UInt8) : UInt8 :=
  if 97 ≤ b ∧ b ≤ 122 then b - 32 else b

/-- `Util::toUppercase`: small letters become capitals. -/
def toUppercase (s : Bytes) : Bytes :=
  s.map toupper

/-- A small letter made a capital one. -/
theorem toNat_sub_32 {b : UInt8} (h : 97 ≤ b ∧ b ≤ 122) :
    (b - 32).toNat = b.toNat - 32 ∧ 97 ≤ b.toNat ∧ b.toNat ≤ 122 := by
  simp only [UInt8.le_iff_toNat_le] at h
  refine ⟨UInt8.toNat_sub_of_le _ _ ?_, h⟩
  rw [UInt8.le_iff_toNat_le]
  exact le_trans (by decide) h.1

theorem toupper_toupper (b : UInt8) : toupper (toupper b) = toupper b := by
  by_cases h : 97 ≤ b ∧ b ≤ 122
  · obtain ⟨hsub, hlow, hhigh⟩ := toNat_sub_32 h
    rw [show toupper b = b - 32 from if_pos h]
    refine if_neg fun h' => ?_
    have := UInt8.le_iff_toNat_le.mp h'.1
    rw [hsub, show (97 : UInt8).toNat = 97 from rfl] at this
    omega
  · rw [show toupper b = b from if_neg h, toupper, if_neg h]

@[simp] theorem toUppercase_toUppercase (s : Bytes) :
    toUppercase (toUppercase s) = toUppercase s := by
  simp [toUppercase, toupper_toupper]

/-- A byte below the letters is no capital of another one. -/
theorem toupper_eq_self {b c : UInt8} (hc : c < 65) (h : toupper b = c) : b = c := by
  by_cases hb : 97 ≤ b ∧ b ≤ 122
  · obtain ⟨hsub, hlow, hhigh⟩ := toNat_sub_32 hb
    rw [show toupper b = b - 32 from if_pos hb] at h
    rw [UInt8.lt_iff_toNat_lt, ← h, hsub, show (65 : UInt8).toNat = 65 from rfl] at hc
    omega
  · rw [← h, show toupper b = b from if_neg hb]

/-- A string of two or more bytes without the quotes around it, if both its ends are `quote`. -/
def removeQuotes (quote : UInt8) (s : Bytes) : Option Bytes :=
  if s.length > 1 ∧ s.head? = some quote ∧ s.getLast? = some quote then some s.tail.dropLast
  else none

/-- `Util::trimAndRemoveQuotes`: the text without blanks and a pair of quotes around it. -/
def trimAndRemoveQuotes (s : Bytes) : Bytes :=
  let s := (s.dropWhile (· = 32)).rdropWhile (· = 32)
  match removeQuotes 39 s with
  | some t => t
  | none => (removeQuotes 34 s).getD s

/-- A string without blanks and quotes is not trimmed. -/
theorem trim_eq_self {s : Bytes} (h : ∀ b ∈ s, b ≠ 32 ∧ b ≠ 39 ∧ b ≠ 34) :
    trimAndRemoveQuotes s = s := by
  have hdrop : s.dropWhile (· = 32) = s := by
    cases s with
    | nil => rfl
    | cons b s => rw [List.dropWhile_cons_of_neg (by simpa using (h b List.mem_cons_self).1)]
  have hrdrop : s.rdropWhile (· = 32) = s := by
    refine List.rdropWhile_eq_self_iff.mpr fun hne => ?_
    simpa using (h _ (List.getLast_mem hne)).1
  have hquotes (quote : UInt8) (hquote : ∀ b ∈ s, b ≠ quote) : removeQuotes quote s = none := by
    refine if_neg fun ⟨_, hhead, _⟩ => ?_
    cases s with
    | nil => cases hhead
    | cons b s => exact hquote b List.mem_cons_self (Option.some.inj hhead)
  simp only [trimAndRemoveQuotes, hdrop, hrdrop, hquotes 39 fun b hb => (h b hb).2.1,
    hquotes 34 fun b hb => (h b hb).2.2, Option.getD_none]

/-- Removing quotes adds nothing. -/
theorem mem_of_mem_removeQuotes {quote b : UInt8} {s t : Bytes} (h : removeQuotes quote s = some t)
    (hb : b ∈ t) : b ∈ s := by
  rw [removeQuotes] at h
  split at h
  · rw [← Option.some.inj h] at hb
    exact List.mem_of_mem_tail (List.mem_of_mem_dropLast hb)
  · cases h

/-- Trimming adds nothing. -/
theorem mem_of_mem_trim {b : UInt8} {s : Bytes} (h : b ∈ trimAndRemoveQuotes s) : b ∈ s := by
  have htrim : ∀ b ∈ (s.dropWhile (· = 32)).rdropWhile (· = 32), b ∈ s := fun b hb =>
    (List.dropWhile_sublist _).mem ((List.rdropWhile_prefix _ _).sublist.mem hb)
  simp only [trimAndRemoveQuotes] at h
  split at h
  · exact htrim b (mem_of_mem_removeQuotes ‹_› h)
  · cases hq : removeQuotes 34 ((s.dropWhile (· = 32)).rdropWhile (· = 32)) with
    | none =>
        rw [hq] at h
        exact htrim b h
    | some t =>
        rw [hq] at h
        exact htrim b (mem_of_mem_removeQuotes hq h)

/-- `removeCRs`: without a line feed the carriage returns become line feeds, else they go. -/
def removeCRs (text : Bytes) : Bytes :=
  if text.contains 10 then text.filter (· != 13) else text.map fun b => if b = 13 then 10 else b

end VplJail.Util
