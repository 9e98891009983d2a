import VplJail.Common.PosixRegex
import VplJail.Util.Text

/-!
# Memory sizes

`memSizeToBytesl` reads a number of bytes with a unit, and `memSizeToBytesi` clamps it to an `int`.
The digits are clamped to a `long long`, but their product with the unit is not, so a size that is too
large may come out as a small one: `saturates_iff` tells which sizes do not.
-/

namespace VplJail.Util

open PosixRegex

/-- A blank of `regMemSize`. -/
def isBlank (b : UInt8) : Bool :=
  b == 32 || b == 9

/-- A letter of a unit. -/
def isUnit (b : UInt8) : Bool :=
  b == 71 || b == 103 || b == 77 || b == 109 || b == 75 || b == 107

/-- `regMemSize`, which is `^[ \t]*([0-9]+)[ \t]*([GgMmKk]?)` -/
def regMemSize : List (Item UInt8) :=
  [.star isBlank, .plus isDigit, .star isBlank, .opt isUnit]

/-- `INT_MAX` of `memSizeToBytesi` -/
def maxInt : ℤ := 2 ^ 31 - 1

/-- `Util::memAbbreviation`: the unit of a size. -/
def memAbbreviation (abbreviation : Bytes) : ℤ :=
  match abbreviation with
  | [] => 1
  | abb :: _ =>
      if abb = 75 ∨ abb = 107 then 1024
      else if abb = 77 ∨ abb = 109 then 1024 * 1024
      else if abb = 71 ∨ abb = 103 then 1024 * 1024 * 1024
      else 1

/-- `Util::memSizeToBytesl`. The product is that of `long long`s. -/
def memSizeToBytesl (memSize : Bytes) : ℤ :=
  match search regMemSize (cstr memSize) with
  | some [_, number, _, abbreviation] =>
      (atoll number * memAbbreviation abbreviation).bmod (2 ^ 64)
  | _ => 0

/-- `Util::memSizeToBytesi`: a size with its unit as a number of bytes. -/
def memSizeToBytesi (s : Bytes) : ℤ :=
  let value := memSizeToBytesl s
  if maxInt < value ∨ value ≤ 0 then maxInt else value

/-! ## Texts of sizes -/

/-- The unit that a text starts with, and nothing if there is none. -/
def unitOf (behind : Bytes) : Bytes :=
  behind.head?.toList.filter isUnit

/-- A size: digits with blanks around them, and what is behind, of which the first letter may be a
unit. -/
structure MemSize where
  blanks : Bytes
  digits : Bytes
  gap : Bytes
  behind : Bytes
  blanks_isBlank : ∀ b ∈ blanks, isBlank b = true
  digits_ne : digits ≠ []
  digits_isDigit : ∀ b ∈ digits, isDigit b = true
  gap_isBlank : ∀ b ∈ gap, isBlank b = true
  behind_isBlank : ∀ b ∈ behind.head?, isBlank b = false
  behind_isDigit : gap = [] → ∀ b ∈ behind.head?, isDigit b = false

namespace MemSize

variable (size : MemSize)

/-- The text of a size. -/
def text : Bytes :=
  size.blanks ++ (size.digits ++ (size.gap ++ size.behind))

/-- The bytes that the unit stands for. -/
def unit : ℤ :=
  memAbbreviation (unitOf size.behind)

/-- The exact number of bytes. -/
def value : ℤ :=
  digitsValue size.digits * size.unit

end MemSize

/-! ## The match -/

/-- The classes of the items have nothing in common. -/
theorem isBlank_of_isDigit {b : UInt8} (h : isDigit b = true) : isBlank b = false := by
  have hspace := isSpace_eq_false_of_isDigit h
  simp only [isSpace, Bool.or_eq_false_iff, beq_eq_false_iff_ne] at hspace
  rw [isBlank, Bool.or_eq_false_iff, beq_eq_false_iff_ne, beq_eq_false_iff_ne]
  exact ⟨hspace.1, fun h9 => absurd (h9 ▸ hspace.2) (by decide)⟩

theorem isUnit_of_isDigit {b : UInt8} (h : isDigit b = true) : isUnit b = false := by
  rw [Bool.eq_false_iff]
  intro hunit
  simp only [isUnit, Bool.or_eq_true, beq_iff_eq] at hunit
  obtain ((((rfl | rfl) | rfl) | rfl) | rfl) | rfl := hunit <;> exact absurd h (by decide)

theorem isUnit_of_isBlank {b : UInt8} (h : isBlank b = true) : isUnit b = false := by
  simp only [isBlank, Bool.or_eq_true, beq_iff_eq] at h
  obtain rfl | rfl := h <;> rfl

section Match

variable {blanks digits gap behind : Bytes}

/-- The unit is what the last item takes. -/
theorem exists_unitOf (behind : Bytes) :
    (Item.opt isUnit).Accepts (unitOf behind) ∧ ∃ rest, behind = unitOf behind ++ rest := by
  cases behind with
  | nil => exact ⟨⟨fun _ h => absurd h List.not_mem_nil, Nat.zero_le _, fun _ _ => Nat.zero_le _⟩,
      [], rfl⟩
  | cons b behind =>
    by_cases hb : isUnit b = true
    · rw [unitOf, List.head?_cons, Option.toList_some, List.filter_cons_of_pos hb, List.filter_nil]
      refine ⟨⟨List.forall_mem_singleton.mpr hb, Nat.zero_le _, fun n hn => ?_⟩, behind, rfl⟩
      exact (Option.some.inj hn).le
    · rw [unitOf, List.head?_cons, Option.toList_some, List.filter_cons_of_neg hb, List.filter_nil]
      exact ⟨⟨fun _ h => absurd h List.not_mem_nil, Nat.zero_le _, fun _ _ => Nat.zero_le _⟩,
        b :: behind, rfl⟩

/-- What the last item takes off the text is no longer than the unit. -/
theorem eq_unitOf {u after : Bytes} (hu : (Item.opt isUnit).Accepts u) (h : behind = u ++ after)
    (hlength : (unitOf behind).length ≤ u.length) : u = unitOf behind := by
  cases u with
  | nil => exact (List.eq_nil_of_length_eq_zero (Nat.le_zero.mp hlength)).symm
  | cons b u =>
    have hnil : u = [] := by
      have hmost := hu.2.2 1 rfl
      rw [List.length_cons] at hmost
      exact List.eq_nil_of_length_eq_zero (by omega)
    have hb : isUnit b = true := hu.1 b List.mem_cons_self
    rw [h, hnil, unitOf, List.cons_append, List.head?_cons, Option.toList_some,
      List.filter_cons_of_pos hb, List.filter_nil]

/-- Symbols of a class are not at the start of a text that starts with something else. -/
theorem eq_nil_of_head {cls : UInt8 → Bool} {seg after s : Bytes} (hseg : ∀ b ∈ seg, cls b = true)
    (h : seg ++ after = s) (hs : ∀ b ∈ s.head?, cls b = false) : seg = [] := by
  cases seg with
  | nil => rfl
  | cons b seg =>
    have hb := hs b (h ▸ rfl)
    rw [hseg b List.mem_cons_self] at hb
    exact absurd hb.symm Bool.false_ne_true

/-- The first of some digits. -/
theorem isDigit_of_mem_head? {ds rest : Bytes} (hne : ds ≠ []) (hds : ∀ b ∈ ds, isDigit b = true) :
    ∀ b ∈ (ds ++ rest).head?, isDigit b = true := by
  obtain ⟨d, ds, rfl⟩ := List.exists_cons_of_ne_nil hne
  intro b hb
  obtain rfl := Option.some.inj hb
  exact hds d List.mem_cons_self

section Segments

variable (hblanks : ∀ b ∈ blanks, isBlank b = true) (hne : digits ≠ [])
  (hdigits : ∀ b ∈ digits, isDigit b = true) (hgap : ∀ b ∈ gap, isBlank b = true)
  (hbehind : ∀ b ∈ behind.head?, isBlank b = false)
  (hdigit : gap = [] → ∀ b ∈ behind.head?, isDigit b = false)

include hblanks hne hdigits hgap hbehind hdigit

/-- A division of the text that is as long as its own is its own. -/
theorem segments_eq {b d g u after : Bytes} (hb : (Item.star isBlank).Accepts b)
    (hd : (Item.plus isDigit).Accepts d) (hg : (Item.star isBlank).Accepts g)
    (hu : (Item.opt isUnit).Accepts u)
    (h : b ++ (d ++ (g ++ (u ++ after))) = blanks ++ (digits ++ (gap ++ behind)))
    (hlength : blanks.length + (digits.length + (gap.length + (unitOf behind).length)) ≤
      b.length + (d.length + (g.length + u.length))) :
    b = blanks ∧ d = digits ∧ g = gap ∧ u = unitOf behind := by
  -- the blanks end where a digit has to stand
  obtain ⟨left, hleft, hd'⟩ := exists_of_append_eq_run hb.1
    (fun a ha => isBlank_of_isDigit (isDigit_of_mem_head? hne hdigits a ha)) h
  obtain rfl : left = [] := by
    refine eq_nil_of_head (fun a ha => hblanks a (hleft ▸ List.mem_append_right _ ha)) hd'.symm
      fun a ha => isBlank_of_isDigit ?_
    exact isDigit_of_mem_head? (List.length_pos_iff.mp hd.2.1) hd.1 a ha
  -- if some digits were left, nothing would match behind them
  have hgap_head : ∀ a ∈ (gap ++ behind).head?, isDigit a = false := by
    cases gap with
    | nil => exact hdigit rfl
    | cons c gap =>
      intro a ha
      obtain rfl := Option.some.inj ha
      rw [Bool.eq_false_iff]
      intro hc
      have := isBlank_of_isDigit hc
      rw [hgap c List.mem_cons_self] at this
      exact absurd this.symm Bool.false_ne_true
  obtain ⟨left', hleft', hg'⟩ := exists_of_append_eq_run hd.1 hgap_head hd'
  rw [List.append_nil] at hleft
  have hnil' : left' = [] := by
    by_contra hne'
    have hhead : ∀ a ∈ (left' ++ (gap ++ behind)).head?, isDigit a = true :=
      isDigit_of_mem_head? hne' fun a ha => hdigits a (hleft' ▸ List.mem_append_right _ ha)
    obtain rfl := eq_nil_of_head hg.1 hg' fun a ha => isBlank_of_isDigit (hhead a ha)
    obtain rfl := eq_nil_of_head hu.1 hg' fun a ha => isUnit_of_isDigit (hhead a ha)
    have hpos := List.length_pos_iff.mpr hne'
    rw [hleft, hleft', List.length_append, List.length_nil] at hlength
    omega
  rw [hnil', List.append_nil] at hleft'
  rw [hnil', List.nil_append] at hg'
  -- and so for the blanks
  obtain ⟨left'', hleft'', hu'⟩ := exists_of_append_eq_run hg.1 hbehind hg'
  have hnil'' : left'' = [] := by
    by_contra hne''
    have hhead : ∀ a ∈ (left'' ++ behind).head?, isUnit a = false := by
      obtain ⟨c, left'', rfl⟩ := List.exists_cons_of_ne_nil hne''
      intro a ha
      obtain rfl := Option.some.inj ha
      exact isUnit_of_isBlank (hgap c (hleft'' ▸ List.mem_append_right _ List.mem_cons_self))
    obtain rfl := eq_nil_of_head hu.1 hu' hhead
    have hpos := List.length_pos_iff.mpr hne''
    rw [hleft, hleft', hleft'', List.length_append, List.length_nil] at hlength
    omega
  rw [hnil'', List.append_nil] at hleft''
  rw [hnil'', List.nil_append] at hu'
  refine ⟨hleft.symm, hleft'.symm, hleft''.symm, eq_unitOf hu hu'.symm ?_⟩
  rw [hleft, hleft', hleft''] at hlength
  omega

/-- Every item takes what it is meant for. -/
theorem search_regMemSize : search regMemSize (blanks ++ (digits ++ (gap ++ behind))) =
    some [blanks, digits, gap, unitOf behind] := by
  obtain ⟨hunit, rest, hrest⟩ := exists_unitOf behind
  have haccepts : List.Forall₂ Item.Accepts regMemSize [blanks, digits, gap, unitOf behind] :=
    .cons (Item.accepts_star hblanks) (.cons (Item.accepts_plus hdigits hne)
      (.cons (Item.accepts_star hgap) (.cons hunit .nil)))
  have htext : blanks ++ (digits ++ (gap ++ behind)) =
      [blanks, digits, gap, unitOf behind].flatten ++ rest := by
    conv_lhs => rw [hrest]
    simp only [List.flatten_cons, List.flatten_nil, List.append_assoc, List.append_nil]
  cases h : search regMemSize (blanks ++ (digits ++ (gap ++ behind))) with
  | none => exact absurd htext (search_eq_none.mp h _ _ haccepts)
  | some m =>
    obtain ⟨hlength, -⟩ := search_spec h haccepts htext
    obtain ⟨hm, after, hafter⟩ := accepts_of_search h
    obtain ⟨b, _, hb, hm₁, rfl⟩ := List.forall₂_cons_left_iff.mp hm
    obtain ⟨d, _, hd, hm₂, rfl⟩ := List.forall₂_cons_left_iff.mp hm₁
    obtain ⟨g, _, hg, hm₃, rfl⟩ := List.forall₂_cons_left_iff.mp hm₂
    obtain ⟨u, _, hu, hm₄, rfl⟩ := List.forall₂_cons_left_iff.mp hm₃
    cases hm₄
    simp only [List.flatten_cons, List.flatten_nil, List.append_assoc, List.append_nil,
      List.length_append] at hlength hafter
    obtain ⟨rfl, rfl, rfl, rfl⟩ := segments_eq hblanks hne hdigits hgap hbehind hdigit hb hd hg hu
      hafter.symm hlength
    rfl

end Segments

end Match

/-! ## What is read -/

section Read

variable (size : MemSize)

/-- The text up to a NUL has the same unit. -/
theorem unitOf_cstr (s : Bytes) : unitOf (cstr s) = unitOf s := by
  cases s with
  | nil => rfl
  | cons b s =>
    by_cases hb : b = 0
    · rw [hb]
      rfl
    · rw [cstr, List.takeWhile_cons_of_pos (by simpa using hb)]
      rfl

theorem memSizeToBytesl_text : memSizeToBytesl size.text =
    (clamp64 (digitsValue size.digits) * size.unit).bmod (2 ^ 64) := by
  have hzero {cls : UInt8 → Bool} (h0 : cls 0 = false) {seg : Bytes}
      (hseg : ∀ b ∈ seg, cls b = true) : ∀ b ∈ seg, decide (b ≠ 0) = true := by
    intro b hb
    rw [decide_eq_true_eq]
    rintro rfl
    exact absurd (hseg 0 hb) (by rw [h0]; exact Bool.false_ne_true)
  have hcstr : cstr size.text =
      size.blanks ++ (size.digits ++ (size.gap ++ cstr size.behind)) := by
    rw [MemSize.text, cstr, List.takeWhile_append_of_pos (hzero rfl size.blanks_isBlank),
      List.takeWhile_append_of_pos (hzero rfl size.digits_isDigit),
      List.takeWhile_append_of_pos (hzero rfl size.gap_isBlank)]
    rfl
  have hhead : ∀ b ∈ (cstr size.behind).head?, b ∈ size.behind.head? := by
    intro b hb
    cases hbehind : size.behind with
    | nil =>
      rw [hbehind] at hb
      cases hb
    | cons c behind =>
      rw [hbehind, cstr, List.takeWhile_cons] at hb
      split at hb
      · exact hb
      · cases hb
  have hsearch := search_regMemSize size.blanks_isBlank size.digits_ne size.digits_isDigit
    size.gap_isBlank (fun b hb => size.behind_isBlank b (hhead b hb))
    fun hgap b hb => size.behind_isDigit hgap b (hhead b hb)
  rw [memSizeToBytesl, hcstr, hsearch]
  dsimp only
  rw [unitOf_cstr, atoll, strtol_of_forall_isDigit size.digits_ne size.digits_isDigit]
  rfl

/-- There is no unit, or it is a power of 1024. -/
theorem unit_cases : size.unit = 1 ∨ size.unit = 1024 ∨ size.unit = 1024 ^ 2 ∨
    size.unit = 1024 ^ 3 := by
  rw [MemSize.unit, memAbbreviation.eq_def]
  split
  · exact .inl rfl
  · split
    · exact .inr (.inl rfl)
    · split
      · exact .inr (.inr (.inl rfl))
      · split
        · exact .inr (.inr (.inr rfl))
        · exact .inl rfl

end Read

/-! ## Sizes that are too large -/

/-- What should be read of a size, of which a `long long` is not less than `least` if it is positive. -/
structure Saturates (size : MemSize) (least : ℤ) : Prop where
  bytesi_zero : size.value = 0 → memSizeToBytesi size.text = maxInt
  bytesi_pos : 0 < size.value → memSizeToBytesi size.text = min size.value maxInt
  bytesl_eq : size.value < 2 ^ 63 → memSizeToBytesl size.text = size.value
  bytesl_ge : 0 < memSizeToBytesl size.text → least ≤ memSizeToBytesl size.text

/-- A size that fits into a `long long`, or one with a unit whose product is not positive: the digits
alone are too large, or the low half of the number has its sign bit set or is zero. -/
def FitsOrTurns (size : MemSize) : Prop :=
  size.value < 2 ^ 63 ∨ (size.unit ≠ 1 ∧ (2 ^ 63 ≤ (digitsValue size.digits : ℤ) ∨
    size.value % 2 ^ 64 = 0 ∨ 2 ^ 63 ≤ size.value % 2 ^ 64))

section Large

variable {size : MemSize}

theorem value_nonneg (size : MemSize) : 0 ≤ size.value := by
  have hunit := unit_cases size
  rw [MemSize.value]
  obtain h | h | h | h := hunit <;> rw [h] <;> omega

/-- A size that fits is read as it is. -/
theorem memSizeToBytesl_of_lt (h : size.value < 2 ^ 63) : memSizeToBytesl size.text = size.value := by
  have hdigits : clamp64 (digitsValue size.digits) = digitsValue size.digits := by
    rw [MemSize.value] at h
    rw [clamp64]
    obtain hu | hu | hu | hu := unit_cases size <;> rw [hu] at h <;> omega
  have hnonneg := value_nonneg size
  rw [memSizeToBytesl_text, hdigits, ← MemSize.value]
  exact Int.bmod_eq_of_le (by omega) (by omega)

/-- The product of a size that does not fit is positive only if it has wrapped around, or is that of
the largest `long long` and no unit. -/
theorem memSizeToBytesl_nonpos_iff (h : 2 ^ 63 ≤ size.value) :
    memSizeToBytesl size.text ≤ 0 ↔ FitsOrTurns size := by
  have hdef := Int.bmod_def (clamp64 (digitsValue size.digits) * size.unit) (2 ^ 64)
  rw [memSizeToBytesl_text, hdef, FitsOrTurns, clamp64]
  rw [MemSize.value] at h ⊢
  obtain hu | hu | hu | hu := unit_cases size
  · rw [hu] at h ⊢
    split <;> omega
  · rw [hu] at h ⊢
    split <;> omega
  · rw [hu] at h ⊢
    split <;> omega
  · rw [hu] at h ⊢
    split <;> omega

/-- The largest `long long` is read where there is no unit, and only there. -/
theorem memSizeToBytesl_eq_max_iff (h : 2 ^ 63 ≤ size.value) :
    memSizeToBytesl size.text = 2 ^ 63 - 1 ↔ size.unit = 1 := by
  have hdef := Int.bmod_def (clamp64 (digitsValue size.digits) * size.unit) (2 ^ 64)
  rw [memSizeToBytesl_text, hdef, clamp64]
  rw [MemSize.value] at h
  obtain hu | hu | hu | hu := unit_cases size
  · rw [hu] at h ⊢
    split <;> omega
  · rw [hu] at h ⊢
    split <;> omega
  · rw [hu] at h ⊢
    split <;> omega
  · rw [hu] at h ⊢
    split <;> omega

theorem memSizeToBytesl_lt (size : MemSize) : memSizeToBytesl size.text < 2 ^ 63 := by
  rw [memSizeToBytesl_text]
  have := Int.bmod_lt (x := clamp64 (digitsValue size.digits) * size.unit) (m := 2 ^ 64) (by decide)
  omega

/-- A size that fits is right. -/
theorem saturates_of_lt (h : size.value < 2 ^ 63) {least : ℤ} (hleast : least ≤ size.value) :
    Saturates size least := by
  have hl := memSizeToBytesl_of_lt h
  have hnonneg := value_nonneg size
  refine ⟨fun hzero => ?_, fun hpos => ?_, fun _ => hl, fun _ => hl ▸ hleast⟩
  · rw [memSizeToBytesi, hl, if_pos (.inr hzero.le)]
  · rw [memSizeToBytesi, hl]
    split <;> omega

/-- One that does not is right if what is read is not positive, or not less than it should be. -/
theorem saturates_iff_of_ge (h : 2 ^ 63 ≤ size.value) {least : ℤ} (hleast : maxInt ≤ least) :
    Saturates size least ↔ memSizeToBytesl size.text ≤ 0 ∨ least ≤ memSizeToBytesl size.text := by
  constructor
  · intro hsat
    by_cases hpos : 0 < memSizeToBytesl size.text
    · exact .inr (hsat.bytesl_ge hpos)
    · exact .inl (not_lt.mp hpos)
  · intro hl
    rw [maxInt] at hleast
    refine ⟨fun hzero => absurd h (by omega), fun _ => ?_, fun hlt => absurd h (not_le.mpr hlt),
      fun hpos => hl.resolve_left (not_le.mpr hpos)⟩
    rw [memSizeToBytesi, maxInt]
    split <;> omega

/-- The sizes that are read as they should be, if nothing but the number itself or more counts as
positive, and if the largest `long long` does, too. -/
theorem saturates_iff (size : MemSize) :
    (Saturates size size.value ↔ FitsOrTurns size) ∧
      (Saturates size (min size.value (2 ^ 63 - 1)) ↔ FitsOrTurns size ∨ size.unit = 1) := by
  by_cases hlt : size.value < 2 ^ 63
  · have hfits : FitsOrTurns size := .inl hlt
    exact ⟨iff_of_true (saturates_of_lt hlt le_rfl) hfits,
      iff_of_true (saturates_of_lt hlt (min_le_left _ _)) (.inl hfits)⟩
  · have hge := not_lt.mp hlt
    have hmax := memSizeToBytesl_lt size
    have hmaxInt : maxInt = 2 ^ 31 - 1 := rfl
    rw [min_eq_right (by omega), saturates_iff_of_ge hge (by omega),
      saturates_iff_of_ge hge (by omega), ← memSizeToBytesl_nonpos_iff hge,
      ← memSizeToBytesl_eq_max_iff hge]
    exact ⟨or_iff_left (by omega), or_congr_right (by omega)⟩

end Large

/-- The size `17179869185g`, which is 2 ^ 64 and 1 Gb. -/
def wrappingSize : MemSize where
  blanks := []
  digits := ascii "17179869185"
  gap := []
  behind := ascii "g"
  blanks_isBlank := by decide +kernel
  digits_ne := by decide +kernel
  digits_isDigit := by decide +kernel
  gap_isBlank := by decide +kernel
  behind_isBlank := by decide +kernel
  behind_isDigit := by decide +kernel

/-- The size is read as 1 Gb. -/
theorem not_saturates_wrappingSize :
    wrappingSize.value = 2 ^ 64 + 2 ^ 30 ∧ memSizeToBytesl wrappingSize.text = 2 ^ 30 ∧
      memSizeToBytesi wrappingSize.text = 2 ^ 30 ∧ ¬ Saturates wrappingSize wrappingSize.value ∧
      ¬ Saturates wrappingSize (min wrappingSize.value (2 ^ 63 - 1)) := by
  have hl : memSizeToBytesl wrappingSize.text = 2 ^ 30 := by decide +kernel
  have hvalue : wrappingSize.value = 2 ^ 64 + 2 ^ 30 := by decide +kernel
  have hnot {least : ℤ} (hleast : 2 ^ 30 < least) : ¬ Saturates wrappingSize least := fun h => by
    have hge := h.bytesl_ge (by rw [hl]; decide)
    rw [hl] at hge
    omega
  refine ⟨hvalue, hl, by rw [memSizeToBytesi, hl]; rfl, hnot ?_, hnot ?_⟩
  · rw [hvalue]
    decide
  · rw [hvalue]
    decide

end VplJail.Util
