import VplJail.Json.Translation
import VplJail.Util.Utf16

/-!
# Escapes without digits

What `decodeJSONString` makes of a `\u` escape, step by step, whatever it is followed by. Where four
blanks are in the place of the digits, no number is read, and the character is made of what the
variable for it held before.
-/

namespace VplJail.Json

open Util

/-! ## Digits and blanks -/

/-- The number that is read from the four bytes at a place. -/
def numberAt (u : Uninit) (data : Bytes) (i : ℕ) : ℕ :=
  readHex (u i) ((data.drop i).take 4)

/-- There are only blanks, so that no number is read. -/
def IsBlank (data : Bytes) (i : ℕ) : Prop :=
  ∀ b ∈ (data.drop i).take 4, isSpace b = true

/-- The number that is read at a place without blanks. -/
def number (data : Bytes) (i : ℕ) : ℕ :=
  numberAt .zero data i

/-- Behind the four bytes at a place there is another escape. -/
def IsPaired (data : Bytes) (i : ℕ) : Prop :=
  (data.drop (i + 4)).take 2 = [92, 117] ∧ i + 10 ≤ data.length

/-- Digits of a first half, with another escape behind them. -/
def StartsPair (raw : Bytes) (i : ℕ) : Prop :=
  IsHigh (number raw i) ∧ IsPaired raw i

/-- What the digits at a place mean is not settled by the text: they are blanks, or those of the
second escape of a pair are. -/
def Unsettled (data : Bytes) (i : ℕ) : Prop :=
  i + 4 ≤ data.length ∧ (IsBlank data i ∨ StartsPair data i ∧ IsBlank data (i + 6))

/-- Nothing to read up to the limit: it is reached, or there is a quotation mark or a last
backslash. -/
def NothingLeft (raw : Bytes) (limit i : ℕ) : Prop :=
  limit ≤ i ∨ charAt raw i = 34 ∨ charAt raw i = 92 ∧ limit ≤ i + 1

instance (data : Bytes) (i : ℕ) : Decidable (IsBlank data i) :=
  inferInstanceAs (Decidable (∀ b ∈ _, _))

instance (data : Bytes) (i : ℕ) : Decidable (IsPaired data i) :=
  inferInstanceAs (Decidable (_ ∧ _))

instance (raw : Bytes) (i : ℕ) : Decidable (StartsPair raw i) :=
  inferInstanceAs (Decidable (_ ∧ _))

instance (data : Bytes) (i : ℕ) : Decidable (Unsettled data i) :=
  inferInstanceAs (Decidable (_ ∧ _))

instance (raw : Bytes) (limit i : ℕ) : Decidable (NothingLeft raw limit i) :=
  inferInstanceAs (Decidable (_ ∨ _))

/-- Where the reading may go on behind digits, whatever is read from blanks. -/
def placesBehind (data : Bytes) (i : ℕ) : List ℕ :=
  if data.length < i + 4 then [data.length]
  else if IsPaired data i then
    (if IsBlank data i ∨ ¬ IsHigh (number data i) then [i + 4] else []) ++
      if IsBlank data i ∨ IsHigh (number data i) then
        (if IsBlank data (i + 6) ∨ IsLow (number data (i + 6)) then [i + 10] else []) ++
          if IsBlank data (i + 6) ∨ ¬ IsLow (number data (i + 6)) then [i + 7] else []
      else []
  else [i + 4]

/-- With some values for blanks, the reading from a place on meets no bad escape. -/
def isReadable (data : Bytes) (limit : ℕ) : ℕ → ℕ → Bool
  | 0, _ => false
  | fuel + 1, i =>
      if NothingLeft data limit i then true
      else if charAt data i = 92 then
        if charAt data (i + 1) = 117 then
          (placesBehind data (i + 2)).any (isReadable data limit fuel)
        else (shortEscapes.lookup (charAt data (i + 1))).isSome && isReadable data limit fuel (i + 2)
      else isReadable data limit fuel (i + 1)

/-! ## What digits mean -/

/-- What digits mean in no pair. -/
def loneDigits (n : ℕ) : Bytes :=
  if n ≤ 0x7F then [lowByte n]
  else if n ≤ 0x7FF then [lowByte (n / 64 % 32 + 0xC0), lowByte (n % 64 + 0x80)]
  else if IsHigh n ∨ IsLow n then replacement
  else
    [lowByte (n / 4096 % 16 + 0xE0), lowByte (n / 64 % 64 + 0x80), lowByte (n % 64 + 0x80)]

/-- What the digits of a pair mean. -/
def pairDigits (high low : ℕ) : Bytes :=
  let n := 1024 * (high % 1024) + low % 1024 + 0x10000
  [lowByte (n / 262144 % 8 + 0xF0), lowByte (n / 4096 % 64 + 0x80), lowByte (n / 64 % 64 + 0x80),
    lowByte (n % 64 + 0x80)]

section Digits

variable {u : Uninit} {raw text : Bytes} {i : ℕ}

/-- From blanks the value that was there is read. -/
theorem numberAt_of_isBlank (h : IsBlank raw i) : numberAt u raw i = (u i).toNat := by
  rw [numberAt, readHex]
  exact if_pos (List.dropWhile_eq_nil_iff.mpr h)

/-- Elsewhere the number does not depend on it. -/
theorem numberAt_of_not_isBlank (h : ¬ IsBlank raw i) : numberAt u raw i = number raw i := by
  have hne : ((raw.drop i).take 4).dropWhile isSpace ≠ [] :=
    fun hnil => h (List.dropWhile_eq_nil_iff.mp hnil)
  rw [number, numberAt, numberAt, readHex, readHex]
  dsimp only
  rw [if_neg hne, if_neg hne]

theorem not_isBlank_of_isHigh (h : IsHigh (number raw i)) : ¬ IsBlank raw i := fun hblank => by
  rw [number, numberAt_of_isBlank hblank] at h
  exact absurd (show 0xD800 ≤ 0 from h.1) (by decide)

/-- What is read from four bytes on. -/
theorem decodeHexaUnicode_eq (u : Uninit) (hi : i + 4 ≤ raw.length) :
    decodeHexaUnicode u raw i =
      if IsHigh (numberAt u raw i) ∧ IsPaired raw i then
        if IsLow (numberAt u raw (i + 6)) then
          (pairDigits (numberAt u raw i) (numberAt u raw (i + 6)), i + 9)
        else (replacement ++ replacement, i + 6)
      else (loneDigits (numberAt u raw i), i + 3) := by
  rw [decodeHexaUnicode, if_neg (by omega)]
  have hfirst : readHex (u i) ((raw.drop i).take 4) = numberAt u raw i := rfl
  have hsecond : readHex (u (i + 6)) ((raw.drop (i + 6)).take 4) = numberAt u raw (i + 6) := rfl
  simp only [hfirst, hsecond]
  by_cases hpair : IsHigh (numberAt u raw i) ∧ IsPaired raw i
  · rw [if_pos hpair]
    obtain ⟨⟨hleast, hmost⟩, hnext, hlength⟩ := hpair
    rw [if_neg (by omega), if_neg (by omega), if_pos ⟨hleast, hmost⟩, if_neg]
    · generalize numberAt u raw (i + 6) = low
      by_cases hlow : IsLow low
      · rw [if_neg (by rw [IsLow] at hlow; omega), if_pos hlow]
        rfl
      · rw [if_pos (by rw [IsLow] at hlow; omega), if_neg hlow]
    · rintro (hne | hlt)
      · exact hne hnext
      · omega
  · rw [if_neg hpair, loneDigits]
    -- a half without its partner gives the replacement, all other codes stand for themselves
    by_cases hhigh : IsHigh (numberAt u raw i)
    · have hlone : (raw.drop (i + 4)).take 2 ≠ [92, 117] ∨ raw.length < i + 10 := by
        by_contra hnext
        rw [not_or, not_not, not_lt] at hnext
        exact hpair ⟨hhigh, hnext⟩
      obtain ⟨hleast, hmost⟩ := hhigh
      rw [if_neg (by omega), if_neg (by omega), if_pos ⟨hleast, hmost⟩, if_pos hlone,
        if_neg (by omega), if_neg (by omega), if_pos (.inl ⟨hleast, hmost⟩)]
    · clear hpair
      generalize numberAt u raw i = n at hhigh ⊢
      rw [if_neg (show ¬ (0xD800 ≤ n ∧ n < 0xDC00) from hhigh)]
      by_cases hlow : IsLow n
      · rw [if_pos (show 0xDC00 ≤ n ∧ n ≤ 0xDFFF by rw [IsLow] at hlow; omega),
          if_pos (show IsHigh n ∨ IsLow n from .inr hlow)]
        split_ifs <;> rfl
      · rw [if_neg (show ¬ (0xDC00 ≤ n ∧ n ≤ 0xDFFF) by rw [IsLow] at hlow; omega),
          if_neg (not_or.mpr ⟨hhigh, hlow⟩)]
        split_ifs <;> rfl

/-- What settled digits mean. -/
theorem decodeHexaUnicode_settled (u : Uninit) (hi : i + 4 ≤ raw.length) (h : ¬ Unsettled raw i) :
    decodeHexaUnicode u raw i =
      if StartsPair raw i then
        if IsLow (number raw (i + 6)) then
          (pairDigits (number raw i) (number raw (i + 6)), i + 9)
        else (replacement ++ replacement, i + 6)
      else (loneDigits (number raw i), i + 3) := by
  have hfirst : ¬ IsBlank raw i := fun hblank => h ⟨hi, .inl hblank⟩
  rw [decodeHexaUnicode_eq u hi, numberAt_of_not_isBlank hfirst]
  by_cases hpair : StartsPair raw i
  · have hsecond : ¬ IsBlank raw (i + 6) := fun hblank => h ⟨hi, .inr ⟨hpair, hblank⟩⟩
    rw [numberAt_of_not_isBlank hsecond]
    rfl
  · rw [if_neg hpair]
    exact if_neg hpair

theorem loneDigits_ne_nil (n : ℕ) : loneDigits n ≠ [] := by
  rw [loneDigits]
  split_ifs <;> exact List.cons_ne_nil _ _

theorem decodeHexaUnicode_ne_nil (u : Uninit) (raw : Bytes) (i : ℕ) :
    (decodeHexaUnicode u raw i).1 ≠ [] := by
  by_cases hi : i + 4 ≤ raw.length
  · rw [decodeHexaUnicode_eq u hi]
    split_ifs
    · exact List.cons_ne_nil _ _
    · exact List.cons_ne_nil _ _
    · exact loneDigits_ne_nil _
  · rw [decodeHexaUnicode, if_pos (by omega)]
    exact List.cons_ne_nil _ _

end Digits

/-! ## The steps of the decoder -/

section Steps

variable {u : Uninit} {data : Bytes} {limit fuel i : ℕ}

theorem decodeFrom_nothingLeft (h : NothingLeft data limit i) :
    decodeFrom u data limit (fuel + 1) i = .ok [] := by
  rw [decodeFrom]
  rcases h with h | h | ⟨h, hnext⟩
  · exact if_pos h
  · by_cases hend : limit ≤ i
    · exact if_pos hend
    · rw [if_neg hend, h, if_neg (by decide), if_pos rfl]
      rfl
  · rw [if_pos h, if_pos hnext]
    split <;> rfl

section Going

variable (h : ¬ NothingLeft data limit i)

include h

theorem decodeFrom_digits (hbackslash : charAt data i = 92) (hu : charAt data (i + 1) = 117) :
    decodeFrom u data limit (fuel + 1) i = ((decodeHexaUnicode u data (i + 2)).1 ++ ·) <$>
      decodeFrom u data limit fuel ((decodeHexaUnicode u data (i + 2)).2 + 1) := by
  rw [decodeFrom, if_neg (fun hend => h (.inl hend)), if_pos hbackslash,
    if_neg (fun hend => h (.inr (.inr ⟨hbackslash, hend⟩))), if_pos hu]
  rfl

theorem decodeFrom_escape {b : UInt8} (hbackslash : charAt data i = 92)
    (hu : charAt data (i + 1) ≠ 117) (hb : shortEscapes.lookup (charAt data (i + 1)) = some b) :
    decodeFrom u data limit (fuel + 1) i = (b :: ·) <$> decodeFrom u data limit fuel (i + 2) := by
  rw [decodeFrom, if_neg (fun hend => h (.inl hend)), if_pos hbackslash,
    if_neg (fun hend => h (.inr (.inr ⟨hbackslash, hend⟩))), if_neg hu, hb]
  rfl

theorem decodeFrom_badEscape (hbackslash : charAt data i = 92)
    (hu : charAt data (i + 1) ≠ 117) (hb : shortEscapes.lookup (charAt data (i + 1)) = none) :
    decodeFrom u data limit (fuel + 1) i =
      .error (.http badRequestCode "JSON coding error: bad escape sequence") := by
  rw [decodeFrom, if_neg (fun hend => h (.inl hend)), if_pos hbackslash,
    if_neg (fun hend => h (.inr (.inr ⟨hbackslash, hend⟩))), if_neg hu, hb]
  rfl

theorem decodeFrom_other (hbackslash : charAt data i ≠ 92) :
    decodeFrom u data limit (fuel + 1) i =
      (charAt data i :: ·) <$> decodeFrom u data limit fuel (i + 1) := by
  rw [decodeFrom, if_neg (fun hend => h (.inl hend)), if_neg hbackslash,
    if_neg (fun hquote => h (.inr (.inl hquote)))]
  rfl

end Going

theorem map_ne_ok_nil {f : Bytes → Bytes} (hf : ∀ s, f s ≠ []) (x : Except Thrown Bytes) :
    f <$> x ≠ .ok [] := by
  cases x with
  | error e => nofun
  | ok s => exact fun h => hf s (Except.ok.inj h)

theorem map_inj {f : Bytes → Bytes} (hf : Function.Injective f) {x y : Except Thrown Bytes} :
    f <$> x = f <$> y ↔ x = y := by
  refine ⟨fun h => ?_, congrArg _⟩
  cases x with
  | error e =>
    cases y with
    | error e' => exact h
    | ok s' => cases h
  | ok s =>
    cases y with
    | error e' => cases h
    | ok s' => exact congrArg _ (hf (Except.ok.inj h))

/-- The decoder reads nothing only where nothing is left. -/
theorem decodeFrom_eq_nil_iff :
    decodeFrom u data limit (fuel + 1) i = .ok [] ↔ NothingLeft data limit i := by
  refine ⟨fun hread => ?_, decodeFrom_nothingLeft⟩
  by_contra h
  by_cases hbackslash : charAt data i = 92
  · by_cases hu : charAt data (i + 1) = 117
    · rw [decodeFrom_digits h hbackslash hu] at hread
      exact map_ne_ok_nil
        (fun _ => List.append_ne_nil_of_left_ne_nil (decodeHexaUnicode_ne_nil _ _ _) _) _ hread
    · cases hb : shortEscapes.lookup (charAt data (i + 1)) with
      | none =>
        rw [decodeFrom_badEscape h hbackslash hu hb] at hread
        cases hread
      | some b =>
        rw [decodeFrom_escape h hbackslash hu hb] at hread
        exact map_ne_ok_nil (fun _ => List.cons_ne_nil _ _) _ hread
  · rw [decodeFrom_other h hbackslash] at hread
    exact map_ne_ok_nil (fun _ => List.cons_ne_nil _ _) _ hread

end Steps

/-! ## Any values for the blanks -/

section Values

variable {u u' : Uninit} {data : Bytes} {limit fuel i p : ℕ}

/-- What is read at a place is possible there. -/
theorem isBlank_or_of_numberAt {P : ℕ → Prop} (h : P (numberAt u data i)) :
    IsBlank data i ∨ P (number data i) := by
  by_cases hblank : IsBlank data i
  · exact .inl hblank
  · exact .inr (numberAt_of_not_isBlank (u := u) hblank ▸ h)

/-- What is possible at a place is read there if the variable holds it. -/
theorem numberAt_of_or {P : ℕ → Prop} (h : IsBlank data i ∨ P (number data i))
    (hu : P (u i).toNat) : P (numberAt u data i) := by
  by_cases hblank : IsBlank data i
  · rwa [numberAt_of_isBlank hblank]
  · rw [numberAt_of_not_isBlank hblank]
    exact h.resolve_left hblank

/-- The reading goes on at one of the places. -/
theorem next_mem_placesBehind (u : Uninit) (hpos : 0 < data.length) :
    (decodeHexaUnicode u data i).2 + 1 ∈ placesBehind data i := by
  rw [placesBehind]
  by_cases hshort : data.length < i + 4
  · rw [if_pos hshort, decodeHexaUnicode, if_pos hshort, List.mem_singleton]
    exact Nat.sub_add_cancel hpos
  rw [if_neg hshort]
  by_cases hpaired : IsPaired data i
  · rw [if_pos hpaired]
    by_cases hhigh : IsHigh (numberAt u data i)
    · refine List.mem_append_right _ ?_
      rw [if_pos (isBlank_or_of_numberAt hhigh)]
      by_cases hlow : IsLow (numberAt u data (i + 6))
      · refine List.mem_append_left _ (List.mem_ite_nil_right.mpr
          ⟨isBlank_or_of_numberAt hlow, ?_⟩)
        rw [decodeHexaUnicode_eq u (by omega), if_pos ⟨hhigh, hpaired⟩, if_pos hlow]
        exact List.mem_singleton_self _
      · refine List.mem_append_right _ (List.mem_ite_nil_right.mpr
          ⟨isBlank_or_of_numberAt (P := fun n => ¬ IsLow n) hlow, ?_⟩)
        rw [decodeHexaUnicode_eq u (by omega), if_pos ⟨hhigh, hpaired⟩, if_neg hlow]
        exact List.mem_singleton_self _
    · refine List.mem_append_left _ (List.mem_ite_nil_right.mpr
        ⟨isBlank_or_of_numberAt (P := fun n => ¬ IsHigh n) hhigh, ?_⟩)
      rw [decodeHexaUnicode_eq u (by omega), if_neg fun h => hhigh h.1]
      exact List.mem_singleton_self _
  · rw [if_neg hpaired, decodeHexaUnicode_eq u (by omega), if_neg fun h => hpaired h.2]
    exact List.mem_singleton_self _

/-- It may go on at each of them, whatever the variables hold from there on. -/
theorem exists_next (u : Uninit) (hpos : 0 < data.length) (hp : p ∈ placesBehind data i) :
    ∃ u' : Uninit, (∀ j, p ≤ j → u' j = u j) ∧ (decodeHexaUnicode u' data i).2 + 1 = p := by
  rw [placesBehind] at hp
  by_cases hshort : data.length < i + 4
  · rw [if_pos hshort, List.mem_singleton] at hp
    refine ⟨u, fun _ _ => rfl, ?_⟩
    rw [decodeHexaUnicode, if_pos hshort, hp]
    exact Nat.sub_add_cancel hpos
  rw [if_neg hshort] at hp
  by_cases hpaired : IsPaired data i
  · rw [if_pos hpaired, List.mem_append] at hp
    have hset (high low : UInt64) : ∃ u' : Uninit, (∀ j, i + 7 ≤ j → u' j = u j) ∧ u' i = high ∧
        u' (i + 6) = low := by
      refine ⟨Function.update (Function.update u i high) (i + 6) low, fun j hj => ?_, ?_,
        Function.update_self ..⟩
      · rw [Function.update_of_ne (by omega), Function.update_of_ne (by omega)]
      · rw [Function.update_of_ne (by omega), Function.update_self]
    rcases hp with hp | hp
    · obtain ⟨hlone, hp⟩ := List.mem_ite_nil_right.mp hp
      rw [List.mem_singleton] at hp
      refine ⟨Function.update u i 0, fun j hj => Function.update_of_ne (by omega) _ _, ?_⟩
      have hhigh : ¬ IsHigh (numberAt (Function.update u i 0) data i) :=
        numberAt_of_or (P := fun n => ¬ IsHigh n) hlone (by rw [Function.update_self]; decide)
      rw [decodeHexaUnicode_eq _ (by omega), if_neg fun h => hhigh h.1, hp]
    · obtain ⟨hfirsthalf, hp⟩ := List.mem_ite_nil_right.mp hp
      rcases List.mem_append.mp hp with hp | hp
      · obtain ⟨hsecondhalf, hp⟩ := List.mem_ite_nil_right.mp hp
        rw [List.mem_singleton] at hp
        obtain ⟨u', hagree, hone, htwo⟩ := hset 0xD800 0xDC00
        have hhigh : IsHigh (numberAt u' data i) := numberAt_of_or hfirsthalf (by rw [hone]; decide)
        have hlow : IsLow (numberAt u' data (i + 6)) :=
          numberAt_of_or hsecondhalf (by rw [htwo]; decide)
        refine ⟨u', fun j hj => hagree j (by omega), ?_⟩
        rw [decodeHexaUnicode_eq _ (by omega), if_pos ⟨hhigh, hpaired⟩, if_pos hlow, hp]
      · obtain ⟨hother, hp⟩ := List.mem_ite_nil_right.mp hp
        rw [List.mem_singleton] at hp
        obtain ⟨u', hagree, hone, htwo⟩ := hset 0xD800 0
        have hhigh : IsHigh (numberAt u' data i) := numberAt_of_or hfirsthalf (by rw [hone]; decide)
        have hlow : ¬ IsLow (numberAt u' data (i + 6)) :=
          numberAt_of_or (P := fun n => ¬ IsLow n) hother (by rw [htwo]; decide)
        refine ⟨u', fun j hj => hagree j (by omega), ?_⟩
        rw [decodeHexaUnicode_eq _ (by omega), if_pos ⟨hhigh, hpaired⟩, if_neg hlow, hp]
  · rw [if_neg hpaired, List.mem_singleton] at hp
    refine ⟨u, fun _ _ => rfl, ?_⟩
    rw [decodeHexaUnicode_eq u (by omega), if_neg fun h => hpaired h.2, hp]

/-- The reading from a place on does not depend on the variables before. -/
theorem decodeFrom_congr (hlimit : limit ≤ data.length) (h : ∀ j, i ≤ j → u' j = u j) :
    decodeFrom u' data limit fuel i = decodeFrom u data limit fuel i := by
  induction fuel generalizing i with
  | zero => rfl
  | succ fuel ih =>
    by_cases hleft : NothingLeft data limit i
    · rw [decodeFrom_nothingLeft hleft, decodeFrom_nothingLeft hleft]
    by_cases hbackslash : charAt data i = 92
    · by_cases hu : charAt data (i + 1) = 117
      · have hi : i + 1 < limit := not_le.mp fun hend => hleft (.inr (.inr ⟨hbackslash, hend⟩))
        have hlater := (decodeHexaUnicode_spec (u := u) (show i + 2 ≤ data.length by omega)).2
        have hsame : decodeHexaUnicode u' data (i + 2) = decodeHexaUnicode u data (i + 2) := by
          rw [decodeHexaUnicode, decodeHexaUnicode, h _ (by omega), h _ (by omega)]
        rw [decodeFrom_digits hleft hbackslash hu, decodeFrom_digits hleft hbackslash hu, hsame,
          ih fun j hj => h j (by omega)]
      · cases hb : shortEscapes.lookup (charAt data (i + 1)) with
        | none =>
          rw [decodeFrom_badEscape hleft hbackslash hu hb,
            decodeFrom_badEscape hleft hbackslash hu hb]
        | some b =>
          rw [decodeFrom_escape hleft hbackslash hu hb, decodeFrom_escape hleft hbackslash hu hb,
            ih fun j hj => h j (by omega)]
    · rw [decodeFrom_other hleft hbackslash, decodeFrom_other hleft hbackslash,
        ih fun j hj => h j (by omega)]

theorem exists_of_map_eq_ok {f : Bytes → Bytes} {x : Except Thrown Bytes} {s : Bytes}
    (h : f <$> x = .ok s) : ∃ s', x = .ok s' ∧ f s' = s := by
  cases x with
  | error e => cases h
  | ok s' => exact ⟨s', rfl, Except.ok.inj h⟩

/-- The reading from a place on succeeds for some values just where it meets no bad escape for some
values. -/
theorem isReadable_iff (hlimit : limit ≤ data.length) :
    isReadable data limit fuel i = true ↔ ∃ u s, decodeFrom u data limit fuel i = .ok s := by
  induction fuel generalizing i with
  | zero =>
    refine iff_of_false Bool.false_ne_true ?_
    rintro ⟨u, s, h⟩
    cases h
  | succ fuel ih =>
    rw [isReadable]
    by_cases hleft : NothingLeft data limit i
    · rw [if_pos hleft]
      exact iff_of_true rfl ⟨.zero, [], decodeFrom_nothingLeft hleft⟩
    rw [if_neg hleft]
    by_cases hbackslash : charAt data i = 92
    · rw [if_pos hbackslash]
      by_cases hu : charAt data (i + 1) = 117
      · have hi : i + 1 < limit := not_le.mp fun hend => hleft (.inr (.inr ⟨hbackslash, hend⟩))
        rw [if_pos hu, List.any_eq_true]
        constructor
        · rintro ⟨p, hp, hread⟩
          obtain ⟨u, s, hs⟩ := ih.mp hread
          obtain ⟨u', hagree, hnext⟩ := exists_next u (by omega) hp
          refine ⟨u', (decodeHexaUnicode u' data (i + 2)).1 ++ s, ?_⟩
          rw [decodeFrom_digits hleft hbackslash hu, hnext, decodeFrom_congr hlimit hagree, hs]
          rfl
        · rintro ⟨u, s, hs⟩
          rw [decodeFrom_digits hleft hbackslash hu] at hs
          obtain ⟨s', hs', -⟩ := exists_of_map_eq_ok hs
          exact ⟨_, next_mem_placesBehind u (by omega), ih.mpr ⟨u, s', hs'⟩⟩
      · rw [if_neg hu]
        cases hb : shortEscapes.lookup (charAt data (i + 1)) with
        | none =>
          refine iff_of_false Bool.false_ne_true ?_
          rintro ⟨u, s, hs⟩
          rw [decodeFrom_badEscape hleft hbackslash hu hb] at hs
          cases hs
        | some b =>
          rw [Option.isSome_some, Bool.true_and, ih]
          refine exists_congr fun u => ⟨fun ⟨s, hs⟩ => ⟨b :: s, ?_⟩, fun ⟨s, hs⟩ => ?_⟩
          · rw [decodeFrom_escape hleft hbackslash hu hb, hs]
            rfl
          · rw [decodeFrom_escape hleft hbackslash hu hb] at hs
            obtain ⟨s', hs', -⟩ := exists_of_map_eq_ok hs
            exact ⟨s', hs'⟩
    · rw [if_neg hbackslash, ih]
      refine exists_congr fun u => ⟨fun ⟨s, hs⟩ => ⟨charAt data i :: s, ?_⟩, fun ⟨s, hs⟩ => ?_⟩
      · rw [decodeFrom_other hleft hbackslash, hs]
        rfl
      · rw [decodeFrom_other hleft hbackslash] at hs
        obtain ⟨s', hs', -⟩ := exists_of_map_eq_ok hs
        exact ⟨s', hs'⟩

/-- A reading that fails has met a bad escape. -/
theorem eq_of_decodeFrom_eq_error (hlimit : limit ≤ data.length) (hfuel : limit - i < fuel)
    {e : Thrown} (h : decodeFrom u data limit fuel i = .error e) :
    e = .http badRequestCode "JSON coding error: bad escape sequence" := by
  have hmap {f : Bytes → Bytes} {x : Except Thrown Bytes} (h : f <$> x = .error e) :
      x = .error e := by
    cases x with
    | error e' => exact h
    | ok s => cases h
  induction fuel generalizing i with
  | zero => exact absurd hfuel (Nat.not_lt_zero _)
  | succ fuel ih =>
    by_cases hleft : NothingLeft data limit i
    · rw [decodeFrom_nothingLeft hleft] at h
      cases h
    have hi : i < limit := not_le.mp fun hend => hleft (.inl hend)
    by_cases hbackslash : charAt data i = 92
    · have hnext : i + 1 < limit := not_le.mp fun hend => hleft (.inr (.inr ⟨hbackslash, hend⟩))
      by_cases hu : charAt data (i + 1) = 117
      · have hlater := (decodeHexaUnicode_spec (u := u) (show i + 2 ≤ data.length by omega)).2
        rw [decodeFrom_digits hleft hbackslash hu] at h
        exact ih (by omega) (hmap h)
      · cases hb : shortEscapes.lookup (charAt data (i + 1)) with
        | none =>
          rw [decodeFrom_badEscape hleft hbackslash hu hb] at h
          exact (Except.error.inj h).symm
        | some b =>
          rw [decodeFrom_escape hleft hbackslash hu hb] at h
          exact ih (by omega) (hmap h)
    · rw [decodeFrom_other hleft hbackslash] at h
      exact ih (by omega) (hmap h)

theorem decodeFrom_fuel {fuel' : ℕ} (hlimit : limit ≤ data.length) (hfuel : limit - i < fuel)
    (hfuel' : limit - i < fuel') :
    decodeFrom u data limit fuel i = decodeFrom u data limit fuel' i := by
  have hsame : decodeFrom u ([] ++ data) (0 + limit) fuel (0 + i) =
      decodeFrom (u.behind 0) data limit fuel' i :=
    decodeFrom_behind hlimit hfuel hfuel'
  have hbehind : u.behind 0 = u := funext fun j => congrArg u (Nat.zero_add j)
  rwa [List.nil_append, Nat.zero_add, Nat.zero_add, hbehind] at hsame

/-- Where the digits are not settled, no string is what is read for all values. -/
theorem exists_ne_of_unsettled (fuel : ℕ) (hleft : ¬ NothingLeft data limit i)
    (hbackslash : charAt data i = 92) (hu : charAt data (i + 1) = 117)
    (h : Unsettled data (i + 2)) (s : Bytes) :
    ∃ u, decodeFrom u data limit (fuel + 1) i ≠ .ok s := by
  by_contra hall
  simp only [not_exists, not_not] at hall
  -- what is read starts with the character of the escape
  have hhead {u : Uninit} {b : UInt8} (hb : (decodeHexaUnicode u data (i + 2)).1.head? = some b) :
      s.head? = some b := by
    have hread := hall u
    rw [decodeFrom_digits hleft hbackslash hu] at hread
    obtain ⟨s', -, rfl⟩ := exists_of_map_eq_ok hread
    rw [List.head?_append, hb, Option.some_or]
  obtain ⟨hi, hblank | ⟨⟨hhigh, hpaired⟩, hblank⟩⟩ := h
  · have hletter (n : UInt64) (hn : n.toNat < 128) :
        (decodeHexaUnicode (fun _ => n) data (i + 2)).1.head? = some (lowByte n.toNat) := by
      have hnot : ¬ IsHigh n.toNat := fun hhigh => absurd hhigh.1 (by omega)
      rw [decodeHexaUnicode_eq _ hi, numberAt_of_isBlank hblank, if_neg fun h => hnot h.1,
        loneDigits, if_pos (by omega)]
      rfl
    have hboth := (hhead (hletter 65 (by decide))).symm.trans (hhead (hletter 66 (by decide)))
    exact absurd (Option.some.inj hboth) (by decide)
  · have hfirst (u : Uninit) : IsHigh (numberAt u data (i + 2)) := by
      rwa [numberAt_of_not_isBlank (not_isBlank_of_isHigh hhigh)]
    have hpair : (decodeHexaUnicode (fun _ => 0xDC00) data (i + 2)).1.head? = some
        (lowByte ((1024 * (numberAt (fun _ => 0xDC00) data (i + 2) % 1024) + 0x10000) /
          262144 % 8 + 0xF0)) := by
      rw [decodeHexaUnicode_eq _ hi, if_pos ⟨hfirst _, hpaired⟩, numberAt_of_isBlank hblank,
        if_pos (by decide)]
      rfl
    have hbroken : (decodeHexaUnicode (fun _ => 0) data (i + 2)).1.head? = some 0xEF := by
      rw [decodeHexaUnicode_eq _ hi, if_pos ⟨hfirst _, hpaired⟩, numberAt_of_isBlank hblank,
        if_neg (by decide)]
      rfl
    have hboth := (hhead hpair).symm.trans (hhead hbroken)
    have hbyte := congrArg UInt8.toNat (Option.some.inj hboth)
    rw [lowByte, UInt8.toNat_ofNat', Nat.mod_eq_of_lt (by omega)] at hbyte
    have : (0xEF : UInt8).toNat = 0xEF := rfl
    omega

end Values

end VplJail.Json
