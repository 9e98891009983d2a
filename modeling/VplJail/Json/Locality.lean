import VplJail.Json.Blanks

/-!
# What a string is read from

The decoder bounds an escape by the end of the document and not by that of the string. Where the scan
that has found the string and the decoder part their ways, it reads escapes across the closing
quotation mark. Where an escape has blanks for digits, it makes a character of whatever the variable
for the number held before.
-/

namespace VplJail.Json

open Rpc Rpc.ParseNode Util

/-- The node of a string: `processNode` makes it at a quotation mark. -/
def IsString (u : Uninit) (raw : Bytes) (t : ParseNode) : Prop :=
  ∃ fuel offset tag next, charAt raw offset = 34 ∧
    processNode u raw fuel offset = .ok (.mk tag t.offset t.len t.children, next)

/-! ## The escapes that cross the end of a string -/

/-- The digits at a place cross the limit. Either the first four do, in a text that has them, and do
not stand for the replacement character themselves; or those of a second escape do, and the reading
goes on behind the first of them. -/
def CutAt (raw : Bytes) (limit i : ℕ) : Prop :=
  limit < i + 4 ∧ i + 4 ≤ raw.length ∧ number raw i % 0x10000 ≠ 0xFFFD ∨
    i + 4 ≤ limit ∧ limit < i + 10 ∧ StartsPair raw i ∧ ¬ NothingLeft raw limit (i + 7)

instance (raw : Bytes) (limit i : ℕ) : Decidable (CutAt raw limit i) :=
  inferInstanceAs (Decidable (_ ∨ _))

/-- Where the reading goes on behind digits: at the second digit of the second escape, if that is not
one of a second half. -/
def behindDigits (raw : Bytes) (i : ℕ) : ℕ :=
  if raw.length < i + 4 then raw.length
  else if StartsPair raw i then if IsLow (number raw (i + 6)) then i + 10 else i + 7
  else i + 4

/-- The reading of a string from a place on leaves its text. The first escape that does so crosses
the end, or has blanks for digits, where the string can be read to its end in its document or
alone. -/
def strays (raw : Bytes) (start limit : ℕ) : ℕ → ℕ → Bool
  | 0, _ => false
  | fuel + 1, i =>
      if NothingLeft raw limit i then false
      else if charAt raw i = 92 then
        if charAt raw (i + 1) = 117 then
          if Unsettled raw (i + 2) then
            let text := part raw start limit
            isReadable raw limit (fuel + 1) i ||
              isReadable text text.length (text.length + 1) (i - start)
          else
            CutAt raw limit (i + 2) || strays raw start limit fuel (behindDigits raw (i + 2))
        else
          (shortEscapes.lookup (charAt raw (i + 1))).isSome && strays raw start limit fuel (i + 2)
      else strays raw start limit fuel (i + 1)

/-! ## Digits with a quotation mark -/

theorem hexNumber_lt (digits : Bytes) : hexNumber digits < 16 ^ digits.length := by
  have hdigit (b : UInt8) : (hexDigit b).getD 0 < 16 := by
    cases h : hexDigit b with
    | none => exact Nat.succ_pos 15
    | some n => exact (hexDigit_cases h).1
  have hfold (ds : Bytes) (n : ℕ) :
      ds.foldl (fun n b => 16 * n + (hexDigit b).getD 0) n < (n + 1) * 16 ^ ds.length := by
    induction ds generalizing n with
    | nil => simp
    | cons b ds ih =>
      have hb := hdigit b
      rw [List.foldl_cons, List.length_cons, pow_succ']
      calc _ < (16 * n + (hexDigit b).getD 0 + 1) * 16 ^ ds.length := ih _
        _ ≤ ((n + 1) * 16) * 16 ^ ds.length := Nat.mul_le_mul_right _ (by omega)
        _ = (n + 1) * (16 * 16 ^ ds.length) := Nat.mul_assoc _ _ _
  simpa [hexNumber] using hfold digits 0

/-- A quotation mark ends the digits in front of it. -/
theorem hexNumber_takeWhile_lt {text : Bytes} (h : text.length ≤ 4 ∧ 34 ∈ text) :
    hexNumber (text.takeWhile fun b => (hexDigit b).isSome) < 4096 := by
  obtain ⟨hlength, h⟩ := h
  have hprefix := List.takeWhile_prefix (l := text) fun b => (hexDigit b).isSome
  have hne : (text.takeWhile fun b => (hexDigit b).isSome).length ≠ text.length := by
    intro heq
    rw [← hprefix.eq_of_length heq] at h
    exact absurd (List.mem_takeWhile_imp h) (by decide)
  have hlt := hexNumber_lt (text.takeWhile fun b => (hexDigit b).isSome)
  have hpow := Nat.pow_le_pow_right (show 0 < 16 by decide)
    (show (text.takeWhile fun b => (hexDigit b).isSome).length ≤ 3 by
      have := hprefix.length_le
      omega)
  omega

/-- What is read from four bytes with a quotation mark is small, up to the sign. -/
theorem readHex_of_quote {initial : UInt64} {text : Bytes} (hlength : text.length ≤ 4)
    (h : 34 ∈ text) : readHex initial text < 4096 ∨ 2 ^ 64 - 4096 < readHex initial text := by
  have hdrop : (text.dropWhile isSpace).length ≤ 4 ∧ 34 ∈ text.dropWhile isSpace := by
    refine ⟨((List.dropWhile_sublist isSpace).length_le).trans hlength, ?_⟩
    rw [← List.takeWhile_append_dropWhile (p := isSpace) (l := text)] at h
    rcases List.mem_append.mp h with h | h
    · exact absurd (List.mem_takeWhile_imp h) (by decide)
    · exact h
  have hsigned (b : Bool) {n : ℕ} (hn : n < 4096) :
      (if b = true then (2 ^ 64 - n) % 2 ^ 64 else n) < 4096 ∨
        2 ^ 64 - 4096 < if b = true then (2 ^ 64 - n) % 2 ^ 64 else n := by
    cases b with
    | false => exact .inl hn
    | true =>
      rw [if_pos rfl]
      omega
  -- neither a sign nor `0x` is a quotation mark
  have hcons {b : UInt8} {t u : Bytes} (hu : u.length ≤ 4 ∧ 34 ∈ u) (heq : u = b :: t)
      (hb : b ≠ 34) : t.length ≤ 4 ∧ 34 ∈ t := by
    rw [heq] at hu
    exact ⟨(Nat.le_succ _).trans hu.1, (List.mem_cons.mp hu.2).resolve_left hb.symm⟩
  unfold readHex
  generalize text.dropWhile isSpace = t at hdrop ⊢
  dsimp only
  rw [if_neg (List.ne_nil_of_mem hdrop.2)]
  apply hsigned
  apply hexNumber_takeWhile_lt
  have hsign {s : Bool × Bytes} (hs : s.2 = t ∨ ∃ b, b ≠ 34 ∧ t = b :: s.2) :
      s.2.length ≤ 4 ∧ 34 ∈ s.2 := by
    rcases hs with hs | ⟨b, hb, hs⟩
    · rwa [hs]
    · exact hcons hdrop hs hb
  split
  · rename_i heq
    refine hcons (hcons (hsign ?_) heq (by decide)) rfl (by decide)
    split
    exacts [.inr ⟨45, by decide, rfl⟩, .inr ⟨43, by decide, rfl⟩, .inl rfl]
  · rename_i heq
    refine hcons (hcons (hsign ?_) heq (by decide)) rfl (by decide)
    split
    exacts [.inr ⟨45, by decide, rfl⟩, .inr ⟨43, by decide, rfl⟩, .inl rfl]
  · apply hsign
    split
    exacts [.inr ⟨45, by decide, rfl⟩, .inr ⟨43, by decide, rfl⟩, .inl rfl]

/-! ## A string and its text -/

/-- A text between two places of another one, with a quotation mark behind it. -/
structure Quoted (raw text : Bytes) (start limit : ℕ) : Prop where
  text_eq : text = (raw.drop start).take text.length
  stop : start + text.length = limit
  quote : charAt raw limit = 34
  lt : limit < raw.length

section Quoted

variable {raw text : Bytes} {start limit : ℕ} (h : Quoted raw text start limit)

include h

theorem Quoted.take_eq {k n : ℕ} (hk : k + n ≤ text.length) :
    (text.drop k).take n = (raw.drop (start + k)).take n := by
  rw [h.text_eq, List.drop_take, List.take_take, List.drop_drop, Nat.min_eq_left (by omega)]

theorem Quoted.charAt_eq {k : ℕ} (hk : k < text.length) :
    charAt text k = charAt raw (start + k) := by
  have hget : text[k]? = raw[start + k]? := by
    have hone := congrArg List.head? (h.take_eq (k := k) (n := 1) (by omega))
    rwa [List.head?_take, if_neg (by decide), List.head?_take, if_neg (by decide),
      List.head?_drop, List.head?_drop] at hone
  rw [charAt, charAt, List.getD_eq_getElem?_getD, hget, List.getD_eq_getElem?_getD]

/-- The quotation mark is among the bytes that cross it. -/
theorem Quoted.quote_mem {i n : ℕ} (hi : i ≤ limit) (hn : limit < i + n) :
    34 ∈ (raw.drop i).take n := by
  have hlt := h.lt
  have hget : raw[limit]? = some 34 := by
    have hquote := h.quote
    rw [charAt, List.getD_eq_getElem?_getD, List.getElem?_eq_getElem hlt] at hquote
    rw [List.getElem?_eq_getElem hlt]
    exact congrArg some hquote
  refine List.mem_of_getElem? (i := limit - i) ?_
  rw [List.getElem?_take_of_lt (by omega), List.getElem?_drop, Nat.add_sub_cancel' hi, hget]

/-- What is read across the quotation mark is no surrogate. -/
theorem Quoted.not_surrogate {i : ℕ} (hi : i ≤ limit) (hn : limit < i + 4) :
    ¬ IsHigh (number raw i) ∧ ¬ IsLow (number raw i) := by
  have hread : number raw i < 4096 ∨ 2 ^ 64 - 4096 < number raw i :=
    readHex_of_quote (List.length_take_le 4 _) (h.quote_mem hi hn)
  rw [IsHigh, IsLow]
  omega

/-- A quotation mark is no blank. -/
theorem Quoted.not_isBlank {i : ℕ} (hi : i ≤ limit) (hn : limit < i + 4) : ¬ IsBlank raw i :=
  fun hblank => absurd (hblank 34 (h.quote_mem hi hn)) (by decide)

end Quoted

/-! ## Digits -/

section Digits

variable {u : Uninit} {raw : Bytes} {i : ℕ}

theorem decodeHexaUnicode_snd (hpos : 0 < raw.length) (h : ¬ Unsettled raw i) :
    (decodeHexaUnicode u raw i).2 + 1 = behindDigits raw i := by
  rw [behindDigits]
  by_cases hi : raw.length < i + 4
  · rw [if_pos hi, decodeHexaUnicode, if_pos hi]
    exact Nat.sub_add_cancel hpos
  · rw [if_neg hi, decodeHexaUnicode_settled u (by omega) h]
    split_ifs <;> rfl

/-- The replacement character by its number, up to what is lost of it. -/
theorem loneDigits_eq_replacement {n : ℕ} (hhigh : ¬ IsHigh n) (hlow : ¬ IsLow n) :
    loneDigits n = replacement ↔ n % 0x10000 = 0xFFFD := by
  have hbyte {k m : ℕ} (hk : k < 256) (hm : m < 256) : lowByte k = lowByte m ↔ k = m := by
    rw [lowByte, lowByte, ← UInt8.toNat_inj, UInt8.toNat_ofNat', UInt8.toNat_ofNat',
      Nat.mod_eq_of_lt hk, Nat.mod_eq_of_lt hm]
  rw [loneDigits, if_neg (not_or.mpr ⟨hhigh, hlow⟩)]
  have hreplacement : replacement = [lowByte 0xEF, lowByte 0xBF, lowByte 0xBD] := rfl
  split_ifs
  · refine iff_of_false (fun h => ?_) (by omega)
    cases (List.cons.inj h).2
  · refine iff_of_false (fun h => ?_) (by omega)
    cases (List.cons.inj (List.cons.inj h).2).2
  · rw [hreplacement, List.cons.injEq, List.cons.injEq, List.cons.injEq,
      hbyte (by omega) (by omega), hbyte (by omega) (by omega), hbyte (by omega) (by omega),
      eq_self_iff_true, and_true]
    omega

end Digits

/-! ## The steps of the decoder -/

section Steps

variable {u : Uninit} {data : Bytes} {start limit fuel i : ℕ}

theorem strays_nothingLeft (h : NothingLeft data limit i) :
    strays data start limit fuel i = false := by
  cases fuel with
  | zero => rfl
  | succ fuel => exact if_pos h

/-- Where the text ends within the digits, it is read as the replacement character. -/
theorem decodeFrom_cut (hi : data.length < i + 4) :
    ((decodeHexaUnicode u data i).1 ++ ·) <$>
        decodeFrom u data data.length (fuel + 1) ((decodeHexaUnicode u data i).2 + 1) =
      .ok replacement := by
  rw [decodeHexaUnicode, if_pos hi, decodeFrom_nothingLeft (.inl (by omega))]
  exact congrArg _ (List.append_nil _)

end Steps

/-! ## The string in its document and alone -/

section Alone

variable {raw text : Bytes} {start limit k : ℕ} (h : Quoted raw text start limit)

include h

theorem Quoted.part_eq : part raw start limit = text := by
  have hstop := h.stop
  rw [part, show limit - start = text.length by omega]
  exact h.text_eq.symm

theorem Quoted.nothingLeft_iff :
    NothingLeft raw limit (start + k) ↔ NothingLeft text text.length k := by
  have hstop := h.stop
  rw [NothingLeft, NothingLeft]
  by_cases hk : k < text.length
  · rw [h.charAt_eq hk, show limit ≤ start + k ↔ text.length ≤ k by omega,
      show limit ≤ start + k + 1 ↔ text.length ≤ k + 1 by omega]
  · exact iff_of_true (.inl (by omega)) (.inl (by omega))

theorem Quoted.number_eq (hk : k + 4 ≤ text.length) : number text k = number raw (start + k) := by
  rw [number, number, numberAt, numberAt, h.take_eq hk]
  rfl

theorem Quoted.isBlank_iff (hk : k + 4 ≤ text.length) :
    IsBlank raw (start + k) ↔ IsBlank text k := by
  rw [IsBlank, IsBlank, h.take_eq hk]

theorem Quoted.startsPair_iff (hk : k + 4 ≤ text.length)
    (hpair : StartsPair raw (start + k) → k + 10 ≤ text.length) :
    StartsPair raw (start + k) ↔ StartsPair text k := by
  have hstop := h.stop
  have hlt := h.lt
  rw [StartsPair, StartsPair, h.number_eq hk, IsPaired, IsPaired]
  constructor
  · rintro ⟨hhigh, hnext, hlength⟩
    have hten := hpair ⟨hhigh, hnext, hlength⟩
    refine ⟨hhigh, ?_, hten⟩
    rw [h.take_eq (by omega), ← Nat.add_assoc, hnext]
  · rintro ⟨hhigh, hnext, hlength⟩
    refine ⟨hhigh, ?_, by omega⟩
    rw [Nat.add_assoc, ← h.take_eq (by omega), hnext]

/-- The two bytes behind digits are no quotation mark if another escape follows. -/
theorem Quoted.paired_le (hpaired : IsPaired raw (start + k)) (hk : k + 4 ≤ text.length) :
    k + 6 ≤ text.length := by
  have hstop := h.stop
  have hquote := h.quote
  have hdrop : raw.drop (start + k + 4) = [92, 117] ++ (raw.drop (start + k + 4)).drop 2 := by
    rw [← hpaired.1, List.take_append_drop]
  by_contra hlt
  rcases (by omega : limit = start + k + 4 ∨ limit = start + k + 5) with rfl | rfl
  · rw [charAt_of_drop hdrop] at hquote
    cases hquote
  · rw [charAt_of_drop (drop_of_cons hdrop)] at hquote
    cases hquote

/-- Blanks in the place of digits are in the string. -/
theorem Quoted.unsettled_iff (hk : k ≤ text.length) :
    Unsettled raw (start + k) ↔ Unsettled text k := by
  have hstop := h.stop
  have hlt := h.lt
  by_cases hfour : k + 4 ≤ text.length
  · rw [Unsettled, Unsettled, h.isBlank_iff hfour]
    refine and_congr (iff_of_true (by omega) hfour) (or_congr Iff.rfl ?_)
    constructor
    · rintro ⟨hpair, hblank⟩
      have hsix := h.paired_le hpair.2 hfour
      have hten : k + 10 ≤ text.length := by
        by_contra hshort
        exact h.not_isBlank (by omega) (by omega) hblank
      rw [Nat.add_assoc] at hblank
      exact ⟨(h.startsPair_iff hfour fun _ => hten).mp hpair, (h.isBlank_iff (by omega)).mp hblank⟩
    · rintro ⟨hpair, hblank⟩
      have hten := hpair.2.2
      rw [Nat.add_assoc]
      exact ⟨(h.startsPair_iff hfour fun _ => hten).mpr hpair, (h.isBlank_iff (by omega)).mpr hblank⟩
  · refine iff_of_false ?_ fun htext => hfour htext.1
    rintro ⟨-, hblank | ⟨hpair, -⟩⟩
    · exact h.not_isBlank (by omega) (by omega) hblank
    · exact (h.not_surrogate (by omega) (by omega)).1 hpair.1

/-- Settled digits that do not cross the end mean the same. -/
theorem Quoted.decodeHexaUnicode_eq (u u' : Uninit) (hk : k + 4 ≤ text.length)
    (hsettled : ¬ Unsettled raw (start + k))
    (hpair : StartsPair raw (start + k) → k + 10 ≤ text.length) :
    decodeHexaUnicode u raw (start + k) =
      ((decodeHexaUnicode u' text k).1, start + (decodeHexaUnicode u' text k).2) := by
  have hstop := h.stop
  have hlt := h.lt
  have hsame := h.startsPair_iff hk hpair
  rw [decodeHexaUnicode_settled u (by omega) hsettled,
    decodeHexaUnicode_settled u' hk (mt (h.unsettled_iff (by omega)).mpr hsettled), h.number_eq hk]
  by_cases hraw : StartsPair raw (start + k)
  · rw [if_pos hraw, if_pos (hsame.mp hraw), Nat.add_assoc start,
      h.number_eq (k := k + 6) (by have := hpair hraw; omega)]
    split_ifs <;> rfl
  · rw [if_neg hraw, if_neg (fun htext => hraw (hsame.mpr htext))]
    rfl

/-- The two readings from a first half on whose second escape crosses the end. -/
theorem Quoted.brokenPair_iff {u u' : Uninit} {fuel fuel' : ℕ} (hfour : k + 4 ≤ text.length)
    (hsettled : ¬ Unsettled raw (start + k)) (hstarts : StartsPair raw (start + k))
    (hshort : text.length < k + 10) :
    ((decodeHexaUnicode u raw (start + k)).1 ++ ·) <$>
        decodeFrom u raw limit (fuel + 1) ((decodeHexaUnicode u raw (start + k)).2 + 1) =
      ((decodeHexaUnicode u' text k).1 ++ ·) <$>
        decodeFrom u' text text.length (fuel' + 2) ((decodeHexaUnicode u' text k).2 + 1) ↔
    ¬ CutAt raw limit (start + k) ∧
      strays raw start limit (fuel + 1) (behindDigits raw (start + k)) = false := by
  have hstop := h.stop
  have hlt := h.lt
  obtain ⟨hhigh, hpaired⟩ := id hstarts
  have hlength := hpaired.2
  have hdrop : raw.drop (start + k + 4) = [92, 117] ++ (raw.drop (start + k + 4)).drop 2 := by
    rw [← hpaired.1, List.take_append_drop]
  have hbackslash : charAt raw (start + k + 4) = 92 := charAt_of_drop hdrop
  have hu : charAt raw (start + k + 5) = 117 := charAt_of_drop (drop_of_cons hdrop)
  have hsix := h.paired_le hpaired hfour
  obtain ⟨-, hlow⟩ := h.not_surrogate (i := start + k + 6) (by omega) (by omega)
  have hlone : ¬ StartsPair text k := fun hpair => absurd hpair.2.2 (by omega)
  have hfirst : loneDigits (number raw (start + k)) = replacement := by
    obtain ⟨hleast, hmost⟩ := id hhigh
    rw [loneDigits, if_neg (by omega), if_neg (by omega), if_pos (.inl hhigh)]
  have hbackslash' : charAt text (k + 4) = 92 := (h.charAt_eq (by omega)).trans hbackslash
  have hu' : charAt text (k + 4 + 1) = 117 := (h.charAt_eq (by omega)).trans hu
  have hgoing : ¬ NothingLeft text text.length (k + 3 + 1) := by
    rintro (hend | hend | ⟨-, hend⟩)
    · omega
    · rw [show charAt text (k + 3 + 1) = 92 from hbackslash'] at hend
      cases hend
    · omega
  rw [behindDigits, if_neg (by omega), if_pos hstarts, if_neg hlow,
    decodeHexaUnicode_settled u (by omega) hsettled, if_pos hstarts, if_neg hlow,
    decodeHexaUnicode_settled u' hfour (mt (h.unsettled_iff (by omega)).mpr hsettled), if_neg hlone,
    h.number_eq hfour, hfirst, decodeFrom_digits hgoing hbackslash' hu', decodeFrom_cut (by omega)]
  have htwice : (replacement ++ ·) <$> (.ok replacement : Except Thrown Bytes) =
      (replacement ++ replacement ++ ·) <$> .ok [] := rfl
  rw [htwice, map_inj (List.append_right_injective _), decodeFrom_eq_nil_iff]
  constructor
  · intro hnothing
    refine ⟨?_, strays_nothingLeft hnothing⟩
    rintro (⟨hlimit, -⟩ | ⟨-, -, -, hleft⟩)
    · omega
    · exact hleft hnothing
  · rintro ⟨hcut, -⟩
    by_contra hleft
    exact hcut (.inr ⟨by omega, by omega, hstarts, hleft⟩)

/-- The two readings from settled digits on. -/
theorem Quoted.digits_iff {fuel fuel' : ℕ} (hk : k ≤ text.length) (hfuel : text.length - k < fuel)
    (hfuel' : text.length - k < fuel') (hsettled : ¬ Unsettled raw (start + k))
    (ih : ∀ j, k ≤ j →
      ((∀ u u', decodeFrom u raw limit fuel (start + j) = decodeFrom u' text text.length fuel' j) ↔
        strays raw start limit fuel (start + j) = false)) :
    (∀ u u', ((decodeHexaUnicode u raw (start + k)).1 ++ ·) <$>
        decodeFrom u raw limit fuel ((decodeHexaUnicode u raw (start + k)).2 + 1) =
      ((decodeHexaUnicode u' text k).1 ++ ·) <$>
        decodeFrom u' text text.length fuel' ((decodeHexaUnicode u' text k).2 + 1)) ↔
    ¬ CutAt raw limit (start + k) ∧
      strays raw start limit fuel (behindDigits raw (start + k)) = false := by
  have hstop := h.stop
  have hlt := h.lt
  obtain ⟨fuel, rfl⟩ : ∃ n, fuel = n + 1 := ⟨fuel - 1, by omega⟩
  obtain ⟨fuel', rfl⟩ : ∃ n, fuel' = n + 1 := ⟨fuel' - 1, by omega⟩
  -- where the values do not matter, it is enough to know the two readings for any of them
  have hany {P : Uninit → Uninit → Prop} {Q : Prop} (hiff : ∀ u u', P u u' ↔ Q) :
      (∀ u u', P u u') ↔ Q :=
    ⟨fun hall => (hiff .zero .zero).mp (hall .zero .zero), fun hq u u' => (hiff u u').mpr hq⟩
  by_cases hfour : k + 4 ≤ text.length
  · by_cases hpair : StartsPair raw (start + k) ∧ text.length < k + 10
    · obtain ⟨fuel', rfl⟩ : ∃ n, fuel' = n + 1 := ⟨fuel' - 1, by omega⟩
      exact hany fun u u' => h.brokenPair_iff hfour hsettled hpair.1 hpair.2
    · have hwhole (u u' : Uninit) := h.decodeHexaUnicode_eq u u' hfour hsettled
        fun hstarts => not_lt.mp fun hlt => hpair ⟨hstarts, hlt⟩
      have hcut : ¬ CutAt raw limit (start + k) := by
        rintro (⟨hlimit, -⟩ | ⟨-, hlimit, hstarts, -⟩)
        · omega
        · exact hpair ⟨hstarts, by omega⟩
      have hplace : start + ((decodeHexaUnicode .zero text k).2 + 1) = behindDigits raw (start + k) := by
        rw [← decodeHexaUnicode_snd (u := .zero) (by omega) hsettled, hwhole .zero .zero, Nat.add_assoc]
      have hsame (u : Uninit) : decodeHexaUnicode u text k = decodeHexaUnicode .zero text k := by
        have hsettled' := mt (h.unsettled_iff hk).mpr hsettled
        rw [decodeHexaUnicode_settled u hfour hsettled',
          decodeHexaUnicode_settled .zero hfour hsettled']
      rw [and_iff_right hcut, ← hplace, ← ih _ (decodeHexaUnicode_spec hk).2]
      refine forall₂_congr fun u u' => ?_
      rw [hwhole u .zero, hsame u', Nat.add_assoc, map_inj (List.append_right_injective _)]
  -- the string ends inside the four digits, which in the document go on behind its quote
  · have hshort : text.length < k + 4 := by omega
    refine hany fun u u' => ?_
    rw [decodeFrom_cut hshort]
    by_cases hend : raw.length < start + k + 4
    · have hcut : ¬ CutAt raw limit (start + k) := by
        rintro (⟨-, hlength, -⟩ | ⟨hlimit, -⟩) <;> omega
      rw [decodeHexaUnicode, if_pos hend, decodeFrom_nothingLeft (.inl (by dsimp only; omega)),
        behindDigits, if_pos hend, strays_nothingLeft (.inl hlt.le)]
      exact iff_of_true (congrArg _ (List.append_nil _)) ⟨hcut, rfl⟩
    · obtain ⟨hhigh, hlow⟩ := h.not_surrogate (i := start + k) (by omega) (by omega)
      have hstarts : ¬ StartsPair raw (start + k) := fun hstarts => hhigh hstarts.1
      rw [behindDigits, if_neg hend, if_neg hstarts, strays_nothingLeft (.inl (by omega)),
        decodeHexaUnicode_settled u (by omega) hsettled, if_neg hstarts,
        decodeFrom_nothingLeft (.inl (by dsimp only; omega))]
      refine Iff.trans ?_ (and_iff_left rfl).symm
      refine (Iff.of_eq (Except.ok.injEq _ _)).trans ?_
      dsimp only
      rw [List.append_nil, loneDigits_eq_replacement hhigh hlow]
      constructor
      · rintro heq (⟨-, -, hne⟩ | ⟨hle, -⟩)
        · exact hne heq
        · omega
      · intro hcut
        by_contra hne
        exact hcut (.inl ⟨by omega, by omega, hne⟩)

/-- The two readings from an escape with blanks on: for some values they differ, unless all of them
fail. -/
theorem Quoted.blanks_iff {fuel fuel' : ℕ} (hfuel : text.length - k < fuel + 1)
    (hfuel' : text.length - k < fuel' + 1) (hleft : ¬ NothingLeft raw limit (start + k))
    (hbackslash : charAt raw (start + k) = 92) (hu : charAt raw (start + k + 1) = 117)
    (hunsettled : Unsettled raw (start + k + 2)) :
    (∀ u u', decodeFrom u raw limit (fuel + 1) (start + k) =
        decodeFrom u' text text.length (fuel' + 1) k) ↔
      isReadable raw limit (fuel + 1) (start + k) = false ∧
        isReadable text text.length (text.length + 1) k = false := by
  have hstop := h.stop
  have hlt := h.lt
  have hleft' := mt h.nothingLeft_iff.mpr hleft
  have hk : k < text.length := not_le.mp fun hle => hleft' (.inl hle)
  have hbackslash' : charAt text k = 92 := (h.charAt_eq hk).trans hbackslash
  have hnext : k + 1 < text.length :=
    not_le.mp fun hle => hleft' (.inr (.inr ⟨hbackslash', hle⟩))
  have hu' : charAt text (k + 1) = 117 := (h.charAt_eq hnext).trans hu
  have hunsettled' : Unsettled text (k + 2) := (h.unsettled_iff (by omega)).mp hunsettled
  have hreads (data : Bytes) (limit fuel i : ℕ) (hlimit : limit ≤ data.length) :
      isReadable data limit fuel i = false ↔
        ∀ u s, decodeFrom u data limit fuel i ≠ .ok s := by
    rw [← Bool.not_eq_true, isReadable_iff hlimit]
    simp only [not_exists, ne_eq]
  rw [hreads _ _ _ _ hlt.le, hreads _ _ _ _ le_rfl]
  constructor
  · intro hall
    constructor
    · intro u s hs
      obtain ⟨u', hu'⟩ := exists_ne_of_unsettled fuel' hleft' hbackslash' hu' hunsettled' s
      exact hu' ((hall u u').symm.trans hs)
    · intro u' s hs
      obtain ⟨u, hu⟩ := exists_ne_of_unsettled fuel hleft hbackslash hu hunsettled s
      rw [decodeFrom_fuel le_rfl (by omega) hfuel'] at hs
      exact hu ((hall u u').trans hs)
  · rintro ⟨hraw, htext⟩ u u'
    cases hread : decodeFrom u raw limit (fuel + 1) (start + k) with
    | ok s => exact absurd hread (hraw u s)
    | error e =>
      cases hread' : decodeFrom u' text text.length (fuel' + 1) k with
      | ok s =>
        rw [decodeFrom_fuel le_rfl hfuel' (show _ < text.length + 1 by omega)] at hread'
        exact absurd hread' (htext u' s)
      | error e' =>
        rw [eq_of_decodeFrom_eq_error hlt.le (by omega) hread,
          eq_of_decodeFrom_eq_error le_rfl hfuel' hread']

/-- The two readings agree for all values if and only if the string does not stray from its text. -/
theorem Quoted.decodeFrom_eq_iff {fuel fuel' : ℕ} (hfuel : text.length - k < fuel)
    (hfuel' : text.length - k < fuel') :
    (∀ u u', decodeFrom u raw limit fuel (start + k) = decodeFrom u' text text.length fuel' k) ↔
      strays raw start limit fuel (start + k) = false := by
  induction fuel generalizing fuel' k with
  | zero => exact absurd hfuel (Nat.not_lt_zero _)
  | succ fuel ih =>
    obtain ⟨fuel', rfl⟩ : ∃ n, fuel' = n + 1 := ⟨fuel' - 1, by omega⟩
    rw [strays]
    by_cases hnothing : NothingLeft raw limit (start + k)
    · rw [if_pos hnothing]
      refine iff_of_true (fun u u' => ?_) rfl
      rw [decodeFrom_nothingLeft hnothing, decodeFrom_nothingLeft (h.nothingLeft_iff.mp hnothing)]
    have hnothing' := mt h.nothingLeft_iff.mpr hnothing
    have hk : k < text.length := not_le.mp fun hle => hnothing' (.inl hle)
    have hchar := h.charAt_eq hk
    have hlater (j : ℕ) (hj : k < j) :
        (∀ u u', decodeFrom u raw limit fuel (start + j) =
          decodeFrom u' text text.length fuel' j) ↔ strays raw start limit fuel (start + j) = false :=
      ih (by omega) (by omega)
    rw [if_neg hnothing]
    by_cases hbackslash : charAt raw (start + k) = 92
    · rw [if_pos hbackslash]
      have hbackslash' := hchar.trans hbackslash
      have hnext : k + 1 < text.length :=
        not_le.mp fun hle => hnothing' (.inr (.inr ⟨hbackslash', hle⟩))
      have hchar' : charAt text (k + 1) = charAt raw (start + k + 1) := h.charAt_eq hnext
      by_cases hu : charAt raw (start + k + 1) = 117
      · rw [if_pos hu]
        by_cases hunsettled : Unsettled raw (start + k + 2)
        · rw [if_pos hunsettled, h.blanks_iff hfuel hfuel' hnothing hbackslash hu hunsettled,
            h.part_eq, Nat.add_sub_cancel_left, Bool.or_eq_false_iff]
        · rw [if_neg hunsettled, Bool.or_eq_false_iff, decide_eq_false_iff_not, Nat.add_assoc,
            ← h.digits_iff hnext (by omega) (show _ < fuel' by omega) hunsettled fun j hj =>
              hlater j (by omega)]
          refine forall₂_congr fun u u' => ?_
          rw [decodeFrom_digits hnothing hbackslash hu,
            decodeFrom_digits hnothing' hbackslash' (hchar'.trans hu), Nat.add_assoc]
      · rw [if_neg hu]
        cases hb : shortEscapes.lookup (charAt raw (start + k + 1)) with
        | none =>
          refine iff_of_true (fun u u' => ?_) rfl
          rw [decodeFrom_badEscape hnothing hbackslash hu hb,
            decodeFrom_badEscape hnothing' hbackslash' (hchar' ▸ hu) (hchar' ▸ hb)]
        | some b =>
          rw [Option.isSome_some, Bool.true_and, Nat.add_assoc, ← hlater _ (by omega)]
          refine forall₂_congr fun u u' => ?_
          rw [decodeFrom_escape hnothing hbackslash hu hb,
            decodeFrom_escape hnothing' hbackslash' (hchar' ▸ hu) (hchar' ▸ hb),
            map_inj (List.cons_injective), Nat.add_assoc]
    · rw [if_neg hbackslash, Nat.add_assoc, ← hlater _ (by omega)]
      refine forall₂_congr fun u u' => ?_
      rw [decodeFrom_other hnothing hbackslash, decodeFrom_other hnothing' (hchar ▸ hbackslash), hchar,
        map_inj (List.cons_injective), Nat.add_assoc]

end Alone

/-! ## The strings of a document -/

/-- The reading of a string strays from its text. -/
def Strays (raw : Bytes) (t : ParseNode) : Prop :=
  strays raw t.offset t.stop (raw.length + 1) t.offset = true

/-- A string stands in front of a quotation mark. -/
theorem IsString.quoted {u : Uninit} {raw : Bytes} {t : ParseNode} (h : IsString u raw t) :
    Quoted raw (t.rawContent raw) t.offset t.stop ∧ t.children = [] := by
  obtain ⟨fuel, offset, tag, next, hquote, hnode⟩ := h
  cases fuel with
  | zero => cases hnode
  | succ fuel =>
    rw [processNode, hquote, if_neg (by decide), if_neg (by decide), if_pos rfl] at hnode
    cases hscan : scanString raw (raw.length + 1) (offset + 1) with
    | error e =>
      rw [hscan] at hnode
      cases hnode
    | ok last =>
      rw [hscan] at hnode
      obtain ⟨hle, hlt, hlast⟩ := scanString_spec hscan
      have hmk := congrArg Prod.fst (Except.ok.inj hnode)
      obtain ⟨-, hoffset, hlen, hchildren⟩ := ParseNode.mk.inj hmk
      have hstop : t.stop = last := by
        rw [stop, ← hoffset, ← hlen, Nat.add_sub_cancel' hle]
      have hlength : (t.rawContent raw).length = t.len := by
        rw [rawContent, List.length_take, List.length_drop]
        rw [stop] at hstop
        omega
      refine ⟨⟨?_, ?_, ?_, ?_⟩, hchildren.symm⟩
      · rw [hlength]
        rfl
      · rw [hlength]
        rfl
      · rw [hstop, hlast]
      · rwa [hstop]

/-- A string of a document reads as its text alone does, whatever the variables hold in the two calls,
if and only if its reading does not stray from its text. -/
theorem decodeJSONString_alone_iff (u₀ : Uninit) (raw : Bytes) (root : ParseNode) :
    parse u₀ raw = .ok root → ∀ t, Mem t root → IsString u₀ raw t →
      ((∀ u u', decodeJSONString u raw t.offset t.len =
        decodeJSONString u' (t.rawContent raw) 0 t.len) ↔ ¬ Strays raw t) := by
  intro _ t _ hstring
  obtain ⟨hquoted, -⟩ := hstring.quoted
  have hlength : (t.rawContent raw).length = t.len :=
    Nat.add_left_cancel (hquoted.stop.trans rfl : t.offset + _ = t.offset + t.len)
  have hlt := hquoted.lt
  have hstop : t.offset + t.len = t.stop := rfl
  have hagree := hquoted.decodeFrom_eq_iff (k := 0) (show _ < raw.length + 1 by omega)
    (show _ < (t.rawContent raw).length + 1 by omega)
  simp only [decodeJSONString]
  rw [hstop, if_pos hlt.le, Nat.zero_add, if_pos hlength.ge, ← hlength, Strays, Bool.not_eq_true]
  exact hagree

/-- Escapes within their string, one of them with two digits only. -/
theorem decodeJSONString_alone_digits :
    parse .zero (ascii "[\"\\u0041\\u 4z!\"]") =
        .ok (.mk (ascii "array") 0 15 [.mk (ascii "string") 2 12 []]) ∧
      ∀ u u', decodeJSONString u (ascii "[\"\\u0041\\u 4z!\"]") 2 12 =
        decodeJSONString u' (ascii "\\u0041\\u 4z!") 0 12 := by
  have hroot : parse .zero (ascii "[\"\\u0041\\u 4z!\"]") =
      .ok (.mk (ascii "array") 0 15 [.mk (ascii "string") 2 12 []]) := rfl
  have hstring : IsString .zero (ascii "[\"\\u0041\\u 4z!\"]") (.mk (ascii "string") 2 12 []) :=
    ⟨1, 1, ascii "string", 15, rfl, rfl⟩
  have hwithin : ¬ Strays (ascii "[\"\\u0041\\u 4z!\"]") (.mk (ascii "string") 2 12 []) := by
    rw [Strays, Bool.not_eq_true]
    decide +kernel
  exact ⟨hroot, (decodeJSONString_alone_iff .zero _ _ hroot _
    (.child List.mem_cons_self (.refl _)) hstring).mpr hwithin⟩

/-- The scan takes a backslash for a digit, the decoder does not, and reads `\u12` with the quotation
mark and the comma behind it. -/
theorem not_decodeJSONString_alone :
    ¬ ∀ u raw root, parse u raw = .ok root → ∀ t, Mem t root → IsString u raw t →
      decodeJSONString u raw t.offset t.len = decodeJSONString u (t.rawContent raw) 0 t.len := by
  intro h
  have hroot : parse .zero (ascii "[\"\\uD800\\uAAA\\u12\", 1]") =
      .ok (.mk (ascii "array") 0 21 [.mk (ascii "string") 2 15 [], .mk (ascii "number") 20 1 []]) :=
    rfl
  have hstring : IsString .zero (ascii "[\"\\uD800\\uAAA\\u12\", 1]") (.mk (ascii "string") 2 15 []) :=
    ⟨1, 1, ascii "string", 18, rfl, rfl⟩
  have hsame := h .zero _ _ hroot _ (.child List.mem_cons_self (.refl _)) hstring
  have hread : decodeJSONString .zero (ascii "[\"\\uD800\\uAAA\\u12\", 1]") 2 15 =
      .ok (replacement ++ replacement ++ [65, 65, 0x12]) := by
    decide +kernel
  have halone : decodeJSONString .zero (ascii "\\uD800\\uAAA\\u12") 0 15 =
      .ok (replacement ++ replacement ++ [65, 65] ++ replacement) := by
    decide +kernel
  have hboth := hread.symm.trans (hsame.trans halone)
  exact absurd (Except.ok.inj hboth) (by decide)

end VplJail.Json
