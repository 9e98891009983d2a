import VplJail.Common.Places
import VplJail.Json.Grammar
import VplJail.Util.Text

/-!
# JSON strings

`encodeJSONString`, `decodeJSONString` and the scan of `processStringNode`. Both readers go through
the text of a string item by item: `Escaped` is the relation between what such a text means and the
text, and `scanString_escaped` and `decode_escaped` say that they read it so.
-/

namespace VplJail.Json

open Util

/-- The exception of the parser. -/
def parseError (message : String) : Thrown :=
  .http badRequestCode ("JSON parse error: " ++ message)

/-! ## Writing -/

/-- A digit as `std::hex` writes it. -/
def hexChar (n : ℕ) : UInt8 :=
  UInt8.ofNat (if n < 10 then 48 + n else 87 + n)

/-- `char_to_hex` of a byte -/
def charToHex (b : UInt8) : Bytes :=
  92 :: 117 :: [48, 48, hexChar (b.toNat / 16), hexChar (b.toNat % 16)]

/-- What `encodeJSONString` writes for a byte. -/
def encodeByte (b : UInt8) : Bytes :=
  if 128 ≤ b then [b]
  else if b = 34 then [92, 34]
  else if b = 92 then [92, 92]
  else if b = 47 then [92, 47]
  else if b = 8 then [92, 98]
  else if b = 12 then [92, 102]
  else if b = 10 then [92, 110]
  else if b = 13 then [92, 114]
  else if b = 9 then [92, 116]
  else if b = 127 then charToHex b
  else if b ≤ 31 then charToHex b
  else [b]

/-- `encodeJSONString`: quotes, backslashes and control characters are escaped. -/
def encodeJSONString (data : Bytes) : Bytes :=
  data.flatMap encodeByte

/-! ## Reading -/

/-- The scan of `processStringNode`: the place of the closing quotation mark. -/
def scanString (raw : Bytes) : ℕ → ℕ → Except Thrown ℕ
  | 0, _ => throw outOfFuel
  | fuel + 1, offset =>
      if raw.length ≤ offset then throw (parseError "end of string not found")
      else if charAt raw offset = 92 then
        if raw.length ≤ offset + 1 then throw (parseError "trailing backslash in string")
        else if charAt raw (offset + 1) = 117 ∧ offset + 1 + 4 < raw.length then
          scanString raw fuel (offset + 1 + 4 + 1)
        else scanString raw fuel (offset + 1 + 1)
      else if charAt raw offset = 34 then pure offset
      else scanString raw fuel (offset + 1)

/-- The number that a string of hexadecimal digits stands for. -/
def hexNumber (digits : Bytes) : ℕ :=
  digits.foldl (fun n b => 16 * n + (hexDigit b).getD 0) 0

/-- `std::hex >>` into a `size_t`: blanks, a sign, `0x`, and the digits that follow, where no digit
is 0. Where there are only blanks, nothing is read, and the variable keeps the value that it had. -/
def readHex (initial : UInt64) (text : Bytes) : ℕ :=
  let text := text.dropWhile isSpace
  if text = [] then initial.toNat
  else
    let (negative, text) := match text with
      | 45 :: text => (true, text)
      | 43 :: text => (false, text)
      | text => (false, text)
    let text := match text with
      | 48 :: 120 :: text => text
      | 48 :: 88 :: text => text
      | text => text
    let n := hexNumber (text.takeWhile fun b => (hexDigit b).isSome)
    if negative then (2 ^ 64 - n) % 2 ^ 64 else n

/-- What the variables of `decodeHexaUnicodeToUTF8` hold before a number is read into them, by the
place of its digits. Nothing sets them, so it may be anything. -/
abbrev Uninit := ℕ → UInt64

/-- They hold 0. Where no blanks are read, it does not matter what they hold. -/
def Uninit.zero : Uninit :=
  fun _ => 0

/-- The replacement character in UTF-8. -/
def replacement : Bytes :=
  [0xEF, 0xBF, 0xBD]

/-- The low byte of a number. -/
def lowByte (n : ℕ) : UInt8 :=
  UInt8.ofNat n

/-- `decodeHexaUnicodeToUTF8`: what it returns, and where it leaves `i`. -/
def decodeHexaUnicode (u : Uninit) (data : Bytes) (i : ℕ) : Bytes × ℕ :=
  if data.length < i + 4 then (replacement, data.length - 1)
  else
    let unicode := readHex (u i) ((data.drop i).take 4)
    if unicode ≤ 0x7F then ([lowByte unicode], i + 3)
    else if unicode ≤ 0x7FF then
      ([lowByte (unicode / 64 % 32 + 0xC0), lowByte (unicode % 64 + 0x80)], i + 3)
    else if 0xD800 ≤ unicode ∧ unicode < 0xDC00 then
      if (data.drop (i + 4)).take 2 ≠ [92, 117] ∨ data.length < i + 10 then (replacement, i + 3)
      else
        let lowSu := readHex (u (i + 6)) ((data.drop (i + 6)).take 4)
        if ¬ (0xDC00 ≤ lowSu ∧ lowSu ≤ 0xDFFF) then (replacement ++ replacement, i + 6)
        else
          let unicode := 1024 * (unicode % 1024) + lowSu % 1024 + 0x10000
          ([lowByte (unicode / 262144 % 8 + 0xF0), lowByte (unicode / 4096 % 64 + 0x80),
            lowByte (unicode / 64 % 64 + 0x80), lowByte (unicode % 64 + 0x80)], i + 6 + 3)
    else if 0xDC00 ≤ unicode ∧ unicode ≤ 0xDFFF then (replacement, i + 3)
    else
      ([lowByte (unicode / 4096 % 16 + 0xE0), lowByte (unicode / 64 % 64 + 0x80),
        lowByte (unicode % 64 + 0x80)], i + 3)

/-- The loop of `decodeJSONString`. -/
def decodeFrom (u : Uninit) (data : Bytes) (limit : ℕ) : ℕ → ℕ → Except Thrown Bytes
  | 0, _ => throw outOfFuel
  | fuel + 1, i =>
      if limit ≤ i then pure []
      else if charAt data i = 92 then
        -- a backslash in the last place is dropped
        if limit ≤ i + 1 then pure []
        else if charAt data (i + 1) = 117 then do
          -- the digits are looked for in the whole document, beyond the limit too
          let (chars, i) := decodeHexaUnicode u data (i + 1 + 1)
          let rest ← decodeFrom u data limit fuel (i + 1)
          pure (chars ++ rest)
        else match shortEscapes.lookup (charAt data (i + 1)) with
          | some b => do
              let rest ← decodeFrom u data limit fuel (i + 1 + 1)
              pure (b :: rest)
          | none => throw (.http badRequestCode "JSON coding error: bad escape sequence")
      else if charAt data i = 34 then pure []
      else do
        let rest ← decodeFrom u data limit fuel (i + 1)
        pure (charAt data i :: rest)

/-- `decodeJSONString`: the escapes are replaced by what they stand for. -/
def decodeJSONString (u : Uninit) (data : Bytes) (i len : ℕ) : Except Thrown Bytes :=
  let limit := if i + len ≤ data.length then i + len else data.length
  decodeFrom u data limit (data.length + 1) i

variable {u : Uninit}

/-! ## Items -/

/-- The UTF-8 of a number that is no surrogate. -/
def encodeScalar (n : ℕ) : Bytes :=
  if n ≤ 0x7F then [lowByte n]
  else if n ≤ 0x7FF then [lowByte (n / 64 % 32 + 0xC0), lowByte (n % 64 + 0x80)]
  else if n ≤ 0xFFFF then
    [lowByte (n / 4096 % 16 + 0xE0), lowByte (n / 64 % 64 + 0x80), lowByte (n % 64 + 0x80)]
  else
    [lowByte (n / 262144 % 8 + 0xF0), lowByte (n / 4096 % 64 + 0x80), lowByte (n / 64 % 64 + 0x80),
      lowByte (n % 64 + 0x80)]

/-- What a text between quotation marks means to the readers, any bytes included. -/
inductive Escaped : Bytes → Bytes → Prop
  | nil : Escaped [] []
  | plain {b : UInt8} {s text : Bytes} (hb : b ≠ 34 ∧ b ≠ 92) (h : Escaped s text) :
      Escaped (b :: s) (b :: text)
  | short {e b : UInt8} {s text : Bytes} (he : (e, b) ∈ shortEscapes) (h : Escaped s text) :
      Escaped (b :: s) (92 :: e :: text)
  | unicode {n : ℕ} {digits s text : Bytes} (hn : IsHex4 n digits) (hrange : n < 0xD800 ∨ 0xE000 ≤ n)
      (h : Escaped s text) : Escaped (encodeScalar n ++ s) (92 :: 117 :: (digits ++ text))
  | pair {high low : ℕ} {digits digits' s text : Bytes} (hhigh : IsHex4 high digits)
      (hlow : IsHex4 low digits') (hrange : 0xD800 ≤ high ∧ high < 0xDC00)
      (hrange' : 0xDC00 ≤ low ∧ low < 0xE000) (h : Escaped s text) :
      Escaped (encodeScalar (0x10000 + 0x400 * (high - 0xD800) + (low - 0xDC00)) ++ s)
        (92 :: 117 :: (digits ++ 92 :: 117 :: (digits' ++ text)))

/-- The hexadecimal digits. -/
theorem hexDigit_cases {b : UInt8} {n : ℕ} (h : hexDigit b = some n) :
    n < 16 ∧ (48 ≤ b.toNat ∧ b.toNat ≤ 57 ∨ 65 ≤ b.toNat ∧ b.toNat ≤ 70 ∨
      97 ≤ b.toNat ∧ b.toNat ≤ 102) := by
  rw [hexDigit] at h
  simp only [UInt8.le_iff_toNat_le, UInt8.reduceToNat] at h
  split_ifs at h <;> have hn := Option.some.inj h <;> omega

/-- A hexadecimal digit is no blank, sign or `x`. -/
theorem hexDigit_ne {b : UInt8} {n : ℕ} (h : hexDigit b = some n) :
    isSpace b = false ∧ b ≠ 43 ∧ b ≠ 45 ∧ b ≠ 88 ∧ b ≠ 120 := by
  have hcases := (hexDigit_cases h).2
  have hne (k : UInt8) (hk : b.toNat ≠ k.toNat) : b ≠ k := fun hbk => hk (congrArg _ hbk)
  refine ⟨?_, hne 43 ?_, hne 45 ?_, hne 88 ?_, hne 120 ?_⟩
  · simp only [isSpace, Bool.or_eq_false_iff, Bool.and_eq_false_iff, decide_eq_false_iff_not,
      beq_eq_false_iff_ne, UInt8.le_iff_toNat_le, UInt8.reduceToNat]
    refine ⟨hne 32 ?_, ?_⟩
    · simp only [UInt8.reduceToNat]
      omega
    · omega
  all_goals
    simp only [UInt8.reduceToNat]
    omega

theorem IsHex4.lt {n : ℕ} {digits : Bytes} (h : IsHex4 n digits) : n < 65536 := by
  obtain ⟨h1, h2, h3, h4⟩ := h
  have hn1 := (hexDigit_cases h1).1
  have hn2 := (hexDigit_cases h2).1
  have hn3 := (hexDigit_cases h3).1
  have hn4 := (hexDigit_cases h4).1
  omega

theorem IsHex4.length {n : ℕ} {digits : Bytes} (h : IsHex4 n digits) : digits.length = 4 := by
  cases h
  rfl

/-- Four hexadecimal digits are read as their number. -/
theorem readHex_of_isHex4 {initial : UInt64} {n : ℕ} {digits : Bytes} (h : IsHex4 n digits) :
    readHex initial digits = n := by
  obtain ⟨h1, h2, h3, h4⟩ := h
  rename_i d1 d2 d3 d4 n1 n2 n3 n4
  obtain ⟨hspace, hplus, hminus, -⟩ := hexDigit_ne h1
  obtain ⟨-, -, -, hX, hx⟩ := hexDigit_ne h2
  have hdrop : [d1, d2, d3, d4].dropWhile isSpace = [d1, d2, d3, d4] :=
    List.dropWhile_cons_of_neg (by simp [hspace])
  have htake : [d1, d2, d3, d4].takeWhile (fun b => (hexDigit b).isSome) = [d1, d2, d3, d4] := by
    simp [h1, h2, h3, h4]
  have hsign : (match [d1, d2, d3, d4] with
      | 45 :: text => (true, text)
      | 43 :: text => (false, text)
      | text => (false, text)) = (false, [d1, d2, d3, d4]) := by
    split
    · rename_i heq
      exact absurd (List.cons.inj heq).1 hminus
    · rename_i heq
      exact absurd (List.cons.inj heq).1 hplus
    · rfl
  simp only [readHex, hdrop, hsign, Bool.false_eq_true, if_false, List.cons_ne_nil]
  split
  · rename_i heq
    exact absurd (List.cons.inj (List.cons.inj heq).2).1 hx
  · rename_i heq
    exact absurd (List.cons.inj (List.cons.inj heq).2).1 hX
  · rw [htake]
    simp only [hexNumber, List.foldl_cons, List.foldl_nil, h1, h2, h3, h4, Option.getD_some]
    omega

/-- The escape of a character outside the surrogates. -/
theorem decodeHexaUnicode_scalar {data rest digits : Bytes} {i n : ℕ} (hn : IsHex4 n digits)
    (hrange : n < 0xD800 ∨ 0xE000 ≤ n) (h : data.drop i = digits ++ rest) :
    decodeHexaUnicode u data i = (encodeScalar n, i + 3) := by
  have hlength := length_of_drop h (by simp [← List.length_pos_iff, hn.length])
  rw [List.length_append, hn.length] at hlength
  have hlt := hn.lt
  rw [decodeHexaUnicode, if_neg (by omega)]
  simp only [take_of_append h hn.length, readHex_of_isHex4 hn, encodeScalar]
  split_ifs
  all_goals first | rfl | omega

/-- The escapes of a surrogate pair. -/
theorem decodeHexaUnicode_pair {data rest digits digits' : Bytes} {i high low : ℕ}
    (hhigh : IsHex4 high digits) (hlow : IsHex4 low digits')
    (hrange : 0xD800 ≤ high ∧ high < 0xDC00) (hrange' : 0xDC00 ≤ low ∧ low < 0xE000)
    (h : data.drop i = digits ++ 92 :: 117 :: (digits' ++ rest)) :
    decodeHexaUnicode u data i =
      (encodeScalar (0x10000 + 0x400 * (high - 0xD800) + (low - 0xDC00)), i + 9) := by
  have hlength := length_of_drop h (by simp)
  simp only [List.length_append, List.length_cons, hhigh.length, hlow.length] at hlength
  have h4 : data.drop (i + 4) = [92, 117] ++ (digits' ++ rest) :=
    drop_of_append h (by rw [hhigh.length])
  have h6 : data.drop (i + 6) = digits' ++ rest := drop_of_append h4 rfl
  rw [decodeHexaUnicode, if_neg (by omega)]
  simp only [take_of_append h hhigh.length, readHex_of_isHex4 hhigh,
    take_of_append h6 hlow.length, readHex_of_isHex4 hlow]
  have hshort : ¬ ((data.drop (i + 4)).take 2 ≠ [92, 117] ∨ data.length < i + 10) := by
    rintro (h | h)
    · exact h (take_of_append h4 rfl)
    · omega
  have hlow' : ¬ ¬ (0xDC00 ≤ low ∧ low ≤ 0xDFFF) := by omega
  rw [if_neg (by omega), if_neg (by omega), if_pos hrange, if_neg hshort, if_neg hlow',
    encodeScalar, if_neg (by omega), if_neg (by omega), if_neg (by omega)]
  have hsame : 1024 * (high % 1024) + low % 1024 + 0x10000 =
      0x10000 + 0x400 * (high - 0xD800) + (low - 0xDC00) := by omega
  rw [hsame]

/-- The bytes of a short escape. -/
theorem shortEscapes_cases {e b : UInt8} (h : (e, b) ∈ shortEscapes) :
    e ≠ 117 ∧ shortEscapes.lookup e = some b ∧ b.toNat ≤ 127 := by
  simp only [shortEscapes, List.mem_cons, Prod.mk.injEq, List.not_mem_nil, or_false] at h
  rcases h with ⟨rfl, rfl⟩ | ⟨rfl, rfl⟩ | ⟨rfl, rfl⟩ | ⟨rfl, rfl⟩ | ⟨rfl, rfl⟩ | ⟨rfl, rfl⟩ |
    ⟨rfl, rfl⟩ | ⟨rfl, rfl⟩ <;> exact ⟨by decide, rfl, by decide⟩

section Scan

variable {raw rest : Bytes} {offset : ℕ} (fuel : ℕ)

theorem scanString_end (h : raw.drop offset = 34 :: rest) :
    scanString raw (fuel + 1) offset = pure offset := by
  have hlength := length_of_drop h (List.cons_ne_nil 34 rest)
  rw [List.length_cons] at hlength
  rw [scanString, if_neg (by omega), charAt_of_drop h, if_neg (by decide), if_pos rfl]

theorem scanString_plain {b : UInt8} (hb : b ≠ 34 ∧ b ≠ 92) (h : raw.drop offset = b :: rest) :
    scanString raw (fuel + 1) offset = scanString raw fuel (offset + 1) := by
  have hlength := length_of_drop h (List.cons_ne_nil b rest)
  rw [List.length_cons] at hlength
  rw [scanString, if_neg (by omega), charAt_of_drop h, if_neg hb.2, if_neg hb.1]

theorem scanString_short {e : UInt8} (he : e ≠ 117) (h : raw.drop offset = 92 :: e :: rest) :
    scanString raw (fuel + 1) offset = scanString raw fuel (offset + 2) := by
  have hlength := length_of_drop h (List.cons_ne_nil _ _)
  simp only [List.length_cons] at hlength
  have hnext : raw.drop (offset + 1) = e :: rest := drop_of_cons h
  rw [scanString, if_neg (by omega), charAt_of_drop h, if_pos rfl, if_neg (by omega),
    charAt_of_drop hnext, if_neg fun h => he h.1]

theorem scanString_unicode {digits : Bytes} (hdigits : digits.length = 4) (hrest : rest ≠ [])
    (h : raw.drop offset = 92 :: 117 :: (digits ++ rest)) :
    scanString raw (fuel + 1) offset = scanString raw fuel (offset + 6) := by
  have hlength := length_of_drop h (List.cons_ne_nil _ _)
  simp only [List.length_cons, List.length_append] at hlength
  have hpos := List.length_pos_iff.mpr hrest
  have hnext : raw.drop (offset + 1) = 117 :: (digits ++ rest) := drop_of_cons h
  rw [scanString, if_neg (by omega), charAt_of_drop h, if_pos rfl, if_neg (by omega),
    charAt_of_drop hnext, if_pos ⟨rfl, by omega⟩]

end Scan

/-- The scan ends at the quotation mark behind the text. -/
theorem scanString_escaped {s text raw rest : Bytes} {offset fuel : ℕ} (h : Escaped s text)
    (hdrop : raw.drop offset = text ++ 34 :: rest) (hfuel : text.length < fuel) :
    scanString raw fuel offset = pure (offset + text.length) := by
  induction h generalizing offset fuel with
  | nil =>
    obtain ⟨fuel, rfl⟩ : ∃ k, fuel = k + 1 := ⟨fuel - 1, by omega⟩
    exact scanString_end _ hdrop
  | @plain b s text hb h ih =>
    rw [List.length_cons] at hfuel
    obtain ⟨fuel, rfl⟩ : ∃ k, fuel = k + 1 := ⟨fuel - 1, by omega⟩
    rw [scanString_plain _ hb hdrop, ih (drop_of_cons hdrop) (by omega), List.length_cons]
    exact congrArg pure (by omega)
  | @short e b s text he h ih =>
    simp only [List.length_cons] at hfuel
    obtain ⟨fuel, rfl⟩ : ∃ k, fuel = k + 1 := ⟨fuel - 1, by omega⟩
    have hnext : raw.drop (offset + 2) = text ++ 34 :: rest := drop_of_cons (drop_of_cons hdrop)
    rw [scanString_short _ (shortEscapes_cases he).1 hdrop, ih hnext (by omega)]
    exact congrArg pure (by simp only [List.length_cons]; omega)
  | @unicode n digits s text hn hrange h ih =>
    simp only [List.length_cons, List.length_append, hn.length] at hfuel
    obtain ⟨fuel, rfl⟩ : ∃ k, fuel = k + 1 := ⟨fuel - 1, by omega⟩
    have hdrop' : raw.drop offset = 92 :: 117 :: (digits ++ (text ++ 34 :: rest)) := by
      simpa using hdrop
    have hnext : raw.drop (offset + 6) = text ++ 34 :: rest :=
      drop_of_append (t := 92 :: 117 :: digits) hdrop' (by simp [hn.length])
    rw [scanString_unicode _ hn.length (by simp) hdrop', ih hnext (by omega)]
    exact congrArg pure (by simp only [List.length_cons, List.length_append, hn.length]; omega)
  | @pair high low digits digits' s text hhigh hlow hrange hrange' h ih =>
    simp only [List.length_cons, List.length_append, hhigh.length, hlow.length] at hfuel
    -- the scan knows no pairs: it takes two turns, one for each half
    obtain ⟨fuel, rfl⟩ : ∃ k, fuel = k + 1 + 1 := ⟨fuel - 2, by omega⟩
    have hdrop' : raw.drop offset =
        92 :: 117 :: (digits ++ (92 :: 117 :: (digits' ++ (text ++ 34 :: rest)))) := by
      simpa using hdrop
    have hnext : raw.drop (offset + 6) = 92 :: 117 :: (digits' ++ (text ++ 34 :: rest)) :=
      drop_of_append (t := 92 :: 117 :: digits) hdrop' (by simp [hhigh.length])
    have hlast : raw.drop (offset + 6 + 6) = text ++ 34 :: rest :=
      drop_of_append (t := 92 :: 117 :: digits') hnext (by simp [hlow.length])
    rw [scanString_unicode _ hhigh.length (by simp) hdrop',
      scanString_unicode _ hlow.length (by simp) hnext, ih hlast (by omega)]
    refine congrArg pure ?_
    simp only [List.length_cons, List.length_append, hhigh.length, hlow.length]
    omega

section Decode

variable {data rest : Bytes} {limit i : ℕ} (fuel : ℕ)

theorem decodeFrom_plain {b : UInt8} (hb : b ≠ 34 ∧ b ≠ 92) (h : data.drop i = b :: rest)
    (hlimit : i < limit) :
    decodeFrom u data limit (fuel + 1) i = (b :: ·) <$> decodeFrom u data limit fuel (i + 1) := by
  rw [decodeFrom, if_neg (by omega), charAt_of_drop h, if_neg hb.2, if_neg hb.1]
  rfl

theorem decodeFrom_short {e b : UInt8} (he : (e, b) ∈ shortEscapes)
    (h : data.drop i = 92 :: e :: rest) (hlimit : i + 1 < limit) :
    decodeFrom u data limit (fuel + 1) i = (b :: ·) <$> decodeFrom u data limit fuel (i + 2) := by
  obtain ⟨hne, hlookup, -⟩ := shortEscapes_cases he
  rw [decodeFrom, if_neg (by omega), charAt_of_drop h, if_pos rfl, if_neg (by omega),
    charAt_of_drop (drop_of_cons h), if_neg hne, hlookup]
  rfl

theorem decodeFrom_unicode {chars : Bytes} {j : ℕ} (h : data.drop i = 92 :: 117 :: rest)
    (hlimit : i + 1 < limit) (hchars : decodeHexaUnicode u data (i + 2) = (chars, j)) :
    decodeFrom u data limit (fuel + 1) i = (chars ++ ·) <$> decodeFrom u data limit fuel (j + 1) := by
  rw [decodeFrom, if_neg (by omega), charAt_of_drop h, if_pos rfl, if_neg (by omega),
    charAt_of_drop (drop_of_cons h), if_pos rfl, hchars]
  rfl

end Decode

/-- The text up to the limit is decoded. -/
theorem decodeFrom_escaped {s text data rest : Bytes} {i fuel : ℕ} (h : Escaped s text)
    (hdrop : data.drop i = text ++ rest) (hfuel : text.length < fuel) :
    decodeFrom u data (i + text.length) fuel i = pure s := by
  -- the limit stays where it is while the place moves on
  obtain ⟨limit, hlimit⟩ : ∃ limit, limit = i + text.length := ⟨_, rfl⟩
  rw [← hlimit]
  induction h generalizing i fuel with
  | nil =>
    obtain ⟨fuel, rfl⟩ : ∃ k, fuel = k + 1 := ⟨fuel - 1, by omega⟩
    rw [decodeFrom, if_pos (show limit ≤ i from hlimit.le)]
  | @plain b s text hb h ih =>
    rw [List.length_cons] at hfuel hlimit
    obtain ⟨fuel, rfl⟩ : ∃ k, fuel = k + 1 := ⟨fuel - 1, by omega⟩
    rw [decodeFrom_plain _ hb hdrop (by omega), ih (drop_of_cons hdrop) (by omega) (by omega)]
    rfl
  | @short e b s text he h ih =>
    simp only [List.length_cons] at hfuel hlimit
    obtain ⟨fuel, rfl⟩ : ∃ k, fuel = k + 1 := ⟨fuel - 1, by omega⟩
    have hnext : data.drop (i + 2) = text ++ rest := drop_of_cons (drop_of_cons hdrop)
    rw [decodeFrom_short _ he hdrop (by omega), ih hnext (by omega) (by omega)]
    rfl
  | @unicode n digits s text hn hrange h ih =>
    simp only [List.length_cons, List.length_append, hn.length] at hfuel hlimit
    obtain ⟨fuel, rfl⟩ : ∃ k, fuel = k + 1 := ⟨fuel - 1, by omega⟩
    have hdrop' : data.drop i = 92 :: 117 :: (digits ++ (text ++ rest)) := by
      simpa using hdrop
    have hdigits : data.drop (i + 2) = digits ++ (text ++ rest) :=
      drop_of_append (t := [92, 117]) hdrop' rfl
    have hnext : data.drop (i + 2 + 3 + 1) = text ++ rest :=
      drop_of_append hdigits (by rw [hn.length])
    rw [decodeFrom_unicode _ hdrop' (by omega) (decodeHexaUnicode_scalar hn hrange hdigits),
      ih hnext (by omega) (by omega)]
    rfl
  | @pair high low digits digits' s text hhigh hlow hrange hrange' h ih =>
    simp only [List.length_cons, List.length_append, hhigh.length, hlow.length] at hfuel hlimit
    obtain ⟨fuel, rfl⟩ : ∃ k, fuel = k + 1 := ⟨fuel - 1, by omega⟩
    have hdrop' : data.drop i =
        92 :: 117 :: (digits ++ 92 :: 117 :: (digits' ++ (text ++ rest))) := by
      simpa using hdrop
    have hdigits : data.drop (i + 2) = digits ++ 92 :: 117 :: (digits' ++ (text ++ rest)) :=
      drop_of_append (t := [92, 117]) hdrop' rfl
    have hlow_drop : data.drop (i + 2 + 4) = 92 :: 117 :: (digits' ++ (text ++ rest)) :=
      drop_of_append hdigits (by rw [hhigh.length])
    have hnext : data.drop (i + 2 + 9 + 1) = text ++ rest :=
      drop_of_append (t := 92 :: 117 :: digits') hlow_drop (by simp [hlow.length])
    rw [decodeFrom_unicode _ hdrop' (by omega)
      (decodeHexaUnicode_pair hhigh hlow hrange hrange' hdigits), ih hnext (by omega) (by omega)]
    rfl

/-- `decodeJSONString` reads the text of a string in its place. -/
theorem decodeJSONString_escaped {s text data rest : Bytes} {i : ℕ} (h : Escaped s text)
    (hdrop : data.drop i = text ++ rest) (hi : i ≤ data.length) :
    decodeJSONString u data i text.length = pure s := by
  have hlength : i + text.length ≤ data.length := by
    have hlen := congrArg List.length hdrop
    rw [List.length_drop, List.length_append] at hlen
    omega
  rw [decodeJSONString, if_pos hlength]
  exact decodeFrom_escaped h hdrop (by omega)

/-! ## The strings of the grammar -/

/-- Bytes that stand for themselves. -/
theorem Escaped.append_plain {bs s text : Bytes} (hbs : ∀ b ∈ bs, b ≠ 34 ∧ b ≠ 92)
    (h : Escaped s text) : Escaped (bs ++ s) (bs ++ text) := by
  induction bs with
  | nil => exact h
  | cons b bs ih =>
    obtain ⟨hb, hbs⟩ := List.forall_mem_cons.mp hbs
    exact .plain hb (ih hbs)

theorem encodeScalar_toNat (c : Char) : encodeScalar c.toNat = String.utf8EncodeChar c := rfl

/-- The UTF-8 of a character other than the quotation mark and the backslash has neither of them. -/
theorem plain_utf8EncodeChar {c : Char} (hquote : c ≠ '"') (hbackslash : c ≠ '\\') :
    ∀ b ∈ String.utf8EncodeChar c, b ≠ 34 ∧ b ≠ 92 := by
  have hne (d : Char) (h : c ≠ d) : c.toNat ≠ d.toNat := fun h' => h (Char.toNat_inj.mp h')
  have hquote := hne _ hquote
  have hbackslash := hne _ hbackslash
  rw [← encodeScalar_toNat, encodeScalar]
  generalize c.toNat = n at *
  have hbyte (k : ℕ) (hk : k < 256) (h34 : k ≠ 34) (h92 : k ≠ 92) :
      lowByte k ≠ 34 ∧ lowByte k ≠ 92 := by
    rw [lowByte, ne_eq, ne_eq, ← UInt8.toNat_inj, ← UInt8.toNat_inj, UInt8.toNat_ofNat',
      Nat.mod_eq_of_lt hk]
    exact ⟨h34, h92⟩
  intro b hb
  split_ifs at hb
  all_goals
    simp only [List.mem_cons, List.not_mem_nil, or_false] at hb
  · exact hb ▸ hbyte n (by omega) hquote hbackslash
  · rcases hb with rfl | rfl <;> exact hbyte _ (by omega) (by omega) (by omega)
  · rcases hb with rfl | rfl | rfl <;> exact hbyte _ (by omega) (by omega) (by omega)
  · rcases hb with rfl | rfl | rfl | rfl <;> exact hbyte _ (by omega) (by omega) (by omega)

/-- The readers understand the texts of the grammar. -/
theorem escaped_of_charsText {cs : List Char} {text : Bytes} (h : CharsText cs text) :
    Escaped (utf8 cs) text := by
  induction h with
  | nil => exact .nil
  | unescaped hc h ih => exact ih.append_plain (plain_utf8EncodeChar hc.2.1 hc.2.2)
  | @short c e b cs text he hc h ih =>
    have hsame : String.utf8EncodeChar c = [b] := by
      have hlow : b.toNat ≤ 127 := (shortEscapes_cases he).2.2
      rw [← encodeScalar_toNat, hc, encodeScalar, if_pos hlow, lowByte, UInt8.ofNat_toNat]
    rw [utf8, List.flatMap_cons, hsame]
    exact .short he ih
  | @unicode c digits cs text hc h ih =>
    rw [utf8, List.flatMap_cons, ← encodeScalar_toNat]
    refine .unicode hc ?_ ih
    have hvalid : c.toNat < 0xD800 ∨ 0xDFFF < c.toNat ∧ c.toNat < 0x110000 := c.valid
    omega
  | @pair c high low digits digits' cs text hhigh hlow hrange hrange' hc h ih =>
    rw [utf8, List.flatMap_cons, ← encodeScalar_toNat, hc]
    exact .pair hhigh hlow hrange hrange' ih

/-- A text whose beginning is written by cases. -/
theorem Escaped.ite_append {p : Prop} [Decidable p] {s t u rest : Bytes}
    (ht : p → Escaped s (t ++ rest)) (hu : ¬ p → Escaped s (u ++ rest)) :
    Escaped s ((if p then t else u) ++ rest) := by
  by_cases hp : p
  · rw [if_pos hp]
    exact ht hp
  · rw [if_neg hp]
    exact hu hp

/-- The escape of a byte by its two digits. -/
theorem Escaped.charToHex {b : UInt8} {s text : Bytes} (hb : b.toNat < 128) (h : Escaped s text) :
    Escaped (b :: s) (charToHex b ++ text) := by
  have hdigit : ∀ n < 16, hexDigit (hexChar n) = some n := by decide
  have hn : IsHex4 (4096 * 0 + 256 * 0 + 16 * (b.toNat / 16) + b.toNat % 16)
      [48, 48, hexChar (b.toNat / 16), hexChar (b.toNat % 16)] :=
    .intro rfl rfl (hdigit _ (by omega)) (hdigit _ (by omega))
  rw [show 4096 * 0 + 256 * 0 + 16 * (b.toNat / 16) + b.toNat % 16 = b.toNat by omega] at hn
  have hscalar : encodeScalar b.toNat = [b] := by
    rw [encodeScalar, if_pos (by omega), lowByte, UInt8.ofNat_toNat]
  have hitem := Escaped.unicode hn (.inl (by omega)) h
  rwa [hscalar] at hitem

/-- The readers understand what `encodeJSONString` writes. -/
theorem escaped_encodeJSONString (s : Bytes) : Escaped s (encodeJSONString s) := by
  induction s with
  | nil => exact .nil
  | cons b s ih =>
    rw [encodeJSONString, List.flatMap_cons, encodeByte]
    refine .ite_append (fun hhigh => .plain ⟨?_, ?_⟩ ih) fun _ => ?_
    · rintro rfl
      exact absurd hhigh (by decide)
    · rintro rfl
      exact absurd hhigh (by decide)
    -- the eight cases of the switch, in its order
    have hshort {e c : UInt8} (he : (e, c) ∈ shortEscapes) (hc : b = c) :
        Escaped (b :: s) ([92, e] ++ encodeJSONString s) := hc ▸ .short he ih
    refine .ite_append (hshort (by decide)) fun hquote => ?_
    refine .ite_append (hshort (by decide)) fun hbackslash => ?_
    refine .ite_append (hshort (by decide)) fun _ => ?_
    refine .ite_append (hshort (by decide)) fun _ => ?_
    refine .ite_append (hshort (by decide)) fun _ => ?_
    refine .ite_append (hshort (by decide)) fun _ => ?_
    refine .ite_append (hshort (by decide)) fun _ => ?_
    refine .ite_append (hshort (by decide)) fun _ => ?_
    -- and the control characters
    refine .ite_append (fun hdelete => ?_) fun _ => .ite_append (fun hcontrol => ?_) fun _ => ?_
    · exact .charToHex (by rw [hdelete]; decide) ih
    · exact .charToHex (Nat.lt_of_le_of_lt (UInt8.le_iff_toNat_le.mp hcontrol) (by decide)) ih
    · exact .plain ⟨hquote, hbackslash⟩ ih

end VplJail.Json
