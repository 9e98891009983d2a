import VplJail.Common.Checked
import VplJail.Util.Base64

/-!
# The integers of `Base64::decode`

`decodeSize`, `setData` and `decode` with the 32-bit integers that they count in, and with every
write checked. `least` is the least result that is let through: `-2 ^ 31` is the machine's, and with
zero a negative number is an error too.
-/

namespace VplJail.Base64

variable (least : ℤ)

/-- The characters that the loops over a text meet: their index runs up to `int l = data.size()`. -/
def visited (data : Bytes) : Bytes :=
  data.take (sizeInt data).toNat

/-- The loop of `decodeSize`: the alphabet characters and the padding counted so far. -/
def countChars : ℤ → ℤ → Bytes → Except Thrown (ℤ × ℤ)
  | s, eque, [] => pure (s, eque)
  | s, eque, c :: cs =>
      if is64 c then do
        let s ← intResult least (s + 1)
        countChars s eque cs
      else if c == 61 then do
        let eque ← intResult least (eque + 1)
        countChars s eque cs
      else countChars s eque cs

/-- `decodeSize`: the length of what a text stands for, in `int`s. -/
def intDecodeSize (data : Bytes) : Except Thrown ℤ := do
  let (s, eque) ← countChars least 0 0 (visited data)
  let sum ← intResult least (s + eque)
  let whole ← intResult least (sum / 4 * 3)
  intResult least (whole - eque)

/-- `setData`: a byte at a position, which must be in the data. -/
def intSetData (data : Bytes) (pos : ℤ) (c : UInt8) : Except Thrown Bytes := do
  let ibyte := pos / 8
  let ides := (pos % 8).toNat
  let dc := decodeChar c
  let size := sizeInt data
  if ibyte ≥ size then pure data
  else
    let data ← modifyAt data ibyte (· ||| UInt8.ofNat (dc >>> ides))
    if ides > 2 then
      let next ← intResult least (ibyte + 1)
      if next < size then modifyAt data next (· ||| UInt8.ofNat (dc <<< (8 - ides)))
      else pure data
    else pure data

/-- The loop of `decode`. -/
def intDecodeLoop : Bytes → ℤ → Bytes → Except Thrown Bytes
  | res, _, [] => pure res
  | res, pos, c :: cs =>
      if is64 c then do
        let res ← intSetData least res pos c
        let pos ← intResult least (pos + 6)
        intDecodeLoop res pos cs
      else intDecodeLoop res pos cs

/-- `decode`: what a text stands for, with every step in `int`s. -/
def intDecode (data : Bytes) : Except Thrown Bytes := do
  let size ← intDecodeSize least data
  if size = 0 then pure []
  else if size < 0 then throw lengthError
  else intDecodeLoop least (List.replicate size.toNat 0) 0 (visited data)

/-! ## Within the range -/

section Range

variable {least}

/-- A text of a size that an `int` holds is visited whole. -/
theorem visited_eq {data : Bytes} (h : data.length < 2 ^ 31) : visited data = data := by
  rw [visited, sizeInt_eq h, Int.toNat_natCast, List.take_length]

/-- The padding. -/
def padding (data : Bytes) : ℕ :=
  data.countP fun c => !is64 c && c == 61

theorem countChars_eq (hleast : least ≤ 0) {s eque : ℤ} (hs : 0 ≤ s) (heque : 0 ≤ eque) {cs : Bytes}
    (h : s + eque + cs.length < 2 ^ 31) :
    countChars least s eque cs = .ok (s + cs.countP is64, eque + padding cs) := by
  induction cs generalizing s eque with
  | nil => simp [countChars, padding, pure, Except.pure]
  | cons c cs ih =>
    rw [List.length_cons] at h
    rw [countChars, padding, List.countP_cons, List.countP_cons]
    by_cases hc : is64 c = true
    · rw [if_pos hc, intResult_eq (by omega) (by omega)]
      refine (ih (by omega) heque (by omega)).trans ?_
      rw [padding, if_pos hc, hc]
      push_cast
      exact congrArg Except.ok (Prod.ext (by omega) (by simp))
    · rw [Bool.not_eq_true] at hc
      by_cases hpad : c == 61
      · rw [if_neg (by simp [hc]), if_pos hpad, intResult_eq (by omega) (by omega)]
        refine (ih hs (by omega) (by omega)).trans ?_
        rw [padding, hc, hpad]
        push_cast
        exact congrArg Except.ok (Prod.ext (by simp) (by simp; omega))
      · rw [if_neg (by simp [hc]), if_neg hpad]
        refine (ih hs heque (by omega)).trans ?_
        rw [padding, hc]
        simp [hpad]

/-- The counts are those of different characters. -/
theorem countP_add_padding_le (data : Bytes) : data.countP is64 + padding data ≤ data.length := by
  induction data with
  | nil => rfl
  | cons c data ih =>
    rw [padding] at ih ⊢
    simp only [List.countP_cons, List.length_cons]
    cases is64 c <;> cases (c == 61 : Bool) <;> simp <;> omega

/-- `decodeSize` computes the size that the counts announce. -/
theorem intDecodeSize_eq (hleast : least ≤ 0) {data : Bytes} (h : data.length < 2 ^ 31)
    (hsize : least ≤ decodeSize data) : intDecodeSize least data = .ok (decodeSize data) := by
  have hcount := countP_add_padding_le data
  have hdef : decodeSize data =
      ((data.countP is64 : ℤ) + padding data) / 4 * 3 - padding data := rfl
  rw [intDecodeSize, visited_eq h, countChars_eq hleast le_rfl le_rfl (by omega)]
  dsimp only [bind, Except.bind]
  rw [Int.zero_add, Int.zero_add, intResult_eq (by omega) (by omega)]
  dsimp only
  rw [intResult_eq (by omega) (by omega)]
  dsimp only
  rw [← hdef]
  exact intResult_eq hsize (by omega)

/-- Every write of `setData` is inside the string. -/
theorem intSetData_eq (hleast : least ≤ 0) {data : Bytes} (h : data.length < 2 ^ 31) (pos : ℕ)
    (c : UInt8) : intSetData least data pos c = .ok (setData data pos c) := by
  have hdiv : (pos : ℤ) / 8 = ((pos / 8 : ℕ) : ℤ) := rfl
  have hmod : ((pos : ℤ) % 8).toNat = pos % 8 := rfl
  rw [intSetData, setData]
  simp only [hdiv, hmod, sizeInt_eq h]
  by_cases hlt : pos / 8 ≥ data.length
  · rw [if_pos (by omega), if_pos hlt]
    rfl
  · rw [if_neg (by omega), if_neg hlt, modifyAt_eq _ (by omega)]
    dsimp only [bind, Except.bind]
    by_cases hides : pos % 8 > 2
    · rw [if_pos hides, intResult_eq (by omega) (by omega)]
      dsimp only
      by_cases hnext : pos / 8 + 1 < data.length
      · rw [if_pos (by omega), if_pos ⟨hides, by rwa [List.length_modify]⟩, ← Int.natCast_succ]
        exact modifyAt_eq _ (by rwa [List.length_modify])
      · rw [if_neg (by omega), if_neg fun hand => hnext (by simpa using hand.2)]
        rfl
    · rw [if_neg hides, if_neg fun hand => hides hand.1]
      rfl

/-- The loop computes what it computes without bounds as long as the bit position fits. -/
theorem intDecodeLoop_eq (hleast : least ≤ 0) {res : Bytes} (hres : res.length < 2 ^ 31) {pos : ℕ}
    {cs : Bytes} (hpos : pos + 6 * cs.countP is64 < 2 ^ 31) :
    intDecodeLoop least res pos cs = .ok (decodeLoop res pos cs) := by
  induction cs generalizing res pos with
  | nil => rfl
  | cons c cs ih =>
    rw [List.countP_cons] at hpos
    rw [intDecodeLoop, decodeLoop]
    by_cases hc : is64 c = true
    · rw [if_pos hc] at hpos
      rw [if_pos hc, if_pos hc, intSetData_eq hleast hres]
      dsimp only [bind, Except.bind]
      rw [intResult_eq (by omega) (by omega)]
      have hstep : (pos : ℤ) + 6 = ((pos + 6 : ℕ) : ℤ) := rfl
      rw [hstep]
      exact ih (by rwa [length_setData]) (by omega)
    · rw [if_neg hc, if_neg hc]
      exact ih hres (by rw [if_neg hc] at hpos; omega)

/-- Beyond that the addition to the bit position overflows. -/
theorem intDecodeLoop_overflow (hleast : least ≤ 0) {res : Bytes} (hres : res.length < 2 ^ 31)
    {pos : ℕ} {cs : Bytes} (hlow : pos < 2 ^ 31) (hpos : 2 ^ 31 ≤ pos + 6 * cs.countP is64) :
    intDecodeLoop least res pos cs = .error overflow := by
  induction cs generalizing res pos with
  | nil => exact absurd hlow (not_lt.mpr hpos)
  | cons c cs ih =>
    rw [List.countP_cons] at hpos
    rw [intDecodeLoop]
    by_cases hc : is64 c = true
    · rw [if_pos hc] at hpos
      rw [if_pos hc, intSetData_eq hleast hres]
      dsimp only [bind, Except.bind]
      by_cases hnext : pos + 6 < 2 ^ 31
      · rw [intResult_eq (by omega) (by omega)]
        have hstep : (pos : ℤ) + 6 = ((pos + 6 : ℕ) : ℤ) := rfl
        rw [hstep]
        exact ih (by rwa [length_setData]) hnext (by omega)
      · rw [intResult_overflow (by omega)]
    · rw [if_neg hc] at hpos
      rw [if_neg hc]
      exact ih hres hlow (by omega)

/-- `decode` does what it does without bounds on texts whose bit positions fit. -/
theorem intDecode_eq (hleast : least ≤ 0) {data : Bytes} (h : data.length < 2 ^ 31)
    (hsize : 0 ≤ decodeSize data) (hpos : 6 * data.countP is64 < 2 ^ 31) :
    ∃ out, decode data = some out ∧ intDecode least data = .ok out := by
  have hle := decodeSize_le data
  rw [intDecode, intDecodeSize_eq hleast h (hleast.trans hsize), decode]
  dsimp only [bind, Except.bind]
  by_cases hzero : decodeSize data = 0
  · exact ⟨[], if_pos hzero, if_pos hzero⟩
  · have hres : (List.replicate (decodeSize data).toNat (0 : UInt8)).length < 2 ^ 31 := by
      rw [List.length_replicate]
      omega
    rw [if_neg hzero, if_neg hzero, if_neg (by omega), if_neg (by omega), visited_eq h]
    have hfits : 0 + 6 * data.countP is64 < 2 ^ 31 := by omega
    exact ⟨_, rfl, intDecodeLoop_eq hleast hres hfits⟩

/-- A text that announces some bytes and whose last bit position does not fit. -/
theorem intDecode_overflow (hleast : least ≤ 0) {data : Bytes} (h : data.length < 2 ^ 31)
    (hsize : 0 < decodeSize data) (hpos : 2 ^ 31 ≤ 6 * data.countP is64) :
    intDecode least data = .error overflow := by
  have hle := decodeSize_le data
  have hres : (List.replicate (decodeSize data).toNat (0 : UInt8)).length < 2 ^ 31 := by
    rw [List.length_replicate]
    omega
  rw [intDecode, intDecodeSize_eq hleast h (hleast.trans hsize.le)]
  dsimp only [bind, Except.bind]
  rw [if_neg hsize.ne', if_neg hsize.not_gt, visited_eq h]
  have hlarge : 2 ^ 31 ≤ 0 + 6 * data.countP is64 := by omega
  exact intDecodeLoop_overflow hleast hres (by decide) hlarge

/-- A text whose size is negative in an `int` is not visited. -/
theorem intDecode_of_sizeInt_le (hleast : least ≤ 0) {data : Bytes} (h : sizeInt data ≤ 0) :
    intDecode least data = .ok [] := by
  have hvisited : visited data = [] := by rw [visited, Int.toNat_eq_zero.mpr h, List.take_zero]
  have hzero : intResult least 0 = .ok 0 := intResult_eq hleast (by decide)
  have hsize : intDecodeSize least data = .ok 0 := by
    rw [intDecodeSize, hvisited, countChars]
    dsimp only [bind, Except.bind, pure, Except.pure]
    rw [Int.add_zero, hzero]
    dsimp only
    rw [Int.zero_ediv, Int.zero_mul, hzero]
    exact hzero
  rw [intDecode, hsize]
  rfl

end Range

/-! ## Characters between those of an encoding -/

/-- A text with characters put into it that are neither of the alphabet nor padding. -/
inductive Inserted : Bytes → Bytes → Prop
  | nil : Inserted [] []
  | kept (c : UInt8) {s t : Bytes} (h : Inserted s t) : Inserted (c :: s) (c :: t)
  | skipped {c : UInt8} {s t : Bytes} (hc : is64 c = false ∧ c ≠ 61) (h : Inserted s t) :
      Inserted s (c :: t)

namespace Inserted

variable {s t : Bytes}

theorem refl (s : Bytes) : Inserted s s := by
  induction s with
  | nil => exact .nil
  | cons c s ih => exact .kept c ih

theorem replicate_append (n : ℕ) {c : UInt8} (hc : is64 c = false ∧ c ≠ 61) (s : Bytes) :
    Inserted s (List.replicate n c ++ s) := by
  induction n with
  | zero => exact refl s
  | succ n ih => exact .skipped hc ih

/-- They are not counted. -/
theorem countP_eq (h : Inserted s t) : t.countP is64 = s.countP is64 ∧ padding t = padding s := by
  induction h with
  | nil => exact ⟨rfl, rfl⟩
  | kept c h ih =>
    simp only [padding, List.countP_cons] at ih ⊢
    exact ⟨by rw [ih.1], by rw [ih.2]⟩
  | skipped hc h ih =>
    simp only [padding, List.countP_cons] at ih ⊢
    rw [ih.1, ih.2, hc.1, beq_eq_false_iff_ne.mpr hc.2]
    exact ⟨rfl, rfl⟩

theorem decodeSize_eq (h : Inserted s t) : decodeSize t = decodeSize s := by
  obtain ⟨hs, heque⟩ := h.countP_eq
  rw [padding, padding] at heque
  rw [decodeSize, decodeSize, hs, heque]

/-- They take no place in the output. -/
theorem decodeLoop_eq (h : Inserted s t) (res : Bytes) (pos : ℕ) :
    decodeLoop res pos t = decodeLoop res pos s := by
  induction h generalizing res pos with
  | nil => rfl
  | kept c h ih => rw [decodeLoop, decodeLoop, ih, ih]
  | skipped hc h ih => rw [decodeLoop, if_neg (by simp [hc.1]), ih]

theorem decode_eq (h : Inserted s t) : decode t = decode s := by
  rw [decode, decode, h.decodeSize_eq, h.decodeLoop_eq]

end Inserted

/-- The padding of an encoding stands at its end. -/
theorem exists_body (data : Bytes) : ∃ body : Bytes,
    encode data = body ++ List.replicate ((3 - data.length % 3) % 3) 61 ∧
      ∀ c ∈ body, is64 c = true := by
  induction data using encode.induct with
  | case1 => exact ⟨[], rfl, fun _ hc => absurd hc List.not_mem_nil⟩
  | case2 in1 =>
    obtain ⟨i, j, k, l, hg, -⟩ := encodeGroup_eq in1 0 0
    exact ⟨[charAt i, charAt j], by rw [encode, hg]; rfl, by simp⟩
  | case3 in1 in2 =>
    obtain ⟨i, j, k, l, hg, -⟩ := encodeGroup_eq in1 in2 0
    exact ⟨[charAt i, charAt j, charAt k], by rw [encode, hg]; rfl, by simp⟩
  | case4 in1 in2 in3 rest ih =>
    obtain ⟨i, j, k, l, hg, -⟩ := encodeGroup_eq in1 in2 in3
    obtain ⟨body, hbody, halphabet⟩ := ih
    have hmod : (in1 :: in2 :: in3 :: rest).length % 3 = rest.length % 3 := by
      simp only [List.length_cons]
      omega
    refine ⟨charAt i :: charAt j :: charAt k :: charAt l :: body, ?_, by simpa using halphabet⟩
    rw [encode, hg, hbody, hmod]
    rfl

/-- An encoding of less than `2 ^ 28` characters is decoded to its bytes from any text that has it
with other characters between, up to the largest size of an `int`. It has four characters for every
three bytes begun, those of the alphabet in front and the padding at the end. -/
theorem intDecode_inserted (data : Bytes) (hshort : (encode data).length < 2 ^ 28) :
    (∀ text, Inserted (encode data) text → text.length < 2 ^ 31 →
      intDecode (-2 ^ 31) text = .ok data) ∧
    (encode data).length = 4 * ((data.length + 2) / 3) ∧
    ∃ body : Bytes, encode data = body ++ List.replicate ((3 - data.length % 3) % 3) 61 ∧
      ∀ c ∈ body, is64 c = true := by
  refine ⟨?_, by rw [length_encode, Nat.mul_comm], exists_body data⟩
  intro text hinserted hlength
  have hcount : text.countP is64 < 2 ^ 28 := by
    rw [hinserted.countP_eq.1]
    exact List.countP_le_length.trans_lt hshort
  have hsize : decodeSize text = data.length := by
    rw [hinserted.decodeSize_eq, decodeSize_encode]
  obtain ⟨out, hout, hrun⟩ : ∃ out, decode text = some out ∧ intDecode (-2 ^ 31) text = .ok out :=
    intDecode_eq (by decide) hlength (by omega) (by omega)
  rw [hinserted.decode_eq, decode_encode] at hout
  rw [hrun, Option.some.inj hout]

/-- An encoding with a line break in it. -/
theorem intDecode_inserted_newline :
    (encode (ascii "Man")).length < 2 ^ 28 ∧
      intDecode (-2 ^ 31) (ascii "TW\nFu") = .ok (ascii "Man") := by
  have hshort : (encode (ascii "Man")).length < 2 ^ 28 := by decide +kernel
  have hinserted : Inserted (encode (ascii "Man")) (ascii "TW\nFu") :=
    .kept 84 (.kept 87 (.skipped ⟨by decide, by decide⟩ (.kept 70 (.kept 117 .nil))))
  exact ⟨hshort, (intDecode_inserted _ hshort).1 _ hinserted (by decide +kernel)⟩

/-- Without the last bound the text may have a size that is negative in an `int`, and nothing of it
is decoded. -/
theorem not_intDecode_inserted :
    ¬ ∀ data text : Bytes, (encode data).length < 2 ^ 28 → Inserted (encode data) text →
      intDecode (-2 ^ 31) text = .ok data := by
  intro h
  have hblank : is64 32 = false ∧ (32 : UInt8) ≠ 61 := by decide
  obtain ⟨n, hn⟩ : ∃ n, n = 2 ^ 31 := ⟨_, rfl⟩
  have hencode : (encode [97]).length = 4 := length_encode [97]
  have hlength : (List.replicate n 32 ++ encode [97]).length = n + 4 := by
    rw [List.length_append, List.length_replicate, hencode]
  have hsize := (sizeInt_neg (s := List.replicate n 32 ++ encode [97]) (by omega) (by omega)).le
  have hrun := h [97] _ (by omega) (.replicate_append n hblank _)
  rw [intDecode_of_sizeInt_le (by decide) hsize] at hrun
  exact absurd (Except.ok.inj hrun) (by decide)

/-! ## Any text -/

/-- What decoding a text may not do: announce a negative size, or write beyond the result. -/
structure IsSafe (data : Bytes) : Prop where
  size : ∃ n, intDecodeSize (-2 ^ 31) data = .ok n ∧ 0 ≤ n
  run : ∃ out, intDecode (-2 ^ 31) data = .ok out

/-- The size announced is negative if and only if the padding is more than three characters for each
whole group. -/
theorem decodeSize_nonneg_iff (data : Bytes) :
    0 ≤ decodeSize data ↔ 4 * ((padding data + 2) / 3) ≤ data.countP is64 + padding data := by
  have hdef : decodeSize data =
      ((data.countP is64 : ℤ) + padding data) / 4 * 3 - padding data := rfl
  omega

/-- Decoding is safe on the texts that have, with their padding, a group of four for every three
padding characters begun. -/
theorem isSafe_iff {data : Bytes} (h : data.length < 2 ^ 28) :
    IsSafe data ↔ 4 * ((padding data + 2) / 3) ≤ data.countP is64 + padding data := by
  rw [← decodeSize_nonneg_iff]
  have hle := decodeSize_le data
  have hcount := countP_add_padding_le data
  have hdef : decodeSize data =
      ((data.countP is64 : ℤ) + padding data) / 4 * 3 - padding data := rfl
  have hsize : intDecodeSize (-2 ^ 31) data = .ok (decodeSize data) :=
    intDecodeSize_eq (by decide) (by omega) (by omega)
  constructor
  · rintro ⟨⟨n, hn, hnonneg⟩, -⟩
    rw [hsize] at hn
    rwa [Except.ok.inj hn]
  · intro hnonneg
    obtain ⟨out, -, hrun⟩ : ∃ out, decode data = some out ∧ intDecode (-2 ^ 31) data = .ok out :=
      intDecode_eq (by decide) (by omega) hnonneg (by omega)
    exact ⟨⟨_, hsize, hnonneg⟩, out, hrun⟩

/-- Four characters of the alphabet among padding and blanks. -/
theorem isSafe_pad : IsSafe (ascii "==T W=Fu") :=
  (isSafe_iff (by decide +kernel)).mpr (by decide +kernel)

/-- A padding character alone announces a negative size. -/
theorem not_isSafe : ¬ ∀ data : Bytes, data.length < 2 ^ 28 → IsSafe data := by
  intro h
  obtain ⟨n, hn, hnonneg⟩ := (h [61] (by decide)).size
  rw [intDecodeSize_eq (by decide) (by decide) (by decide)] at hn
  rw [← Except.ok.inj hn] at hnonneg
  exact absurd hnonneg (by decide)

/-! ## Texts of the alphabet -/

/-- A text of the alphabet announces three bytes for every whole group. -/
theorem decodeSize_of_forall_is64 {data : Bytes} (h : ∀ c ∈ data, is64 c = true) :
    data.countP is64 = data.length ∧ decodeSize data = data.length / 4 * 3 := by
  have hcount : data.countP is64 = data.length := List.countP_eq_length.mpr h
  have hpad : padding data = 0 := by
    refine List.countP_eq_zero.mpr fun c hc => ?_
    rw [h c hc]
    simp
  have hdef : decodeSize data =
      ((data.countP is64 : ℤ) + padding data) / 4 * 3 - padding data := rfl
  refine ⟨hcount, ?_⟩
  rw [hdef, hcount, hpad]
  omega

/-- Beyond `357913941` characters the bit position overflows. -/
theorem intDecode_alphabet_overflow {data : Bytes} (h : ∀ c ∈ data, is64 c = true)
    (hlength : data.length < 2 ^ 31) (hlarge : 357913941 < data.length) :
    intDecode 0 data = .error overflow := by
  obtain ⟨hcount, hsize⟩ := decodeSize_of_forall_is64 h
  exact intDecode_overflow le_rfl hlength (by omega) (by omega)

/-- On a text of the alphabet of a size that an `int` holds, all results stay between zero and the
largest `int` if and only if the text has no more characters than that number has sixths. -/
theorem exists_intDecode_iff {data : Bytes} (h : ∀ c ∈ data, is64 c = true)
    (hlength : data.length < 2 ^ 31) :
    (∃ out, intDecode 0 data = .ok out) ↔ data.length ≤ 357913941 := by
  obtain ⟨hcount, hsize⟩ := decodeSize_of_forall_is64 h
  constructor
  · rintro ⟨out, hrun⟩
    by_contra hlarge
    rw [intDecode_alphabet_overflow h hlength (by omega)] at hrun
    cases hrun
  · intro hle
    obtain ⟨out, -, hrun⟩ := intDecode_eq le_rfl hlength (by omega) (by omega)
    exact ⟨out, hrun⟩

/-- One group. -/
theorem exists_intDecode_group : ∃ out, intDecode 0 (ascii "TWFu") = .ok out :=
  (exists_intDecode_iff (by decide +kernel) (by decide +kernel)).mpr (by decide +kernel)

/-- A text of the alphabet whose last bit position does not fit. -/
theorem not_exists_intDecode :
    ¬ ∀ data : Bytes, (∀ c ∈ data, is64 c = true) → data.length < 2 ^ 31 →
      ∃ out, intDecode 0 data = .ok out := by
  intro h
  have halphabet : ∀ c ∈ List.replicate 357913942 (65 : UInt8), is64 c = true := by
    intro c hc
    rw [List.eq_of_mem_replicate hc]
    decide
  have hlength : (List.replicate 357913942 (65 : UInt8)).length = 357913942 :=
    List.length_replicate
  obtain ⟨out, hrun⟩ := h _ halphabet (by rw [hlength]; decide)
  rw [intDecode_alphabet_overflow halphabet (by rw [hlength]; decide) (by rw [hlength]; decide)]
    at hrun
  cases hrun

end VplJail.Base64
