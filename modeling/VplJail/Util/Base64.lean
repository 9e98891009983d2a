import VplJail.Common.Bytes

/-!
# Base64 (`class Base64` in `util.h`)

`encode` walks the input three bytes at a time. `decode` is written the other way round: it computes
the size of the output first, makes a string of zero bytes, and then ors every sextet into it at a
running bit position. `decode_encode` shows that the two agree.
-/

namespace VplJail.Base64

/-- The alphabet, in the order of the sextets. -/
def charSet : Bytes :=
  ascii "ABCDEFGHIJKLMNOPQRSTUVWXYZabcdefghijklmnopqrstuvwxyz0123456789+/"

/-- `charSet[i]`: the character of six bits. -/
def charAt (i : ℕ) : UInt8 :=
  charSet.getD i 0

/-- The table `C642int`: the sextet of an alphabet character shifted left by two, else `-1`. -/
def c642int (c : UInt8) : ℤ :=
  match charSet.idxOf? c with
  | some i => ((i <<< 2 : ℕ) : ℤ)
  | none => -1

/-- `is64`: the character belongs to the alphabet. -/
def is64 (c : UInt8) : Bool :=
  decide (0 ≤ c642int c)

/-- `decodeChar`, only called on alphabet characters. -/
def decodeChar (c : UInt8) : ℕ :=
  (c642int c).toNat

/-- `decodeSize`: the output size that the counts of alphabet and `=` characters announce. It is
negative when there are more `=` than the sextets can account for. -/
def decodeSize (data : Bytes) : ℤ :=
  let s : ℤ := data.countP is64
  let eque : ℤ := data.countP fun c => !is64 c && c == 61
  (s + eque) / 4 * 3 - eque

/-- `setData`: or the sextet of `c` into `data` at bit position `pos`. -/
def setData (data : Bytes) (pos : ℕ) (c : UInt8) : Bytes :=
  let ibyte := pos / 8
  let ides := pos % 8
  let dc := decodeChar c
  if ibyte ≥ data.length then data
  else
    let data := data.modify ibyte (· ||| UInt8.ofNat (dc >>> ides))
    if ides > 2 ∧ ibyte + 1 < data.length then
      data.modify (ibyte + 1) (· ||| UInt8.ofNat (dc <<< (8 - ides)))
    else data

/-- The loop of `decode`: the characters outside the alphabet are skipped. -/
def decodeLoop (res : Bytes) (pos : ℕ) : Bytes → Bytes
  | [] => res
  | c :: cs => if is64 c then decodeLoop (setData res pos c) (pos + 6) cs else decodeLoop res pos cs

/-- `decode`. `none` is the `std::length_error` of a string built with a negative size. -/
def decode (data : Bytes) : Option Bytes :=
  let size := decodeSize data
  if size = 0 then some []
  else if size < 0 then none
  else some (decodeLoop (List.replicate size.toNat 0) 0 data)

/-- The four characters of one group of three input bytes. -/
def encodeGroup (in1 in2 in3 : UInt8) : Bytes :=
  [charAt (in1.toNat >>> 2),
    charAt ((in1.toNat % 4) <<< 4 + in2.toNat >>> 4),
    charAt ((in2.toNat % 16) <<< 2 + in3.toNat >>> 6),
    charAt (in3.toNat % 64)]

/-- `encode`. The bytes missing in the last group read as zero, and the characters they would have
filled become `=`. -/
def encode : Bytes → Bytes
  | [] => []
  | [in1] => (encodeGroup in1 0 0).take 2 ++ [61, 61]
  | [in1, in2] => (encodeGroup in1 in2 0).take 3 ++ [61]
  | in1 :: in2 :: in3 :: rest => encodeGroup in1 in2 in3 ++ encode rest

/-! ## The alphabet -/

theorem c642int_charAt (i : Fin 64) : c642int (charAt i) = 4 * i := by
  revert i; decide

@[simp] theorem is64_charAt (i : Fin 64) : is64 (charAt i) = true := by
  rw [is64, c642int_charAt]
  exact decide_eq_true (by omega)

@[simp] theorem decodeChar_charAt (i : Fin 64) : decodeChar (charAt i) = 4 * i := by
  rw [decodeChar, c642int_charAt]
  omega

@[simp] theorem is64_eq_false : is64 61 = false := by decide

/-- The four characters of a group belong to the alphabet: their indices are the four sextets. -/
theorem encodeGroup_eq (in1 in2 in3 : UInt8) :
    ∃ i j k l : Fin 64,
      encodeGroup in1 in2 in3 =
        [charAt i, charAt j, charAt k, charAt l] ∧
      (i : ℕ) = in1.toNat / 4 ∧ (j : ℕ) = in1.toNat % 4 * 16 + in2.toNat / 16 ∧
      (k : ℕ) = in2.toNat % 16 * 4 + in3.toNat / 64 ∧ (l : ℕ) = in3.toNat % 64 := by
  have h1 := in1.toNat_lt
  have h2 := in2.toNat_lt
  have h3 := in3.toNat_lt
  refine ⟨⟨in1.toNat / 4, by omega⟩, ⟨in1.toNat % 4 * 16 + in2.toNat / 16, by omega⟩,
    ⟨in2.toNat % 16 * 4 + in3.toNat / 64, by omega⟩, ⟨in3.toNat % 64, by omega⟩, ?_,
    rfl, rfl, rfl, rfl⟩
  simp only [encodeGroup, Nat.shiftRight_eq_div_pow, Nat.shiftLeft_eq]

/-- The characters of the alphabet are ASCII. -/
theorem charAt_lt (i : ℕ) : charAt i < 0x80 := by
  have hall : ∀ c ∈ charSet, c < 0x80 := by decide +kernel
  rw [charAt, List.getD_eq_getElem?_getD]
  cases hc : charSet[i]? with
  | none => decide
  | some c => exact hall c (List.mem_of_getElem? hc)

/-- So is what is written with it. -/
theorem lt_of_mem_encode (data : Bytes) : ∀ c ∈ encode data, c < 0x80 := by
  have hpad : (61 : UInt8) < 0x80 := by decide
  induction data using encode.induct with
  | case1 => exact fun _ h => absurd h List.not_mem_nil
  | case2 in1 => simp [encode, encodeGroup, charAt_lt, hpad]
  | case3 in1 in2 => simp [encode, encodeGroup, charAt_lt, hpad]
  | case4 in1 in2 in3 rest ih =>
    intro c hc
    rw [encode] at hc
    rcases List.mem_append.mp hc with hc | hc
    · simp only [encodeGroup, List.mem_cons, List.not_mem_nil, or_false] at hc
      rcases hc with rfl | rfl | rfl | rfl <;> exact charAt_lt _
    · exact ih c hc

/-! ## The output size -/

theorem countP_encode (data : Bytes) :
    (encode data).countP is64 = (4 * data.length + 2) / 3 ∧
      (encode data).countP (fun c => !is64 c && c == 61) = (3 - data.length % 3) % 3 := by
  induction data using encode.induct with
  | case1 => exact ⟨rfl, rfl⟩
  | case2 in1 =>
      obtain ⟨i, j, k, l, hg, -⟩ := encodeGroup_eq in1 0 0
      simp [encode, hg]
  | case3 in1 in2 =>
      obtain ⟨i, j, k, l, hg, -⟩ := encodeGroup_eq in1 in2 0
      simp [encode, hg]
  | case4 in1 in2 in3 rest ih =>
      obtain ⟨i, j, k, l, hg, -⟩ := encodeGroup_eq in1 in2 in3
      obtain ⟨ih1, ih2⟩ := ih
      simp only [encode, hg, List.countP_append, ih1, ih2, List.length_cons]
      simp only [List.countP_cons, List.countP_nil, is64_charAt]
      constructor
      · simp only [if_true]
        omega
      · simp only [Bool.not_true, Bool.false_and, Bool.false_eq_true, if_false]
        omega

/-- An encoded text announces exactly the size of the bytes it encodes. -/
theorem decodeSize_encode (data : Bytes) : decodeSize (encode data) = data.length := by
  obtain ⟨hs, he⟩ := countP_encode data
  simp only [decodeSize, hs, he]
  omega

/-- `encode` writes four characters for every three bytes begun. -/
theorem length_encode (data : Bytes) : (encode data).length = (data.length + 2) / 3 * 4 := by
  induction data using encode.induct with
  | case1 => rfl
  | case2 in1 => simp [encode, encodeGroup]
  | case3 in1 in2 => simp [encode, encodeGroup]
  | case4 in1 in2 in3 rest ih =>
      simp only [encode, List.length_append, ih, List.length_cons]
      simp only [encodeGroup, List.length_cons, List.length_nil]
      omega

/-! ## Oring the sextets in -/

/-- Writing past the first byte leaves it alone. -/
theorem setData_cons (b : UInt8) (data : Bytes) (pos : ℕ) (c : UInt8) :
    setData (b :: data) (pos + 8) c = b :: setData data pos c := by
  have hdiv : (pos + 8) / 8 = pos / 8 + 1 := by omega
  have hmod : (pos + 8) % 8 = pos % 8 := by omega
  simp only [setData, hdiv, hmod, List.length_cons]
  by_cases hlt : pos / 8 ≥ data.length
  · rw [if_pos (by omega), if_pos hlt]
  · rw [if_neg (by omega), if_neg hlt]
    simp only [List.modify_succ_cons, List.length_modify, List.length_cons]
    split <;> split <;> first | rfl | omega

theorem decodeLoop_cons (b : UInt8) (data : Bytes) (pos : ℕ) (cs : Bytes) :
    decodeLoop (b :: data) (pos + 8) cs = b :: decodeLoop data pos cs := by
  induction cs generalizing data pos with
  | nil => rfl
  | cons c cs ih =>
      simp only [decodeLoop]
      split
      · rw [setData_cons, show pos + 8 + 6 = pos + 6 + 8 from by omega, ih]
      · exact ih data pos

/-- What one character changes when the bit position lies in the first byte. -/
theorem setData_of_lt (b : UInt8) (data : Bytes) {pos : ℕ} (hpos : pos < 8) (c : UInt8) :
    setData (b :: data) pos c =
      (b ||| UInt8.ofNat (decodeChar c >>> pos)) ::
        if pos > 2 then data.modify 0 (· ||| UInt8.ofNat (decodeChar c <<< (8 - pos)))
        else data := by
  have hdiv : pos / 8 = 0 := by omega
  have hmod : pos % 8 = pos := by omega
  simp only [setData, hdiv, hmod, List.length_cons, List.modify_zero_cons, Nat.zero_add]
  rw [if_neg (by omega)]
  cases data with
  | nil => simp
  | cons d data => by_cases h2 : pos > 2 <;> simp [h2]

/-- The byte that the pieces of two neighbouring sextets make up. -/
theorem ofNat_or_ofNat (b : UInt8) (m : ℕ) :
    UInt8.ofNat (b.toNat / 2 ^ m * 2 ^ m) ||| UInt8.ofNat (b.toNat % 2 ^ m) = b := by
  apply UInt8.toNat_inj.mp
  have hb := b.toNat_lt
  have h1 : b.toNat / 2 ^ m * 2 ^ m < 256 := lt_of_le_of_lt (Nat.div_mul_le_self _ _) hb
  have h2 : b.toNat % 2 ^ m < 256 := lt_of_le_of_lt (Nat.mod_le _ _) hb
  rw [UInt8.toNat_or, UInt8.toNat_ofNat_of_lt' h1, UInt8.toNat_ofNat_of_lt' h2, Nat.mul_comm,
    ← Nat.two_pow_add_eq_or_of_lt (Nat.mod_lt _ (Nat.two_pow_pos m)), Nat.div_add_mod]

theorem ofNat_congr {m n : ℕ} (h : m % 256 = n % 256) : UInt8.ofNat m = UInt8.ofNat n := by
  apply UInt8.toNat_inj.mp
  simpa using h

section Group

variable {in1 in2 in3 : UInt8} {i j k l : Fin 64}
  (hi : (i : ℕ) = in1.toNat / 4) (hj : (j : ℕ) = in1.toNat % 4 * 16 + in2.toNat / 16)
  (hk : (k : ℕ) = in2.toNat % 16 * 4 + in3.toNat / 64) (hl : (l : ℕ) = in3.toNat % 64)

include hi hj in
/-- The first two sextets of a group carry its first byte, and the second one starts the next. -/
theorem decodeLoop_first (data cs : Bytes) :
    decodeLoop (0 :: data) 0 (charAt i :: charAt j :: cs) =
      in1 :: decodeLoop (data.modify 0 (· ||| UInt8.ofNat (in2.toNat / 2 ^ 4 * 2 ^ 4))) 4 cs := by
  have h1 := in1.toNat_lt
  have h2 := in2.toNat_lt
  have hhigh : UInt8.ofNat (4 * (i : ℕ)) = UInt8.ofNat (in1.toNat / 2 ^ 2 * 2 ^ 2) := by
    rw [hi, Nat.mul_comm]
    rfl
  have hlow : UInt8.ofNat ((4 * (j : ℕ)) >>> 6) = UInt8.ofNat (in1.toNat % 2 ^ 2) := by
    rw [Nat.shiftRight_eq_div_pow]
    exact congrArg _ (by omega)
  have hnext : UInt8.ofNat ((4 * (j : ℕ)) <<< 2) = UInt8.ofNat (in2.toNat / 2 ^ 4 * 2 ^ 4) := by
    rw [Nat.shiftLeft_eq]
    exact ofNat_congr (by omega)
  simp only [decodeLoop, is64_charAt, if_true, setData_of_lt _ _ (show 0 < 8 from by omega),
    setData_of_lt _ _ (show 0 + 6 < 8 from by omega), decodeChar_charAt]
  simp only [gt_iff_lt, Nat.not_lt_zero, if_false, Nat.zero_add, Nat.shiftRight_zero, hhigh, hlow,
    show (2 < 6) = True from by simp, if_true, Nat.reduceSub, hnext, UInt8.zero_or,
    ofNat_or_ofNat]
  exact decodeLoop_cons in1 _ 4 cs

include hk in
/-- The third sextet completes the second byte and starts the third. -/
theorem decodeLoop_second (data cs : Bytes) :
    decodeLoop ((0 :: data).modify 0 (· ||| UInt8.ofNat (in2.toNat / 2 ^ 4 * 2 ^ 4))) 4
        (charAt k :: cs) =
      in2 :: decodeLoop (data.modify 0 (· ||| UInt8.ofNat (in3.toNat / 2 ^ 6 * 2 ^ 6))) 2 cs := by
  have h2 := in2.toNat_lt
  have h3 := in3.toNat_lt
  have hlow : UInt8.ofNat ((4 * (k : ℕ)) >>> 4) = UInt8.ofNat (in2.toNat % 2 ^ 4) := by
    rw [Nat.shiftRight_eq_div_pow]
    exact congrArg _ (by omega)
  have hnext : UInt8.ofNat ((4 * (k : ℕ)) <<< 4) = UInt8.ofNat (in3.toNat / 2 ^ 6 * 2 ^ 6) := by
    rw [Nat.shiftLeft_eq]
    exact ofNat_congr (by omega)
  simp only [List.modify_zero_cons, decodeLoop, is64_charAt, if_true,
    setData_of_lt _ _ (show 4 < 8 from by omega), decodeChar_charAt, gt_iff_lt,
    show (2 < 4) = True from by simp, Nat.reduceSub, hlow, hnext, UInt8.zero_or, ofNat_or_ofNat]
  exact decodeLoop_cons in2 _ 2 cs

include hl in
/-- The fourth sextet completes the third byte. -/
theorem decodeLoop_third (data cs : Bytes) :
    decodeLoop ((0 :: data).modify 0 (· ||| UInt8.ofNat (in3.toNat / 2 ^ 6 * 2 ^ 6))) 2
        (charAt l :: cs) = in3 :: decodeLoop data 0 cs := by
  have h3 := in3.toNat_lt
  have hlow : UInt8.ofNat ((4 * (l : ℕ)) >>> 2) = UInt8.ofNat (in3.toNat % 2 ^ 6) := by
    rw [Nat.shiftRight_eq_div_pow]
    exact congrArg _ (by omega)
  simp only [List.modify_zero_cons, decodeLoop, is64_charAt, if_true,
    setData_of_lt _ _ (show 2 < 8 from by omega), decodeChar_charAt, gt_iff_lt, lt_irrefl,
    if_false, hlow, UInt8.zero_or, ofNat_or_ofNat]
  exact decodeLoop_cons in3 _ 0 cs

end Group

/-- The loop writes the encoded bytes back over as many zero bytes. -/
theorem decodeLoop_encode (data : Bytes) :
    decodeLoop (List.replicate data.length 0) 0 (encode data) = data := by
  induction data using encode.induct with
  | case1 => rfl
  | case2 in1 =>
      obtain ⟨i, j, k, l, hg, hi, hj, -⟩ := encodeGroup_eq in1 0 0
      simp only [encode, hg, List.take_succ_cons, List.take_zero, List.cons_append,
        List.length_cons, List.length_nil, List.replicate_succ, List.replicate_zero]
      rw [decodeLoop_first hi hj]
      simp [decodeLoop]
  | case3 in1 in2 =>
      obtain ⟨i, j, k, l, hg, hi, hj, hk, -⟩ := encodeGroup_eq in1 in2 0
      simp only [encode, hg, List.take_succ_cons, List.take_zero, List.cons_append,
        List.length_cons, List.length_nil, List.replicate_succ, List.replicate_zero]
      rw [decodeLoop_first hi hj, decodeLoop_second hk]
      simp [decodeLoop]
  | case4 in1 in2 in3 rest ih =>
      obtain ⟨i, j, k, l, hg, hi, hj, hk, hl⟩ := encodeGroup_eq in1 in2 in3
      simp only [encode, hg, List.cons_append, List.nil_append, List.length_cons,
        List.replicate_succ]
      rw [decodeLoop_first hi hj, decodeLoop_second hk, decodeLoop_third hl, ih]

/-- Decoding an encoded text gives the bytes back. -/
theorem decode_encode (data : Bytes) : decode (encode data) = some data := by
  rw [decode, decodeSize_encode]
  by_cases h0 : data = []
  · subst h0
    rfl
  · have hlen : 0 < data.length := List.length_pos_iff.mpr h0
    simp only [Int.natCast_eq_zero, Int.toNat_natCast]
    rw [if_neg (by omega), if_neg (by omega), decodeLoop_encode]

/-! ## Texts that are not encodings -/

@[simp] theorem length_setData (data : Bytes) (pos : ℕ) (c : UInt8) :
    (setData data pos c).length = data.length := by
  simp only [setData]
  split_ifs <;> simp

theorem length_decodeLoop (res : Bytes) (pos : ℕ) (cs : Bytes) :
    (decodeLoop res pos cs).length = res.length := by
  induction cs generalizing res pos with
  | nil => rfl
  | cons c cs ih =>
    rw [decodeLoop]
    split
    · rw [ih, length_setData]
    · exact ih res pos

/-- The size of what is decoded is the one announced. -/
theorem length_of_decode {data out : Bytes} (h : decode data = some out) :
    (out.length : ℤ) = decodeSize data := by
  rw [decode] at h
  split at h
  · rename_i hzero
    rw [hzero, ← Option.some.inj h]
    rfl
  · split at h
    · cases h
    · rename_i hneg
      rw [← Option.some.inj h, length_decodeLoop, List.length_replicate]
      omega

/-- A text announces fewer bytes than it has. -/
theorem decodeSize_le (data : Bytes) : decodeSize data ≤ data.length := by
  have hcount : data.countP is64 + data.countP (fun c => !is64 c && c == 61) ≤ data.length := by
    induction data with
    | nil => exact Nat.zero_le _
    | cons c data ih =>
      simp only [List.countP_cons, List.length_cons]
      cases is64 c <;> cases (c == 61) <;> simp <;> omega
  rw [decodeSize]
  omega

theorem length_decode_le {data out : Bytes} (h : decode data = some out) :
    out.length ≤ data.length := by
  have hsize := length_of_decode h
  have hle := decodeSize_le data
  omega

end VplJail.Base64
