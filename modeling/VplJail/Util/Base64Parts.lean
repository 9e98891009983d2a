import VplJail.Util.Base64

/-!
# An encoding in two parts

What `decode` makes of the first part of an encoding: the whole groups of the part are decoded, and
the characters behind them are dropped. With the second part as it is, this is what was encoded only
by a coincidence of two texts (`decode_part_iff`).
-/

namespace VplJail.Base64

/-! ## Whole groups -/

/-- Whole groups are encoded by themselves. -/
theorem encode_append {data : Bytes} (h : data.length % 3 = 0) (more : Bytes) :
    encode (data ++ more) = encode data ++ encode more := by
  induction data using encode.induct with
  | case1 => rfl
  | case2 in1 => simp at h
  | case3 in1 in2 => simp at h
  | case4 in1 in2 in3 rest ih =>
    simp only [List.length_cons] at h
    simp only [List.cons_append, encode, ih (by omega), List.append_assoc]

/-- The loop writes whole groups back, and nothing of what is behind them. -/
theorem decodeLoop_encode_append {data : Bytes} (h : data.length % 3 = 0) (more : Bytes) :
    decodeLoop (List.replicate data.length 0) 0 (encode data ++ more) = data := by
  induction data using encode.induct with
  | case1 => exact List.eq_nil_of_length_eq_zero (length_decodeLoop _ _ _)
  | case2 in1 => simp at h
  | case3 in1 in2 => simp at h
  | case4 in1 in2 in3 rest ih =>
    obtain ⟨i, j, k, l, hg, hi, hj, hk, hl⟩ := encodeGroup_eq in1 in2 in3
    simp only [List.length_cons] at h
    simp only [encode, hg, List.cons_append, List.nil_append, List.length_cons,
      List.replicate_succ]
    rw [decodeLoop_first hi hj, decodeLoop_second hk, decodeLoop_third hl, ih (by omega)]

/-- The size that whole groups and the characters behind them announce. -/
theorem decodeSize_encode_append {data : Bytes} (h : data.length % 3 = 0) (more : Bytes) :
    decodeSize (encode data ++ more) = data.length + decodeSize more := by
  obtain ⟨hs, he⟩ := countP_encode data
  simp only [decodeSize, List.countP_append, hs, he]
  push_cast
  omega

/-- Behind whole groups, less than a group is dropped. -/
theorem decode_encode_append {data more : Bytes} (h : data.length % 3 = 0)
    (hmore : decodeSize more = 0) : decode (encode data ++ more) = some data := by
  rw [decode, decodeSize_encode_append h, hmore, Int.add_zero]
  split_ifs with hzero
  · rw [List.eq_nil_of_length_eq_zero (Int.ofNat_eq_zero.mp hzero)]
  · omega
  · rw [Int.toNat_natCast, decodeLoop_encode_append h]

/-! ## The two parts -/

section Parts

variable {data first rest : Bytes}

/-- The first part holds whole groups and some characters of the next one. -/
theorem exists_groups (h : first ++ rest = encode data) (hrest : rest ≠ []) :
    ∃ groups left part, data = groups ++ left ∧ groups.length % 3 = 0 ∧
      first = encode groups ++ part ∧ part.length < 4 ∧ part ++ rest = encode left := by
  have hlength := congrArg List.length h
  have hpos := List.length_pos_iff.mpr hrest
  rw [List.length_append, length_encode] at hlength
  have htake : (data.take (first.length / 4 * 3)).length = first.length / 4 * 3 := by
    rw [List.length_take]
    omega
  have hgroups : (data.take (first.length / 4 * 3)).length % 3 = 0 := by
    rw [htake, Nat.mul_mod_left]
  have hencode : (encode (data.take (first.length / 4 * 3))).length = first.length / 4 * 4 := by
    rw [length_encode, htake]
    omega
  rw [← List.take_append_drop (first.length / 4 * 3) data, encode_append hgroups] at h
  -- the whole groups are the start of the first part
  obtain ⟨part, hfirst⟩ : encode (data.take (first.length / 4 * 3)) <+: first := by
    apply List.prefix_of_prefix_length_le (List.prefix_append _ _)
    · rw [← h]
      exact List.prefix_append _ _
    · omega
  refine ⟨_, _, part, (List.take_append_drop _ _).symm, hgroups, hfirst.symm, ?_, ?_⟩
  · have hpart := congrArg List.length hfirst
    rw [List.length_append] at hpart
    omega
  · apply List.append_cancel_left
    rw [← List.append_assoc, hfirst]
    exact h

/-- The characters of a group that has begun are of the alphabet, but for a single byte. -/
theorem part_cases {part left : Bytes} (h : part ++ rest = encode left) (hpart : part.length < 4)
    (hrest : rest ≠ []) :
    (∀ c ∈ part, is64 c = true) ∨
      (left.length = 1 ∧ decodeSize part = -1 ∧ rest = [61]) := by
  have hpos := List.length_pos_iff.mpr hrest
  have htake : part = (encode left).take part.length := by
    rw [← h, List.take_left]
  match left with
  | [] =>
    rw [encode] at h
    exact absurd (List.append_eq_nil_iff.mp h).2 hrest
  | [in1] =>
    obtain ⟨i, j, k, l, hg, -⟩ := encodeGroup_eq in1 0 0
    simp only [encode, hg, List.take_succ_cons, List.take_zero, List.cons_append,
      List.nil_append] at h htake
    -- one byte is coded as two symbols and two pads: a part of three holds the first pad
    by_cases hthree : part.length = 3
    · right
      rw [hthree] at htake
      rw [htake] at h ⊢
      refine ⟨rfl, ?_, by simpa using h⟩
      simp [decodeSize]
    · left
      intro c hc
      rw [htake] at hc
      have hlength : part.length = 0 ∨ part.length = 1 ∨ part.length = 2 := by omega
      rcases hlength with hlength | hlength | hlength <;> rw [hlength] at hc <;> simp at hc
      · rw [hc, is64_charAt]
      · rcases hc with rfl | rfl <;> exact is64_charAt _
  | [in1, in2] =>
    left
    obtain ⟨i, j, k, l, hg, -⟩ := encodeGroup_eq in1 in2 0
    simp only [encode, hg, List.take_succ_cons, List.take_zero, List.cons_append,
      List.nil_append] at htake
    intro c hc
    rw [htake] at hc
    have hmem := (List.take_subset_take_left _ (Nat.le_of_lt_succ hpart)) hc
    simp at hmem
    rcases hmem with rfl | rfl | rfl <;> exact is64_charAt _
  | in1 :: in2 :: in3 :: tail =>
    -- a part shorter than four is a beginning of the first group, which has no pad
    left
    obtain ⟨i, j, k, l, hg, -⟩ := encodeGroup_eq in1 in2 in3
    simp only [encode, hg, List.cons_append, List.nil_append] at htake
    intro c hc
    rw [htake] at hc
    have hmem := (List.take_subset_take_left _ (Nat.le_of_lt_succ hpart)) hc
    simp at hmem
    rcases hmem with rfl | rfl | rfl <;> exact is64_charAt _

theorem countP_pad_of_alphabet {part : Bytes} (h : ∀ c ∈ part, is64 c = true) :
    part.countP (fun c => !is64 c && c == 61) = 0 := by
  rw [List.countP_eq_zero]
  intro c hc
  rw [h c hc]
  simp

/-- Less than a group announces nothing. -/
theorem decodeSize_of_alphabet {part : Bytes} (h : ∀ c ∈ part, is64 c = true)
    (hlength : part.length < 4) : decodeSize part = 0 := by
  simp only [decodeSize, countP_pad_of_alphabet h, List.countP_eq_length.mpr h]
  omega

/-! ## Texts that end with their own bytes -/

/-- No character stands for itself. -/
theorem charAt_ne (x : UInt8) : charAt (x.toNat % 64) ≠ x := by
  have hall : ∀ k < 256, charAt ((UInt8.ofNat k).toNat % 64) ≠ UInt8.ofNat k := by decide +kernel
  have hx := hall x.toNat x.toNat_lt
  rwa [UInt8.ofNat_toNat] at hx

/-- The last character of whole groups. -/
theorem getLast?_encode {data : Bytes} (h : data.length % 3 = 0) :
    (encode data).getLast? = data.getLast?.map fun x => charAt (x.toNat % 64) := by
  induction data using encode.induct with
  | case1 => rfl
  | case2 in1 => simp at h
  | case3 in1 in2 => simp at h
  | case4 in1 in2 in3 rest ih =>
    simp only [List.length_cons] at h
    have ih := ih (by omega)
    rw [encode, List.getLast?_append, ih]
    cases rest with
    | nil => rfl
    | cons b rest => simp [List.getLast?_cons]

theorem exists_of_length_eq_five {l : Bytes} (h : l.length = 5) :
    ∃ a b c x y, l = [a, b, c, x, y] := by
  obtain ⟨a, l, rfl, hfour⟩ := List.length_eq_succ_iff.mp h
  obtain ⟨b, l, rfl, hthree⟩ := List.length_eq_succ_iff.mp hfour
  obtain ⟨c, x, y, rfl⟩ := List.length_eq_three.mp hthree
  exact ⟨a, b, c, x, y, rfl⟩

/-- A text whose encoding ends with the text itself. -/
theorem eq_of_suffix {left part : Bytes} (h : part ++ left = encode left) (hpart : part.length < 4)
    (hleft : left ≠ []) : left = [61] ∨ left = ascii "0=" ∨ left = ascii "EMD0=" := by
  have hlength := congrArg List.length h
  rw [List.length_append, length_encode] at hlength
  have hpos := List.length_pos_iff.mpr hleft
  by_cases hmod : left.length % 3 = 0
  · -- the last byte would stand for itself
    have hlast := getLast?_encode hmod
    rw [← h, List.getLast?_append_of_ne_nil _ hleft, List.getLast?_eq_some_getLast hleft] at hlast
    exact absurd (Option.some.inj hlast).symm (charAt_ne _)
  · obtain hone | htwo | hfive : left.length = 1 ∨ left.length = 2 ∨ left.length = 5 := by omega
    · obtain ⟨x, rfl⟩ := List.length_eq_one_iff.mp hone
      left
      simp only [encode, encodeGroup, List.take_succ_cons, List.take_zero, List.cons_append,
        List.nil_append] at h
      have hlast := congrArg List.getLast? h
      simpa using hlast
    · obtain ⟨x, y, rfl⟩ := List.length_eq_two.mp htwo
      have hparts : part ++ [x, y] =
          [charAt (x.toNat >>> 2), charAt ((x.toNat % 4) <<< 4 + y.toNat >>> 4)] ++
            [charAt ((y.toNat % 16) <<< 2), 61] := h
      obtain ⟨-, hlast⟩ := List.append_inj' hparts rfl
      obtain ⟨hx, hy⟩ : x = _ ∧ y = 61 := by simpa using hlast
      right; left
      rw [hx, hy]
      rfl
    · obtain ⟨a, b, c, x, y, rfl⟩ := exists_of_length_eq_five hfive
      have hparts : part ++ [a, b, c, x, y] =
          [charAt (a.toNat >>> 2), charAt ((a.toNat % 4) <<< 4 + b.toNat >>> 4),
              charAt ((b.toNat % 16) <<< 2 + c.toNat >>> 6)] ++
            [charAt (c.toNat % 64), charAt (x.toNat >>> 2),
              charAt ((x.toNat % 4) <<< 4 + y.toNat >>> 4), charAt ((y.toNat % 16) <<< 2), 61] := h
      obtain ⟨-, hlast⟩ := List.append_inj' hparts rfl
      obtain ⟨ha, hb, hc, hx, hy⟩ : a = _ ∧ b = _ ∧ c = _ ∧ x = _ ∧ y = 61 := by
        simpa using hlast
      right; right
      -- from the last byte back to the first
      subst hy
      subst hx
      subst hc
      rw [ha, hb]
      decide +kernel

/-- The first part is decoded to what the second one completes only where this holds nothing, or
where it is one of two texts and the end of what was encoded. -/
theorem decode_part_iff (h : first ++ rest = encode data) :
    (∃ out, decode first = some out ∧ out ++ rest = data) ↔
      rest = [] ∨ ((rest = ascii "0=" ∨ rest = ascii "EMD0=") ∧ rest <:+ data) := by
  by_cases hrest : rest = []
  · refine iff_of_true ⟨data, ?_, ?_⟩ (.inl hrest)
    · rw [← decode_encode, ← h, hrest, List.append_nil]
    · rw [hrest, List.append_nil]
  obtain ⟨groups, left, part, rfl, hgroups, rfl, hpart, hleft⟩ := exists_groups h hrest
  rcases part_cases hleft hpart hrest with halphabet | ⟨hone, hsize, hpad⟩
  · rw [decode_encode_append hgroups (decodeSize_of_alphabet halphabet hpart)]
    simp only [Option.some.injEq, exists_eq_left', List.append_cancel_left_eq, hrest, false_or]
    constructor
    · rintro rfl
      refine ⟨?_, List.suffix_append _ _⟩
      obtain rfl | hleft := eq_of_suffix hleft hpart hrest
      · -- the characters before the last `=` are not all of the alphabet
        have hpad : part ++ [61] = [80, 81, 61] ++ [61] := hleft
        rw [List.append_cancel_right hpad] at halphabet
        exact absurd (halphabet 61 (by simp)) (by decide)
      · exact hleft
    · rintro ⟨htext, hsuffix⟩
      -- one `=` makes the last group one of two bytes, and the lengths agree
      have hcount := (countP_encode left).2
      have hlength := congrArg List.length hleft
      rw [← hleft, List.countP_append, countP_pad_of_alphabet halphabet] at hcount
      rw [List.length_append, length_encode] at hlength
      have hsame : rest.length = left.length := by
        rcases htext with rfl | rfl
        · have hone : (ascii "0=").countP (fun c => !is64 c && c == 61) = 1 := by decide
          have htwo : (ascii "0=").length = 2 := rfl
          omega
        · have hone : (ascii "EMD0=").countP (fun c => !is64 c && c == 61) = 1 := by decide
          have hfive : (ascii "EMD0=").length = 5 := rfl
          omega
      apply List.IsSuffix.eq_of_length _ hsame
      exact List.suffix_of_suffix_length_le hsuffix (List.suffix_append _ _) hsame.le
  · -- without its last `=`, a group of one byte announces one byte less than the groups before it
    subst hpad
    have htexts : ¬ (([61] : Bytes) = ascii "0=" ∨ [61] = ascii "EMD0=") := by decide
    simp only [hrest, htexts, false_and, or_false, iff_false]
    rintro ⟨out, hout, hdata⟩
    have hlength := length_of_decode hout
    have hwhole := congrArg List.length hdata
    rw [decodeSize_encode_append hgroups, hsize] at hlength
    rw [List.length_append, List.length_append, hone, List.length_singleton] at hwhole
    omega

end Parts

end VplJail.Base64
