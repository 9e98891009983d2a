import VplJail.Util.Utf8
import VplJail.WebSocket.Receive

/-!
# UTF-8 in text frames

`isValidUTF8` accepts just the encodings of characters (`isValidUTF8_iff`), and `sanitizeUTF8` writes
a `?` for every byte that belongs to none, so it changes every other text
(`isValidUTF8_of_sanitizeUTF8`).
-/

namespace VplJail.WebSocket

open Util

/-- `sanitizeUTF8`: every byte that is part of no character becomes a question mark. -/
def sanitizeUTF8 : Bytes → Bytes
  | [] => []
  | b :: rest =>
      if b < 0x80 then b :: sanitizeUTF8 rest
      else if b &&& 0xE0 = 0xC0 then
        match rest with
        | c1 :: rest =>
            if validChar (b &&& 0x1F) 0x80 [c1] then b :: c1 :: sanitizeUTF8 rest
            -- one byte is replaced, the one behind it may start a character
            else 63 :: sanitizeUTF8 (c1 :: rest)
        | rest => 63 :: sanitizeUTF8 rest
      else if b &&& 0xF0 = 0xE0 then
        match rest with
        | c1 :: c2 :: rest =>
            if validChar (b &&& 0x0F) 0x800 [c1, c2] then b :: c1 :: c2 :: sanitizeUTF8 rest
            else 63 :: sanitizeUTF8 (c1 :: c2 :: rest)
        | rest => 63 :: sanitizeUTF8 rest
      else if b &&& 0xF8 = 0xF0 then
        match rest with
        | c1 :: c2 :: c3 :: rest =>
            if validChar (b &&& 0x07) 0x10000 [c1, c2, c3] then
              b :: c1 :: c2 :: c3 :: sanitizeUTF8 rest
            else 63 :: sanitizeUTF8 (c1 :: c2 :: c3 :: rest)
        | rest => 63 :: sanitizeUTF8 rest
      else 63 :: sanitizeUTF8 rest

/-- The payload that `webSocket::send` frames. -/
def sendPayload (s : Bytes) (ft : FrameType) : Bytes :=
  if ft = .text ∧ ¬ isValidUTF8 s then sanitizeUTF8 s else s

example : sanitizeUTF8 [97, 0xC3, 0xA9, 0xE2, 0x82] = [97, 0xC3, 0xA9, 63, 63] := by decide +kernel

/-! ## The characters of a text -/

/-- The length of the character that a text starts with, if it starts with one. -/
def charLength : Bytes → Option ℕ
  | [] => none
  | b :: rest =>
      if b < 0x80 then some 1
      else if b &&& 0xE0 = 0xC0 then
        match rest with
        | c1 :: _ => if validChar (b &&& 0x1F) 0x80 [c1] then some 2 else none
        | _ => none
      else if b &&& 0xF0 = 0xE0 then
        match rest with
        | c1 :: c2 :: _ => if validChar (b &&& 0x0F) 0x800 [c1, c2] then some 3 else none
        | _ => none
      else if b &&& 0xF8 = 0xF0 then
        match rest with
        | c1 :: c2 :: c3 :: _ =>
            if validChar (b &&& 0x07) 0x10000 [c1, c2, c3] then some 4 else none
        | _ => none
      else none

theorem isValidUTF8_cons (b : UInt8) (rest : Bytes) :
    isValidUTF8 (b :: rest) =
      match charLength (b :: rest) with
      | none => false
      | some n => isValidUTF8 ((b :: rest).drop n) := by
  rw [isValidUTF8.eq_def, charLength.eq_def]
  dsimp only
  by_cases h1 : b < 0x80
  · rw [if_pos h1, if_pos h1]
    rfl
  rw [if_neg h1, if_neg h1]
  by_cases h2 : b &&& 0xE0 = 0xC0
  · rw [if_pos h2, if_pos h2]
    match rest with
    | [] => rfl
    | c1 :: rest =>
      dsimp only
      cases validChar (b &&& 0x1F) 0x80 [c1] <;> rfl
  rw [if_neg h2, if_neg h2]
  by_cases h3 : b &&& 0xF0 = 0xE0
  · rw [if_pos h3, if_pos h3]
    match rest with
    | [] => rfl
    | [c1] => rfl
    | c1 :: c2 :: rest =>
      dsimp only
      cases validChar (b &&& 0x0F) 0x800 [c1, c2] <;> rfl
  rw [if_neg h3, if_neg h3]
  by_cases h4 : b &&& 0xF8 = 0xF0
  · rw [if_pos h4, if_pos h4]
    match rest with
    | [] => rfl
    | [c1] => rfl
    | [c1, c2] => rfl
    | c1 :: c2 :: c3 :: rest =>
      dsimp only
      cases validChar (b &&& 0x07) 0x10000 [c1, c2, c3] <;> rfl
  · rw [if_neg h4, if_neg h4]

theorem sanitizeUTF8_cons (b : UInt8) (rest : Bytes) :
    sanitizeUTF8 (b :: rest) =
      match charLength (b :: rest) with
      | none => 63 :: sanitizeUTF8 rest
      | some n => (b :: rest).take n ++ sanitizeUTF8 ((b :: rest).drop n) := by
  rw [sanitizeUTF8.eq_def, charLength.eq_def]
  dsimp only
  by_cases h1 : b < 0x80
  · rw [if_pos h1, if_pos h1]
    rfl
  rw [if_neg h1, if_neg h1]
  by_cases h2 : b &&& 0xE0 = 0xC0
  · rw [if_pos h2, if_pos h2]
    match rest with
    | [] => rfl
    | c1 :: rest =>
      dsimp only
      cases validChar (b &&& 0x1F) 0x80 [c1] <;> rfl
  rw [if_neg h2, if_neg h2]
  by_cases h3 : b &&& 0xF0 = 0xE0
  · rw [if_pos h3, if_pos h3]
    match rest with
    | [] => rfl
    | [c1] => rfl
    | c1 :: c2 :: rest =>
      dsimp only
      cases validChar (b &&& 0x0F) 0x800 [c1, c2] <;> rfl
  rw [if_neg h3, if_neg h3]
  by_cases h4 : b &&& 0xF8 = 0xF0
  · rw [if_pos h4, if_pos h4]
    match rest with
    | [] => rfl
    | [c1] => rfl
    | [c1, c2] => rfl
    | c1 :: c2 :: c3 :: rest =>
      dsimp only
      cases validChar (b &&& 0x07) 0x10000 [c1, c2, c3] <;> rfl
  · rw [if_neg h4, if_neg h4]

/-- A character takes some of the bytes. -/
theorem charLength_bounds {s : Bytes} {n : ℕ} (h : charLength s = some n) :
    0 < n ∧ n ≤ s.length := by
  rw [charLength.eq_def] at h
  split at h
  · cases h
  split at h
  · cases h
    simp
  split at h
  · split at h
    · split at h <;> cases h
      simp
    · cases h
  split at h
  · split at h
    · split at h <;> cases h
      simp
    · cases h
  split at h
  · split at h
    · split at h <;> cases h
      simp
    · cases h
  · cases h

/-- Induction on a text, by a character or by a byte that belongs to none. -/
theorem text_induction {P : Bytes → Prop} (nil : P [])
    (stray : ∀ b rest, charLength (b :: rest) = none → P rest → P (b :: rest))
    (char : ∀ s n, charLength s = some n → P (s.drop n) → P s) (s : Bytes) : P s := by
  induction hlength : s.length using Nat.strong_induction_on generalizing s with
  | _ k ih =>
    cases s with
    | nil => exact nil
    | cons b rest =>
      cases hn : charLength (b :: rest) with
      | none =>
        rw [List.length_cons] at hlength
        exact stray b rest hn (ih rest.length (by omega) rest rfl)
      | some n =>
        obtain ⟨hpos, hle⟩ := charLength_bounds hn
        refine char _ n hn (ih (k - n) (by omega) _ ?_)
        rw [List.length_drop, hlength]

theorem isValidUTF8_of_charLength {s : Bytes} {n : ℕ} (h : charLength s = some n) :
    isValidUTF8 s = isValidUTF8 (s.drop n) := by
  cases s with
  | nil => cases h
  | cons b rest => rw [isValidUTF8_cons, h]

theorem sanitizeUTF8_of_charLength {s : Bytes} {n : ℕ} (h : charLength s = some n) :
    sanitizeUTF8 s = s.take n ++ sanitizeUTF8 (s.drop n) := by
  cases s with
  | nil => cases h
  | cons b rest => rw [sanitizeUTF8_cons, h]

theorem sanitizeUTF8_of_stray {b : UInt8} {rest : Bytes} (h : charLength (b :: rest) = none) :
    sanitizeUTF8 (b :: rest) = 63 :: sanitizeUTF8 rest := by
  rw [sanitizeUTF8_cons, h]

/-! ## What is replaced -/

/-- A byte is written for every byte. -/
theorem length_sanitizeUTF8 (s : Bytes) : (sanitizeUTF8 s).length = s.length := by
  induction s using text_induction with
  | nil => rfl
  | stray b rest hn ih => rw [sanitizeUTF8_of_stray hn, List.length_cons, ih, List.length_cons]
  | char s n hn ih =>
    have hle := (charLength_bounds hn).2
    rw [sanitizeUTF8_of_charLength hn, List.length_append, ih, List.length_take, List.length_drop]
    omega

/-- The byte that a question mark replaces is none. -/
theorem charLength_question (rest : Bytes) : charLength (63 :: rest) = some 1 := rfl

/-- Only valid texts are left as they are. -/
theorem isValidUTF8_of_sanitizeUTF8 {s : Bytes} (h : sanitizeUTF8 s = s) :
    isValidUTF8 s = true := by
  induction s using text_induction with
  | nil => rfl
  | stray b rest hn ih =>
    rw [sanitizeUTF8_of_stray hn] at h
    obtain ⟨rfl, -⟩ := List.cons.inj h
    rw [charLength_question] at hn
    cases hn
  | char s n hn ih =>
    rw [sanitizeUTF8_of_charLength hn] at h
    rw [isValidUTF8_of_charLength hn]
    exact ih (List.append_cancel_left (h.trans (List.take_append_drop n s).symm))

/-! ## Valid texts -/

/-- A lead byte: its mark `least` and `width` values. -/
structure Lead (high mask : UInt8) (least width : ℕ) : Prop where
  encode : ∀ x < width, UInt8.ofNat (x + least) &&& high = UInt8.ofNat least ∧
    (UInt8.ofNat (x + least) &&& mask).toNat = x
  decode : ∀ k < 256, UInt8.ofNat k &&& high = UInt8.ofNat least → least ≤ k ∧ k < least + width

theorem lead_two : Lead 0xE0 0x1F 0xC0 32 := by
  constructor <;> decide +kernel

theorem lead_three : Lead 0xF0 0x0F 0xE0 16 := by
  constructor <;> decide +kernel

theorem lead_four : Lead 0xF8 0x07 0xF0 8 := by
  constructor <;> decide +kernel

theorem lead_more : Lead 0xC0 0x3F 0x80 64 := by
  constructor <;> decide +kernel

theorem Lead.exists_value {high mask b : UInt8} {least width : ℕ} (h : Lead high mask least width)
    (hb : b &&& high = UInt8.ofNat least) :
    ∃ x < width, b = UInt8.ofNat (x + least) ∧ (b &&& mask).toNat = x := by
  have hk : b = UInt8.ofNat b.toNat := UInt8.ofNat_toNat.symm
  rw [hk] at hb
  obtain ⟨hlow, hhigh⟩ := h.decode b.toNat b.toNat_lt hb
  have hx : b.toNat - least + least = b.toNat := Nat.sub_add_cancel hlow
  have hvalue := (h.encode (b.toNat - least) (by omega)).2
  rw [hx, ← hk] at hvalue
  exact ⟨b.toNat - least, by omega, by rw [hx, ← hk], hvalue⟩

theorem exists_value_of_isContinuation {b : UInt8} (h : isContinuation b = true) :
    ∃ y < 64, b = UInt8.ofNat (y + 0x80) ∧ (b &&& 0x3F).toNat = y :=
  lead_more.exists_value (beq_iff_eq.mp h)

/-- Six bits more. -/
theorem shiftLeft_or (a : ℕ) {y : ℕ} (hy : y < 64) : a <<< 6 ||| y = 64 * a + y := by
  rw [← Nat.shiftLeft_add_eq_or_of_lt (i := 6) hy, Nat.shiftLeft_eq]
  omega

theorem codepoint_cons {lead : UInt8} {a : ℕ} (hlead : lead.toNat = a) (cbs : List UInt8) :
    codepoint lead cbs = cbs.foldl (fun cp cb => cp <<< 6 ||| (cb &&& 0x3F).toNat) a := by
  rw [codepoint, hlead]

/-- The numbers of characters. -/
theorem exists_char {v : ℕ} (h : v ≤ 0x10FFFF) (hsurrogate : ¬ (0xD800 ≤ v ∧ v ≤ 0xDFFF)) :
    ∃ c : Char, c.val.toNat = v := by
  have hv : v.isValidChar := by
    rw [Nat.isValidChar]
    omega
  refine ⟨Char.ofNat v, ?_⟩
  rw [Char.ofNat, dif_pos hv]
  rfl

theorem validChar_iff {lead : UInt8} {least : ℕ} {cbs : List UInt8} :
    validChar lead least cbs = true ↔ (∀ cb ∈ cbs, isContinuation cb = true) ∧
      least ≤ codepoint lead cbs ∧ codepoint lead cbs ≤ 0x10FFFF ∧
      ¬ (0xD800 ≤ codepoint lead cbs ∧ codepoint lead cbs ≤ 0xDFFF) := by
  simp only [validChar, Bool.and_eq_true, List.all_eq_true, decide_eq_true_eq, Bool.not_eq_true',
    Bool.and_eq_false_iff, decide_eq_false_iff_not, and_assoc, not_and_or]

/-- The bytes that are taken as a character are one. -/
theorem exists_char_of_charLength {s : Bytes} {n : ℕ} (h : charLength s = some n) :
    ∃ c : Char, s.take n = String.utf8EncodeChar c := by
  rw [charLength.eq_def] at h
  split at h
  · cases h
  rename_i b rest
  split at h
  · -- one byte
    rename_i hascii
    cases h
    have hlt : b.toNat < 128 := hascii
    obtain ⟨c, hc⟩ := exists_char (v := b.toNat) (by omega) (by omega)
    refine ⟨c, ?_⟩
    rw [String.utf8EncodeChar, hc, if_pos (by omega), UInt8.ofNat_toNat]
    rfl
  split at h
  · -- a lead byte and one more; the bits of both are those of the code point
    rename_i hlead
    split at h
    · rename_i c1 rest
      split at h <;> cases h
      rename_i hvalid
      rw [validChar_iff] at hvalid
      obtain ⟨hmore, hleast, hmax, hsurrogate⟩ := hvalid
      obtain ⟨x, hx, hb, hbx⟩ := lead_two.exists_value hlead
      obtain ⟨y, hy, hc1, hc1y⟩ := exists_value_of_isContinuation (hmore c1 (by simp))
      have hcp : codepoint (b &&& 0x1F) [c1] = 64 * x + y := by
        rw [codepoint_cons hbx, List.foldl_cons, hc1y, shiftLeft_or _ hy, List.foldl_nil]
      rw [hcp] at hleast hmax hsurrogate
      obtain ⟨c, hc⟩ := exists_char hmax hsurrogate
      refine ⟨c, ?_⟩
      rw [String.utf8EncodeChar, hc, if_neg (by omega), if_pos (by omega),
        show (64 * x + y) / 64 % 0x20 = x by omega, show (64 * x + y) % 0x40 = y by omega, ← hb,
        ← hc1]
      rfl
    · cases h
  split at h
  · -- two more
    rename_i hlead
    split at h
    · rename_i c1 c2 rest
      split at h <;> cases h
      rename_i hvalid
      rw [validChar_iff] at hvalid
      obtain ⟨hmore, hleast, hmax, hsurrogate⟩ := hvalid
      obtain ⟨x, hx, hb, hbx⟩ := lead_three.exists_value hlead
      obtain ⟨y, hy, hc1, hc1y⟩ := exists_value_of_isContinuation (hmore c1 (by simp))
      obtain ⟨z, hz, hc2, hc2z⟩ := exists_value_of_isContinuation (hmore c2 (by simp))
      have hcp : codepoint (b &&& 0x0F) [c1, c2] = 64 * (64 * x + y) + z := by
        rw [codepoint_cons hbx, List.foldl_cons, List.foldl_cons, hc1y, hc2z, shiftLeft_or _ hy,
          shiftLeft_or _ hz, List.foldl_nil]
      rw [hcp] at hleast hmax hsurrogate
      obtain ⟨c, hc⟩ := exists_char hmax hsurrogate
      refine ⟨c, ?_⟩
      rw [String.utf8EncodeChar, hc, if_neg (by omega), if_neg (by omega), if_pos (by omega),
        show (64 * (64 * x + y) + z) / 4096 % 0x10 = x by omega,
        show (64 * (64 * x + y) + z) / 64 % 0x40 = y by omega,
        show (64 * (64 * x + y) + z) % 0x40 = z by omega, ← hb, ← hc1, ← hc2]
      rfl
    · cases h
  split at h
  · -- three more
    rename_i hlead
    split at h
    · rename_i c1 c2 c3 rest
      split at h <;> cases h
      rename_i hvalid
      rw [validChar_iff] at hvalid
      obtain ⟨hmore, hleast, hmax, hsurrogate⟩ := hvalid
      obtain ⟨x, hx, hb, hbx⟩ := lead_four.exists_value hlead
      obtain ⟨y, hy, hc1, hc1y⟩ := exists_value_of_isContinuation (hmore c1 (by simp))
      obtain ⟨z, hz, hc2, hc2z⟩ := exists_value_of_isContinuation (hmore c2 (by simp))
      obtain ⟨w, hw, hc3, hc3w⟩ := exists_value_of_isContinuation (hmore c3 (by simp))
      have hcp : codepoint (b &&& 0x07) [c1, c2, c3] = 64 * (64 * (64 * x + y) + z) + w := by
        rw [codepoint_cons hbx, List.foldl_cons, List.foldl_cons, List.foldl_cons, hc1y, hc2z, hc3w,
          shiftLeft_or _ hy, shiftLeft_or _ hz, shiftLeft_or _ hw, List.foldl_nil]
      rw [hcp] at hleast hmax hsurrogate
      obtain ⟨c, hc⟩ := exists_char hmax hsurrogate
      refine ⟨c, ?_⟩
      rw [String.utf8EncodeChar, hc, if_neg (by omega), if_neg (by omega), if_neg (by omega),
        show (64 * (64 * (64 * x + y) + z) + w) / 262144 % 0x08 = x by omega,
        show (64 * (64 * (64 * x + y) + z) + w) / 4096 % 0x40 = y by omega,
        show (64 * (64 * (64 * x + y) + z) + w) / 64 % 0x40 = z by omega,
        show (64 * (64 * (64 * x + y) + z) + w) % 0x40 = w by omega, ← hb, ← hc1, ← hc2, ← hc3]
      rfl
    · cases h
  · cases h

/-- A character is taken as one. -/
theorem charLength_utf8EncodeChar (c : Char) (rest : Bytes) :
    charLength (String.utf8EncodeChar c ++ rest) = some (String.utf8EncodeChar c).length := by
  have hsurrogate : c.val.toNat < 0xD800 ∨ (0xDFFF < c.val.toNat ∧ c.val.toNat < 0x110000) := c.valid
  rw [String.utf8EncodeChar]
  generalize c.val.toNat = v at hsurrogate
  have hmore (y : ℕ) : isContinuation (UInt8.ofNat (y % 0x40 + 0x80)) = true :=
    beq_iff_eq.mpr (lead_more.encode _ (Nat.mod_lt _ (by decide))).1
  have hbits (y : ℕ) : (UInt8.ofNat (y % 0x40 + 0x80) &&& 0x3F).toNat = y % 64 :=
    (lead_more.encode _ (Nat.mod_lt _ (by decide))).2
  -- the tests of the bytes in front fail, and the code point is put together again
  split
  · have hascii : ∀ k ≤ 0x7F, UInt8.ofNat k < 0x80 := by decide +kernel
    exact if_pos (hascii v ‹_›)
  split
  · have hfirst : ∀ k < 0x20, ¬ UInt8.ofNat (k + 0xC0) < 0x80 := by decide +kernel
    have hk : v / 64 % 0x20 < 0x20 := Nat.mod_lt _ (by decide)
    obtain ⟨hlead, hvalue⟩ := lead_two.encode _ hk
    have hcp : codepoint (UInt8.ofNat (v / 64 % 0x20 + 0xC0) &&& 0x1F)
        [UInt8.ofNat (v % 0x40 + 0x80)] = v := by
      rw [codepoint_cons hvalue, List.foldl_cons, hbits, shiftLeft_or _ (Nat.mod_lt _ (by decide)),
        List.foldl_nil]
      omega
    have hvalid : validChar (UInt8.ofNat (v / 64 % 0x20 + 0xC0) &&& 0x1F) 0x80
        [UInt8.ofNat (v % 0x40 + 0x80)] = true := by
      rw [validChar_iff, hcp]
      refine ⟨?_, by omega, by omega, by omega⟩
      simp only [List.forall_mem_cons, hmore, List.not_mem_nil, false_implies, implies_true,
        and_self]
    exact (if_neg (hfirst _ hk)).trans ((if_pos hlead).trans (if_pos hvalid))
  split
  · have hfirst : ∀ k < 0x10, ¬ UInt8.ofNat (k + 0xE0) < 0x80 ∧
        UInt8.ofNat (k + 0xE0) &&& 0xE0 ≠ 0xC0 := by decide +kernel
    have hk : v / 4096 % 0x10 < 0x10 := Nat.mod_lt _ (by decide)
    obtain ⟨hlead, hvalue⟩ := lead_three.encode _ hk
    have hcp : codepoint (UInt8.ofNat (v / 4096 % 0x10 + 0xE0) &&& 0x0F)
        [UInt8.ofNat (v / 64 % 0x40 + 0x80), UInt8.ofNat (v % 0x40 + 0x80)] = v := by
      rw [codepoint_cons hvalue, List.foldl_cons, List.foldl_cons, hbits, hbits,
        shiftLeft_or _ (Nat.mod_lt _ (by decide)), shiftLeft_or _ (Nat.mod_lt _ (by decide)),
        List.foldl_nil]
      omega
    have hvalid : validChar (UInt8.ofNat (v / 4096 % 0x10 + 0xE0) &&& 0x0F) 0x800
        [UInt8.ofNat (v / 64 % 0x40 + 0x80), UInt8.ofNat (v % 0x40 + 0x80)] = true := by
      rw [validChar_iff, hcp]
      refine ⟨?_, by omega, by omega, by omega⟩
      simp only [List.forall_mem_cons, hmore, List.not_mem_nil, false_implies, implies_true,
        and_self]
    exact (if_neg (hfirst _ hk).1).trans ((if_neg (hfirst _ hk).2).trans
      ((if_pos hlead).trans (if_pos hvalid)))
  · have hfirst : ∀ k < 0x08, ¬ UInt8.ofNat (k + 0xF0) < 0x80 ∧
        UInt8.ofNat (k + 0xF0) &&& 0xE0 ≠ 0xC0 ∧ UInt8.ofNat (k + 0xF0) &&& 0xF0 ≠ 0xE0 := by
      decide +kernel
    have hk : v / 262144 % 0x08 < 0x08 := Nat.mod_lt _ (by decide)
    obtain ⟨hlead, hvalue⟩ := lead_four.encode _ hk
    have hcp : codepoint (UInt8.ofNat (v / 262144 % 0x08 + 0xF0) &&& 0x07)
        [UInt8.ofNat (v / 4096 % 0x40 + 0x80), UInt8.ofNat (v / 64 % 0x40 + 0x80),
          UInt8.ofNat (v % 0x40 + 0x80)] = v := by
      rw [codepoint_cons hvalue, List.foldl_cons, List.foldl_cons, List.foldl_cons, hbits, hbits,
        hbits, shiftLeft_or _ (Nat.mod_lt _ (by decide)), shiftLeft_or _ (Nat.mod_lt _ (by decide)),
        shiftLeft_or _ (Nat.mod_lt _ (by decide)), List.foldl_nil]
      omega
    have hvalid : validChar (UInt8.ofNat (v / 262144 % 0x08 + 0xF0) &&& 0x07) 0x10000
        [UInt8.ofNat (v / 4096 % 0x40 + 0x80), UInt8.ofNat (v / 64 % 0x40 + 0x80),
          UInt8.ofNat (v % 0x40 + 0x80)] = true := by
      rw [validChar_iff, hcp]
      refine ⟨?_, by omega, by omega, by omega⟩
      simp only [List.forall_mem_cons, hmore, List.not_mem_nil, false_implies, implies_true,
        and_self]
    exact (if_neg (hfirst _ hk).1).trans ((if_neg (hfirst _ hk).2.1).trans
      ((if_neg (hfirst _ hk).2.2).trans ((if_pos hlead).trans (if_pos hvalid))))

/-- A valid text encodes characters. -/
theorem exists_chars_of_isValidUTF8 {s : Bytes} (h : isValidUTF8 s = true) :
    ∃ cs : List Char, s = utf8 cs := by
  induction s using text_induction with
  | nil => exact ⟨[], rfl⟩
  | stray b rest hn ih =>
    rw [isValidUTF8_cons, hn] at h
    cases h
  | char s n hn ih =>
    rw [isValidUTF8_of_charLength hn] at h
    obtain ⟨cs, hcs⟩ := ih h
    obtain ⟨c, hc⟩ := exists_char_of_charLength hn
    refine ⟨c :: cs, ?_⟩
    rw [utf8, List.flatMap_cons, ← hc, ← utf8, ← hcs, List.take_append_drop]

/-- What encodes characters is valid. -/
theorem isValidUTF8_utf8 (cs : List Char) : isValidUTF8 (utf8 cs) = true := by
  induction cs with
  | nil => rfl
  | cons c cs ih =>
    rw [utf8, List.flatMap_cons, ← utf8,
      isValidUTF8_of_charLength (charLength_utf8EncodeChar c (utf8 cs)), List.drop_left]
    exact ih

/-- The valid texts are the encodings of characters. -/
theorem isValidUTF8_iff {s : Bytes} : isValidUTF8 s = true ↔ ∃ cs : List Char, s = utf8 cs := by
  refine ⟨exists_chars_of_isValidUTF8, ?_⟩
  rintro ⟨cs, rfl⟩
  exact isValidUTF8_utf8 cs

end VplJail.WebSocket
