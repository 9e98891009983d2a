import Mathlib.Data.List.GetD
import Mathlib.Tactic.IntervalCases
import VplJail.Common.Bytes

/-!
# UTF-8

`get_clean_utf8` of `util.h`, which drops what is no UTF-8, and `utf8`, the encoding of Unicode scalar
values.
-/

namespace VplJail

/-- The UTF-8 of a string. -/
def utf8 (cs : List Char) : Bytes :=
  cs.flatMap String.utf8EncodeChar

namespace Util

/-- The length that the first byte of a sequence announces, if it is none of ASCII. -/
def sequenceLength (c : UInt8) : Option ℕ :=
  if c >>> 5 = 0b110 then some 2
  else if c >>> 4 = 0b1110 then some 3
  else if c >>> 3 = 0b11110 then some 4
  else none

/-- `get_utf8_nbytes_char` of the text from a position on: how many bytes to keep, or how many to
drop, as a negative number -/
def getUtf8NbytesChar : Bytes → ℤ
  | [] => 0
  | c :: rest =>
      if c >>> 7 = 0 then 1
      else match sequenceLength c with
        | none => -1
        | some n =>
          if rest.length + 1 < n then -1
          else match (rest.take (n - 1)).findIdx? fun c : UInt8 => c >>> 6 ≠ 0b10 with
            | some i => -(i + 2)
            | none => n

/-- The loop of `get_clean_utf8`, where `n` bytes are still to be kept or dropped. -/
def cleanFrom : Bool → ℕ → Bytes → Bytes
  | _, _, [] => []
  | keep, n + 1, b :: rest => if keep then b :: cleanFrom keep n rest else cleanFrom keep n rest
  | _, 0, b :: rest =>
      let n := getUtf8NbytesChar (b :: rest)
      if 0 < n then b :: cleanFrom true (n.toNat - 1) rest
      else cleanFrom false ((-n).toNat - 1) rest

/-- `get_clean_utf8`: what is no UTF-8 is left out. -/
def getCleanUtf8 (text : Bytes) : Bytes :=
  cleanFrom false 0 text

example : getCleanUtf8 [104, 0xC3, 0xA9, 0xFF, 0xE2, 0x82, 33, 33] = [104, 0xC3, 0xA9, 33] := by
  decide

/-! ## Valid text is kept -/

/-- What is kept is kept whole. -/
theorem cleanFrom_keep (kept rest : Bytes) :
    cleanFrom true kept.length (kept ++ rest) = kept ++ cleanFrom true 0 rest := by
  induction kept with
  | nil => rfl
  | cons b kept ih => rw [List.cons_append, List.length_cons, cleanFrom, if_pos rfl, ih]; rfl

theorem cleanFrom_zero (keep keep' : Bool) (text : Bytes) :
    cleanFrom keep 0 text = cleanFrom keep' 0 text := by
  cases text <;> rfl

/-- A character at the front is kept. -/
theorem cleanFrom_append {keep : Bool} {b : UInt8} {tail rest : Bytes}
    (h : getUtf8NbytesChar (b :: (tail ++ rest)) = tail.length + 1) :
    cleanFrom keep 0 (b :: (tail ++ rest)) = b :: (tail ++ cleanFrom keep 0 rest) := by
  rw [cleanFrom, h, if_pos (by omega), show ((tail.length : ℤ) + 1).toNat - 1 = tail.length by omega,
    cleanFrom_keep, cleanFrom_zero]

/-- A byte of several that goes on. -/
theorem continuation (n : ℕ) : (UInt8.ofNat (n % 64 + 0x80)) >>> 6 = 0b10 := by
  have h : ∀ k < 64, (UInt8.ofNat (k + 0x80)) >>> 6 = 0b10 := by decide
  exact h _ (Nat.mod_lt _ (by omega))

theorem getUtf8NbytesChar_of_sequence {c : UInt8} {tail rest : Bytes} (hc : ¬ c >>> 7 = 0)
    (hn : sequenceLength c = some (tail.length + 1)) (htail : ∀ b ∈ tail, b >>> 6 = 0b10) :
    getUtf8NbytesChar (c :: (tail ++ rest)) = tail.length + 1 := by
  have hfind : ((tail ++ rest).take (tail.length + 1 - 1)).findIdx?
      (fun c : UInt8 => decide (c >>> 6 ≠ 0b10)) = none := by
    rw [Nat.add_sub_cancel, List.take_left, List.findIdx?_eq_none_iff]
    intro b hb
    simp [htail b hb]
  rw [getUtf8NbytesChar, if_neg hc, hn]
  dsimp only
  rw [if_neg (by rw [List.length_append]; omega), hfind]
  rfl

/-- The first bytes of sequences. -/
theorem first_of_two {k : ℕ} (h : k < 32) : ¬ UInt8.ofNat (k + 0xC0) >>> 7 = 0 ∧
    sequenceLength (UInt8.ofNat (k + 0xC0)) = some 2 := by
  revert k
  decide

theorem first_of_three {k : ℕ} (h : k < 16) : ¬ UInt8.ofNat (k + 0xE0) >>> 7 = 0 ∧
    sequenceLength (UInt8.ofNat (k + 0xE0)) = some 3 := by
  revert k
  decide

theorem first_of_four {k : ℕ} (h : k < 8) : ¬ UInt8.ofNat (k + 0xF0) >>> 7 = 0 ∧
    sequenceLength (UInt8.ofNat (k + 0xF0)) = some 4 := by
  revert k
  decide

/-- A character is taken as one. -/
theorem getUtf8NbytesChar_utf8EncodeChar (c : Char) (rest : Bytes) :
    ∃ b tail, String.utf8EncodeChar c = b :: tail ∧
      getUtf8NbytesChar (b :: (tail ++ rest)) = tail.length + 1 := by
  rw [String.utf8EncodeChar]
  generalize c.val.toNat = v
  split
  · refine ⟨_, [], rfl, if_pos ?_⟩
    have hascii : ∀ k ≤ 0x7F, UInt8.ofNat k >>> 7 = 0 := by decide
    exact hascii v ‹_›
  split
  · obtain ⟨hfirst, hlength⟩ := first_of_two (Nat.mod_lt (v / 64) (by decide : 0 < 0x20))
    refine ⟨_, _, rfl, getUtf8NbytesChar_of_sequence hfirst hlength ?_⟩
    simp only [List.forall_mem_cons, continuation, List.not_mem_nil, false_implies, implies_true,
      and_self]
  split
  · obtain ⟨hfirst, hlength⟩ := first_of_three (Nat.mod_lt (v / 4096) (by decide : 0 < 0x10))
    refine ⟨_, _, rfl, getUtf8NbytesChar_of_sequence hfirst hlength ?_⟩
    simp only [List.forall_mem_cons, continuation, List.not_mem_nil, false_implies, implies_true,
      and_self]
  · obtain ⟨hfirst, hlength⟩ := first_of_four (Nat.mod_lt (v / 262144) (by decide : 0 < 0x08))
    refine ⟨_, _, rfl, getUtf8NbytesChar_of_sequence hfirst hlength ?_⟩
    simp only [List.forall_mem_cons, continuation, List.not_mem_nil, false_implies, implies_true,
      and_self]

/-- Valid UTF-8 is clean. -/
theorem getCleanUtf8_utf8 (cs : List Char) : getCleanUtf8 (utf8 cs) = utf8 cs := by
  rw [getCleanUtf8]
  induction cs with
  | nil => rfl
  | cons c cs ih =>
    obtain ⟨b, tail, hc, hn⟩ := getUtf8NbytesChar_utf8EncodeChar c (utf8 cs)
    rw [show utf8 (c :: cs) = b :: (tail ++ utf8 cs) by rw [utf8, List.flatMap_cons, hc]; rfl,
      cleanFrom_append hn, ih]

/-! ## What the loop does with a text -/

/-- A first byte with the bytes behind it that it announces. -/
def IsSequence (c : UInt8) (tail : Bytes) : Prop :=
  c >>> 7 = 0 ∧ tail = [] ∨
    ¬ c >>> 7 = 0 ∧ sequenceLength c = some (tail.length + 1) ∧ ∀ b ∈ tail, b >>> 6 = 0b10

/-- A sequence is kept, whatever stands behind it. -/
theorem IsSequence.getUtf8NbytesChar_append {c : UInt8} {tail : Bytes} (h : IsSequence c tail)
    (rest : Bytes) : getUtf8NbytesChar (c :: (tail ++ rest)) = tail.length + 1 := by
  rcases h with ⟨hascii, rfl⟩ | ⟨hc, hn, htail⟩
  · exact if_pos hascii
  · exact getUtf8NbytesChar_of_sequence hc hn htail

/-- What is kept is a sequence. -/
theorem exists_sequence {text : Bytes} {n : ℕ} (h : getUtf8NbytesChar text = n) (hn : 0 < n) :
    ∃ c tail rest, text = c :: (tail ++ rest) ∧ n = tail.length + 1 ∧ IsSequence c tail := by
  cases text with
  | nil =>
    rw [getUtf8NbytesChar] at h
    omega
  | cons c text =>
    rw [getUtf8NbytesChar] at h
    split at h
    · exact ⟨c, [], text, rfl, by simp; omega, .inl ⟨‹_›, rfl⟩⟩
    rename_i hascii
    split at h
    · omega
    rename_i k hk
    split at h
    · omega
    rename_i hlength
    split at h
    · omega
    rename_i hfind
    have hpos : 0 < k := by omega
    have htail : (text.take (k - 1)).length + 1 = n := by
      rw [List.length_take]
      omega
    refine ⟨c, text.take (k - 1), text.drop (k - 1), ?_, htail.symm, .inr ⟨hascii, ?_, ?_⟩⟩
    · rw [List.take_append_drop]
    · rw [htail, hk]
      exact congrArg some (by omega)
    · intro b hb
      have hall := List.findIdx?_eq_none_iff.mp hfind b hb
      simpa using hall

/-- The loop moves on. -/
theorem getUtf8NbytesChar_ne_zero {text : Bytes} (h : text ≠ []) : getUtf8NbytesChar text ≠ 0 := by
  cases text with
  | nil => exact absurd rfl h
  | cons c text =>
    have hpos : ∀ n ∈ sequenceLength c, 0 < n := by
      intro n hn
      unfold sequenceLength at hn
      split at hn
      · cases hn
        decide
      split at hn
      · cases hn
        decide
      split at hn <;> cases hn
      decide
    rw [getUtf8NbytesChar]
    split
    · decide
    split
    · decide
    rename_i n hn
    have := hpos n hn
    split
    · decide
    split <;> omega

theorem cleanFrom_drop (n : ℕ) (text : Bytes) :
    cleanFrom false n text = cleanFrom false 0 (text.drop n) := by
  induction n generalizing text with
  | zero => rfl
  | succ n ih =>
    cases text with
    | nil => rfl
    | cons b text => exact ih text

/-- What is kept is in front of the rest that is cleaned. -/
theorem getCleanUtf8_keep {c : UInt8} {tail : Bytes} (h : IsSequence c tail) (rest : Bytes) :
    getCleanUtf8 (c :: (tail ++ rest)) = c :: (tail ++ getCleanUtf8 rest) :=
  cleanFrom_append (h.getUtf8NbytesChar_append rest)

/-- What is dropped leaves the rest to be cleaned. -/
theorem getCleanUtf8_drop {text : Bytes} (h : getUtf8NbytesChar text < 0) :
    getCleanUtf8 text = getCleanUtf8 (text.drop (getUtf8NbytesChar text).natAbs) := by
  cases text with
  | nil => rfl
  | cons b text =>
    have hn : (getUtf8NbytesChar (b :: text)).natAbs =
        (-getUtf8NbytesChar (b :: text)).toNat - 1 + 1 := by omega
    rw [getCleanUtf8, cleanFrom, if_neg (by omega), cleanFrom_drop, hn, List.drop_succ_cons]
    rfl

/-- Induction on a text, by what is kept or dropped. -/
theorem clean_induction {P : Bytes → Prop} (nil : P [])
    (keep : ∀ c tail rest, IsSequence c tail → P rest → P (c :: (tail ++ rest)))
    (drop : ∀ text, getUtf8NbytesChar text < 0 →
      P (text.drop (getUtf8NbytesChar text).natAbs) → P text) (text : Bytes) : P text := by
  induction hlength : text.length using Nat.strong_induction_on generalizing text with
  | _ k ih =>
    by_cases hnil : text = []
    · rw [hnil]
      exact nil
    have hpos := List.length_pos_of_ne_nil hnil
    have hne := getUtf8NbytesChar_ne_zero hnil
    by_cases hneg : getUtf8NbytesChar text < 0
    · refine drop text hneg (ih (text.drop (getUtf8NbytesChar text).natAbs).length ?_ _ rfl)
      rw [List.length_drop]
      omega
    · obtain ⟨c, tail, rest, rfl, -, hseq⟩ := exists_sequence
        (show getUtf8NbytesChar text = (getUtf8NbytesChar text).toNat by omega) (by omega)
      refine keep c tail rest hseq (ih rest.length ?_ rest rfl)
      rw [← hlength, List.length_cons, List.length_append]
      omega

/-- What remains is a part of the text. -/
theorem sublist_getCleanUtf8 (text : Bytes) : (getCleanUtf8 text).Sublist text := by
  induction text using clean_induction with
  | nil => exact .slnil
  | keep c tail rest hseq ih =>
    rw [getCleanUtf8_keep hseq]
    exact .cons_cons c (.append (.refl tail) ih)
  | drop text hneg ih =>
    rw [getCleanUtf8_drop hneg]
    exact ih.trans (List.drop_sublist _ _)

/-- A clean text is clean. -/
theorem getCleanUtf8_idem (text : Bytes) : getCleanUtf8 (getCleanUtf8 text) = getCleanUtf8 text := by
  induction text using clean_induction with
  | nil => rfl
  | keep c tail rest hseq ih => rw [getCleanUtf8_keep hseq, getCleanUtf8_keep hseq, ih]
  | drop text hneg ih => rw [getCleanUtf8_drop hneg, ih]

end Util

end VplJail
