import VplJail.Json.Strings
import VplJail.WebSocket.ValidText

/-!
# Valid texts in parts

A byte of ASCII belongs to no other character, so a text is valid UTF-8 when what stands before it and
what stands behind it are.
-/

namespace VplJail.WebSocket

open Util

/-- A character is one byte of ASCII, or has none. -/
theorem utf8EncodeChar_cases (c : Char) :
    (∃ b < 0x80, String.utf8EncodeChar c = [b]) ∨ ∀ b ∈ String.utf8EncodeChar c, ¬ b < 0x80 := by
  have hhigh (k : ℕ) (hk : 128 ≤ k ∧ k < 256) : ¬ Json.lowByte k < 0x80 := by
    rw [Json.lowByte, UInt8.lt_iff_toNat_lt, UInt8.toNat_ofNat', Nat.mod_eq_of_lt hk.2]
    exact not_lt.mpr hk.1
  rw [← Json.encodeScalar_toNat, Json.encodeScalar]
  split
  · refine .inl ⟨_, ?_, rfl⟩
    rw [Json.lowByte, UInt8.lt_iff_toNat_lt, UInt8.toNat_ofNat', Nat.mod_eq_of_lt (by omega)]
    exact Nat.lt_succ_of_le ‹_›
  refine .inr fun b hb => ?_
  split_ifs at hb
  all_goals
    simp only [List.mem_cons, List.not_mem_nil, or_false] at hb
  · rcases hb with rfl | rfl <;> exact hhigh _ (by omega)
  · rcases hb with rfl | rfl | rfl <;> exact hhigh _ (by omega)
  · rcases hb with rfl | rfl | rfl | rfl <;> exact hhigh _ (by omega)

/-- ASCII does not go on with a character. -/
theorem charLength_append_ascii {s : Bytes} {c : UInt8} (hs : s ≠ []) (hc : c < 0x80)
    (rest : Bytes) : charLength (s ++ c :: rest) = charLength s := by
  cases hn : charLength s with
  | some n =>
    have happend := charLength_take_append hn (s.drop n ++ c :: rest)
    rwa [← List.append_assoc, List.take_append_drop] at happend
  | none =>
    by_contra hsome
    obtain ⟨n, hn'⟩ := Option.ne_none_iff_exists'.mp hsome
    obtain ⟨ch, hch⟩ := exists_char_of_charLength hn'
    have hpos := List.length_pos_of_ne_nil hs
    have hlength : (String.utf8EncodeChar ch).length = n := by
      rw [← hch, List.length_take_of_le (charLength_bounds hn').2]
    by_cases hle : n ≤ s.length
    · -- the character is in `s`
      rw [List.take_append_of_le_length hle] at hch
      have hchar := charLength_utf8EncodeChar ch (s.drop n)
      rw [← hch, List.take_append_drop, hn] at hchar
      cases hchar
    · have hmem : c ∈ String.utf8EncodeChar ch := by
        rw [← hch, List.take_append]
        refine List.mem_append_right _ ?_
        obtain ⟨k, hk⟩ : ∃ k, n - s.length = k + 1 := ⟨n - s.length - 1, by omega⟩
        rw [hk]
        exact List.mem_cons_self
      rcases utf8EncodeChar_cases ch with ⟨b, hb, hone⟩ | hnone
      · rw [hone] at hlength
        exact hle (hlength ▸ hpos)
      · exact hnone c hmem hc

/-- ASCII parts a text. -/
theorem isValidUTF8_append_cons (s : Bytes) {c : UInt8} (hc : c < 0x80) (rest : Bytes) :
    isValidUTF8 (s ++ c :: rest) = (isValidUTF8 s && isValidUTF8 rest) := by
  induction s using text_induction with
  | nil => exact isValidUTF8_append_ascii (s := [c]) (by simpa using hc) rest
  | stray b s hn ih =>
    have hstray := (charLength_append_ascii (List.cons_ne_nil b s) hc rest).trans hn
    rw [isValidUTF8_cons b s, hn, List.cons_append, isValidUTF8_cons,
      ← List.cons_append, hstray]
    rfl
  | char s n hn ih =>
    have hs : s ≠ [] := by
      rintro rfl
      cases hn
    have hchar := (charLength_append_ascii hs hc rest).trans hn
    rw [isValidUTF8_of_charLength hn, isValidUTF8_of_charLength hchar,
      List.drop_append_of_le_length (charLength_bounds hn).2, ih]

/-- Bytes of ASCII may be written as others of ASCII. -/
theorem isValidUTF8_flatMap {f : UInt8 → Bytes}
    (hascii : ∀ b < 0x80, f b ≠ [] ∧ ∀ b' ∈ f b, b' < 0x80) (hother : ∀ b, ¬ b < 0x80 → f b = [b])
    (s : Bytes) : isValidUTF8 (s.flatMap f) = isValidUTF8 s := by
  induction hlength : s.length using Nat.strong_induction_on generalizing s with
  | _ n ih =>
  have hhigh : (s.takeWhile (¬ · < 0x80)).flatMap f = s.takeWhile (¬ · < 0x80) := by
    refine (List.flatMap_congr fun b hb => hother b ?_).trans (List.flatMap_singleton' _)
    simpa using List.mem_takeWhile_imp hb
  rw [← List.takeWhile_append_dropWhile (p := fun b : UInt8 => decide ¬ b < 0x80) (l := s),
    List.flatMap_append, hhigh]
  cases hdrop : s.dropWhile (¬ · < 0x80) with
  | nil => rw [List.flatMap_nil, List.append_nil]
  | cons b rest =>
    have hb : b < 0x80 := by
      have hhead := List.head?_dropWhile_not (fun b : UInt8 => decide ¬ b < 0x80) s
      rw [hdrop] at hhead
      simpa using hhead
    obtain ⟨hne, hall⟩ := hascii b hb
    obtain ⟨c, cs, hcons⟩ := List.exists_cons_of_ne_nil hne
    rw [hcons] at hall
    obtain ⟨hc, hcs⟩ := List.forall_mem_cons.mp hall
    have hshorter : rest.length < n := by
      have hle := (List.dropWhile_sublist (fun b : UInt8 => decide ¬ b < 0x80) (l := s)).length_le
      rw [hdrop, List.length_cons] at hle
      omega
    rw [List.flatMap_cons, hcons, List.cons_append, isValidUTF8_append_cons _ hc,
      isValidUTF8_append_cons _ hb, isValidUTF8_append_ascii hcs, ih _ hshorter rest rfl]

end VplJail.WebSocket
