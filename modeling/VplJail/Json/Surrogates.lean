import VplJail.Json.Strings
import VplJail.Util.Utf16

/-!
# Escapes of surrogates

What `decodeJSONString` makes of the escapes of surrogates in any order. It reads them as UTF-16, but
for one case: a first half followed by an escape that is no second half takes that escape with it, and
leaves three of its digits behind as text.
-/

namespace VplJail.Json

open Util

variable {u : Uninit}

/-- An item of a string: a character that stands for itself, a short escape, or `\u` and four
digits. -/
inductive Item
  | char (c : Char) (hc : c ≠ '"' ∧ c ≠ '\\')
  | short (e b : UInt8) (he : (e, b) ∈ shortEscapes)
  | unicode (n : ℕ) (digits : Bytes) (hn : IsHex4 n digits)

namespace Item

/-- The text of an item. -/
def text : Item → Bytes
  | char c _ => String.utf8EncodeChar c
  | short e _ _ => [92, e]
  | unicode _ digits _ => 92 :: 117 :: digits

/-- The UTF-16 code units of an item. -/
def units : Item → List ℕ
  | char c _ => encodeUtf16 c.toNat
  | short _ b _ => [b.toNat]
  | unicode n _ _ => [n]

/-- The number of an escape with digits. -/
def escape : Item → Option ℕ
  | char _ _ => none
  | short _ _ _ => none
  | unicode n _ _ => some n

/-- The digits of such an escape. -/
def digits : Item → Bytes
  | char _ _ => []
  | short _ _ _ => []
  | unicode _ digits _ => digits

/-- What an item means in no pair. -/
def alone : Item → Bytes
  | char c _ => String.utf8EncodeChar c
  | short _ b _ => [b]
  | unicode n _ _ => encodeScalar (loneValue n)

/-- Behind the escape of a first half, an escape with digits is that of a second half. -/
def Follows (item next : Item) : Prop :=
  ∀ n ∈ item.escape, ∀ n' ∈ next.escape, IsHigh n → IsLow n'

end Item

/-- The text of a sequence of items. -/
def itemsText (items : List Item) : Bytes :=
  items.flatMap Item.text

/-- The UTF-8 of a sequence of items that is read as UTF-16. -/
def utf16Meaning (items : List Item) : Bytes :=
  (decodeUtf16 (items.flatMap Item.units)).flatMap encodeScalar

/-- What the code makes of a sequence of items. -/
def codeMeaning : List Item → Bytes
  | [] => []
  | [item] => item.alone
  | item :: next :: rest =>
      match item.escape, next.escape with
      | some n, some n' =>
          if IsHigh n then
            if IsLow n' then encodeScalar (pairValue n n') ++ codeMeaning rest
            else replacement ++ (replacement ++ (next.digits.tail ++ codeMeaning rest))
          else item.alone ++ codeMeaning (next :: rest)
      | _, _ => item.alone ++ codeMeaning (next :: rest)

/-! ## What the items mean -/

section Meaning

variable {rest : List Item}

@[simp] theorem utf16Meaning_nil : utf16Meaning [] = [] := rfl

theorem utf16Meaning_char (c : Char) (hc : c ≠ '"' ∧ c ≠ '\\') :
    utf16Meaning (.char c hc :: rest) = String.utf8EncodeChar c ++ utf16Meaning rest := by
  have hvalid : c.toNat < 0xD800 ∨ 0xDFFF < c.toNat ∧ c.toNat < 0x110000 := c.valid
  rw [utf16Meaning, List.flatMap_cons, Item.units,
    decodeUtf16_encodeUtf16 (by omega) (by omega), List.flatMap_cons, encodeScalar_toNat]
  rfl

theorem utf16Meaning_short (e b : UInt8) (he : (e, b) ∈ shortEscapes) :
    utf16Meaning (.short e b he :: rest) = b :: utf16Meaning rest := by
  have hb := (shortEscapes_cases he).2.2
  have hnot : ¬ IsHigh b.toNat := fun h => absurd h.1 (by omega)
  rw [utf16Meaning, List.flatMap_cons, Item.units, List.singleton_append,
    decodeUtf16_lone fun h => absurd h hnot, loneValue_of_lt (by omega), List.flatMap_cons,
    encodeScalar, if_pos hb, lowByte, UInt8.ofNat_toNat]
  rfl

/-- Only the escape of a second half starts with one. -/
theorem isLow_of_mem_head {low : ℕ} (h : low ∈ (rest.flatMap Item.units).head?) (hlow : IsLow low) :
    ∃ digits hn rest', rest = .unicode low digits hn :: rest' := by
  cases rest with
  | nil => cases h
  | cons item rest =>
    rw [List.flatMap_cons] at h
    cases item with
    | char c hc =>
      have hvalid : c.toNat < 0xD800 ∨ 0xDFFF < c.toNat ∧ c.toNat < 0x110000 := c.valid
      exact absurd hlow (not_isLow_encodeUtf16 (by omega) (by omega) low h)
    | short e b he =>
      obtain rfl := Option.some.inj h
      exact absurd hlow.1 (by have := (shortEscapes_cases he).2.2; omega)
    | unicode n digits hn =>
      obtain rfl := Option.some.inj h
      exact ⟨digits, hn, rest, rfl⟩

theorem utf16Meaning_pair {n n' : ℕ} {digits digits' : Bytes} (hn : IsHex4 n digits)
    (hn' : IsHex4 n' digits') (hhigh : IsHigh n) (hlow : IsLow n') :
    utf16Meaning (.unicode n digits hn :: .unicode n' digits' hn' :: rest) =
      encodeScalar (pairValue n n') ++ utf16Meaning rest := by
  rw [utf16Meaning, List.flatMap_cons, List.flatMap_cons, Item.units, Item.units,
    List.singleton_append, List.singleton_append, decodeUtf16_pair hhigh hlow, List.flatMap_cons]
  rfl

theorem utf16Meaning_lone {n : ℕ} {digits : Bytes} (hn : IsHex4 n digits)
    (h : IsHigh n → ∀ low ∈ (rest.flatMap Item.units).head?, ¬ IsLow low) :
    utf16Meaning (.unicode n digits hn :: rest) =
      encodeScalar (loneValue n) ++ utf16Meaning rest := by
  rw [utf16Meaning, List.flatMap_cons, Item.units, List.singleton_append, decodeUtf16_lone h,
    List.flatMap_cons]
  rfl

/-- An item that is no escape of a first half means what it means alone. -/
theorem utf16Meaning_cons {item : Item} (h : ∀ n ∈ item.escape, ¬ IsHigh n) :
    utf16Meaning (item :: rest) = item.alone ++ utf16Meaning rest := by
  cases item with
  | char c hc => exact utf16Meaning_char c hc
  | short e b he => exact utf16Meaning_short e b he
  | unicode n digits hn => exact utf16Meaning_lone hn fun hhigh => absurd hhigh (h n rfl)

/-- Induction on a sequence, by what the code takes at once. -/
theorem items_induction {P : List Item → Prop} (nil : P [])
    (cons : ∀ item rest, (∀ n ∈ item.escape, ¬ IsHigh n) → P rest → P (item :: rest))
    (lone : ∀ n digits hn rest, IsHigh n → (∀ next ∈ rest.head?, Item.escape next = none) →
      P rest → P (.unicode n digits hn :: rest))
    (pair : ∀ n digits hn n' digits' hn' rest, IsHigh n → IsLow n' → P rest →
      P (.unicode n digits hn :: .unicode n' digits' hn' :: rest))
    (broken : ∀ n digits hn n' digits' hn' rest, IsHigh n → ¬ IsLow n' → P rest →
      P (.unicode n digits hn :: .unicode n' digits' hn' :: rest))
    (items : List Item) : P items := by
  induction hlength : items.length using Nat.strong_induction_on generalizing items with
  | _ k ih =>
  cases items with
  | nil => exact nil
  | cons item rest =>
    rw [List.length_cons] at hlength
    have hrest := ih rest.length (by omega) rest rfl
    by_cases hescape : ∃ n ∈ item.escape, IsHigh n
    · obtain ⟨n, hn, hhigh⟩ := hescape
      cases item with
      | char c hc => cases hn
      | short e b he => cases hn
      | unicode n digits hdigits =>
        obtain rfl := Option.some.inj hn
        cases rest with
        | nil => exact lone _ _ _ _ hhigh nofun hrest
        | cons next rest =>
          rw [List.length_cons] at hlength
          have hrest' := ih rest.length (by omega) rest rfl
          cases next with
          | char c hc => exact lone _ _ _ _ hhigh (fun _ h => Option.some.inj h ▸ rfl) hrest
          | short e b he => exact lone _ _ _ _ hhigh (fun _ h => Option.some.inj h ▸ rfl) hrest
          | unicode n' digits' hn' =>
            by_cases hlow : IsLow n'
            · exact pair _ _ _ _ _ _ _ hhigh hlow hrest'
            · exact broken _ _ _ _ _ _ _ hhigh hlow hrest'
    · exact cons item rest (fun n hn hhigh => hescape ⟨n, hn, hhigh⟩) hrest

theorem codeMeaning_cons {item : Item} (h : ∀ n ∈ item.escape, ¬ IsHigh n) :
    codeMeaning (item :: rest) = item.alone ++ codeMeaning rest := by
  cases rest with
  | nil => rw [codeMeaning, codeMeaning, List.append_nil]
  | cons next rest =>
    cases item with
    | char c hc => rfl
    | short e b he => rfl
    | unicode n digits hn =>
      cases next with
      | char c hc => rfl
      | short e b he => rfl
      | unicode n' digits' hn' => exact if_neg (h n rfl)

/-- The replacement character stands for half a pair. -/
theorem encodeScalar_loneValue {n : ℕ} (h : IsHigh n ∨ IsLow n) :
    encodeScalar (loneValue n) = replacement := by
  rw [loneValue, if_pos h]
  decide

theorem codeMeaning_lone {n : ℕ} {digits : Bytes} (hn : IsHex4 n digits) (hhigh : IsHigh n)
    (h : ∀ next ∈ rest.head?, Item.escape next = none) :
    codeMeaning (.unicode n digits hn :: rest) = replacement ++ codeMeaning rest := by
  rw [← encodeScalar_loneValue (.inl hhigh)]
  cases rest with
  | nil => rw [codeMeaning, codeMeaning, List.append_nil]; rfl
  | cons next rest =>
    cases next with
    | char c hc => rfl
    | short e b he => rfl
    | unicode n' digits' hn' => cases h _ rfl

theorem codeMeaning_pair {n n' : ℕ} {digits digits' : Bytes} (hn : IsHex4 n digits)
    (hn' : IsHex4 n' digits') (hhigh : IsHigh n) (hlow : IsLow n') :
    codeMeaning (.unicode n digits hn :: .unicode n' digits' hn' :: rest) =
      encodeScalar (pairValue n n') ++ codeMeaning rest :=
  (if_pos hhigh).trans (if_pos hlow)

theorem codeMeaning_broken {n n' : ℕ} {digits digits' : Bytes} (hn : IsHex4 n digits)
    (hn' : IsHex4 n' digits') (hhigh : IsHigh n) (hlow : ¬ IsLow n') :
    codeMeaning (.unicode n digits hn :: .unicode n' digits' hn' :: rest) =
      replacement ++ (replacement ++ (digits'.tail ++ codeMeaning rest)) :=
  (if_pos hhigh).trans (if_neg hlow)

theorem utf16Meaning_high {n : ℕ} {digits : Bytes} (hn : IsHex4 n digits) (hhigh : IsHigh n)
    (h : ∀ next ∈ rest.head?, ∀ n' ∈ Item.escape next, ¬ IsLow n') :
    utf16Meaning (.unicode n digits hn :: rest) = replacement ++ utf16Meaning rest := by
  rw [utf16Meaning_lone hn, encodeScalar_loneValue (.inl hhigh)]
  intro _ low hmem hlow
  obtain ⟨digits', hn', rest', rfl⟩ := isLow_of_mem_head hmem hlow
  exact h _ rfl low rfl hlow

end Meaning

/-! ## Well-paired sequences -/

/-- No escape of a first half is followed by an escape that is no second half. -/
def WellPaired (items : List Item) : Prop :=
  items.IsChain Item.Follows

/-- On these the code reads UTF-16. -/
theorem codeMeaning_of_wellPaired {items : List Item} (h : WellPaired items) :
    codeMeaning items = utf16Meaning items := by
  induction items using items_induction with
  | nil => rfl
  | cons item rest hescape ih =>
    rw [codeMeaning_cons hescape, utf16Meaning_cons hescape, ih h.tail]
  | lone n digits hn rest hhigh hnext ih =>
    rw [codeMeaning_lone hn hhigh hnext, utf16Meaning_high hn hhigh, ih h.tail]
    intro next hmem n' hn'
    rw [hnext next hmem] at hn'
    cases hn'
  | pair n digits hn n' digits' hn' rest hhigh hlow ih =>
    rw [utf16Meaning_pair hn hn' hhigh hlow, codeMeaning_pair hn hn' hhigh hlow, ih h.tail.tail]
  | broken n digits hn n' digits' hn' rest hhigh hlow ih =>
    exact absurd (List.isChain_cons_cons.mp h |>.1 n rfl n' rfl hhigh) hlow

theorem length_encodeScalar_le {n : ℕ} (h : n < 65536) : (encodeScalar n).length ≤ 3 := by
  rw [encodeScalar]
  split_ifs <;> simp
  omega

/-- An escape adds at most three bytes. -/
theorem length_utf16Meaning_le {n : ℕ} {digits : Bytes} (hn : IsHex4 n digits) (rest : List Item) :
    (utf16Meaning (.unicode n digits hn :: rest)).length ≤ 3 + (utf16Meaning rest).length := by
  have hlone : (encodeScalar (loneValue n)).length ≤ 3 := by
    refine length_encodeScalar_le ?_
    have := hn.lt
    rw [loneValue]
    split <;> omega
  by_cases hpair : IsHigh n ∧ ∃ low ∈ (rest.flatMap Item.units).head?, IsLow low
  · obtain ⟨hhigh, low, hmem, hlow⟩ := hpair
    obtain ⟨digits', hn', rest, rfl⟩ := isLow_of_mem_head hmem hlow
    have hnot : ∀ k ∈ Item.escape (.unicode low digits' hn'), ¬ IsHigh k := by
      intro k hk hhigh'
      obtain rfl := Option.some.inj hk
      exact absurd hhigh'.2 (not_lt.mpr hlow.1)
    rw [utf16Meaning_pair hn hn' hhigh hlow, utf16Meaning_cons hnot, Item.alone,
      encodeScalar_loneValue (.inr hlow)]
    have hfour : (encodeScalar (pairValue n low)).length ≤ 4 := by
      rw [encodeScalar]
      split_ifs <;> simp
    have hreplacement : replacement.length = 3 := rfl
    simp only [List.length_append]
    omega
  · rw [utf16Meaning_lone hn fun hhigh low hmem hlow => hpair ⟨hhigh, low, hmem, hlow⟩,
      List.length_append]
    omega

/-- Elsewhere it writes more. -/
theorem length_utf16Meaning (items : List Item) :
    (utf16Meaning items).length ≤ (codeMeaning items).length ∧
      (¬ WellPaired items → (utf16Meaning items).length < (codeMeaning items).length) := by
  have hreplacement : replacement.length = 3 := rfl
  induction items using items_induction with
  | nil => exact ⟨le_rfl, fun h => absurd .nil h⟩
  | cons item rest hescape ih =>
    rw [codeMeaning_cons hescape, utf16Meaning_cons hescape, List.length_append, List.length_append]
    refine ⟨Nat.add_le_add_left ih.1 _, fun h => Nat.add_lt_add_left (ih.2 fun hrest => h ?_) _⟩
    exact hrest.cons fun next _ n hn _ _ hhigh => absurd hhigh (hescape n hn)
  | lone n digits hn rest hhigh hnext ih =>
    have hnone : ∀ next ∈ rest.head?, ∀ n' ∈ Item.escape next, ¬ IsLow n' := by
      intro next hmem n' hn'
      rw [hnext next hmem] at hn'
      cases hn'
    rw [codeMeaning_lone hn hhigh hnext, utf16Meaning_high hn hhigh hnone, List.length_append,
      List.length_append]
    refine ⟨Nat.add_le_add_left ih.1 _, fun h => Nat.add_lt_add_left (ih.2 fun hrest => h ?_) _⟩
    refine hrest.cons fun next hmem _ _ n' hn' _ => ?_
    rw [hnext next hmem] at hn'
    cases hn'
  | pair n digits hn n' digits' hn' rest hhigh hlow ih =>
    rw [utf16Meaning_pair hn hn' hhigh hlow, codeMeaning_pair hn hn' hhigh hlow, List.length_append,
      List.length_append]
    refine ⟨Nat.add_le_add_left ih.1 _, fun h => Nat.add_lt_add_left (ih.2 fun hrest => h ?_) _⟩
    refine (hrest.cons fun next hmem k hk _ _ hhigh' => ?_).cons fun next hmem k hk k' hk' _ => ?_
    · -- a second half is no first half
      obtain rfl := Option.some.inj hk
      exact absurd hhigh'.2 (not_lt.mpr hlow.1)
    · obtain rfl := Option.some.inj hmem
      obtain rfl := Option.some.inj hk'
      exact hlow
  | broken n digits hn n' digits' hn' rest hhigh hlow ih =>
    have hdigits : digits'.tail.length = 3 := by rw [List.length_tail, hn'.length]
    have hnext := length_utf16Meaning_le hn' rest
    have hnone : ∀ next ∈ (Item.unicode n' digits' hn' :: rest).head?, ∀ k ∈ Item.escape next,
        ¬ IsLow k := by
      intro next hmem k hk
      obtain rfl := Option.some.inj hmem
      obtain rfl := Option.some.inj hk
      exact hlow
    have hlt : (utf16Meaning (.unicode n digits hn :: .unicode n' digits' hn' :: rest)).length <
        (codeMeaning (.unicode n digits hn :: .unicode n' digits' hn' :: rest)).length := by
      rw [utf16Meaning_high hn hhigh hnone, codeMeaning_broken hn hn' hhigh hlow]
      simp only [List.length_append]
      omega
    exact ⟨hlt.le, fun _ => hlt⟩

/-- The two meanings agree if and only if the sequence is well paired. -/
theorem codeMeaning_eq_iff (items : List Item) :
    codeMeaning items = utf16Meaning items ↔ WellPaired items := by
  refine ⟨fun h => ?_, codeMeaning_of_wellPaired⟩
  by_contra hnot
  have hlt := (length_utf16Meaning items).2 hnot
  rw [h] at hlt
  exact lt_irrefl _ hlt

/-! ## Decoding -/

/-- A hexadecimal digit stands for itself in a text. -/
theorem IsHex4.plain {n : ℕ} {digits : Bytes} (h : IsHex4 n digits) :
    ∀ b ∈ digits, b ≠ 34 ∧ b ≠ 92 := by
  have hdigit {b : UInt8} {k : ℕ} (hb : hexDigit b = some k) : b ≠ 34 ∧ b ≠ 92 := by
    constructor
    · rintro rfl
      cases hb
    · rintro rfl
      cases hb
  obtain ⟨h1, h2, h3, h4⟩ := h
  simp only [List.forall_mem_cons, List.not_mem_nil, false_implies, implies_true, and_true]
  exact ⟨hdigit h1, hdigit h2, hdigit h3, hdigit h4⟩

section Decode

variable {data rest digits : Bytes} {i n : ℕ}

/-- The escape of half a pair, where no other escape with digits follows. -/
theorem decodeHexaUnicode_lone (hn : IsHex4 n digits) (h : data.drop i = digits ++ rest)
    (hhalf : IsHigh n ∧ rest.take 2 ≠ [92, 117] ∨ IsLow n) :
    decodeHexaUnicode u data i = (replacement, i + 3) := by
  have hlength := length_of_drop h (by simp [← List.length_pos_iff, hn.length])
  rw [List.length_append, hn.length] at hlength
  have hrange : 0xD800 ≤ n ∧ n < 0xE000 := by
    rcases hhalf with ⟨⟨hlow, hhigh⟩, -⟩ | ⟨hlow, hhigh⟩ <;> omega
  rw [decodeHexaUnicode, if_neg (by omega)]
  simp only [take_of_append h hn.length, readHex_of_isHex4 hn,
    drop_of_append h (by rw [hn.length] : i + digits.length = i + 4)]
  rw [if_neg (by omega), if_neg (by omega)]
  rcases hhalf with ⟨hhigh, hrest⟩ | hlow
  · obtain ⟨hleast, hmost⟩ := hhigh
    rw [if_pos ⟨hleast, hmost⟩, if_pos (.inl hrest)]
  · have hnot : ¬ (0xD800 ≤ n ∧ n < 0xDC00) := fun hhigh => absurd hhigh.2 (not_lt.mpr hlow.1)
    rw [if_neg hnot, if_pos (by omega)]

/-- The escape of a first half with one behind it that is no second half. -/
theorem decodeHexaUnicode_broken {n' : ℕ} {digits' : Bytes} (hn : IsHex4 n digits)
    (hn' : IsHex4 n' digits') (hhigh : IsHigh n) (hlow : ¬ IsLow n')
    (h : data.drop i = digits ++ 92 :: 117 :: (digits' ++ rest)) :
    decodeHexaUnicode u data i = (replacement ++ replacement, i + 6) := by
  have hlength := length_of_drop h (by simp)
  simp only [List.length_append, List.length_cons, hn.length, hn'.length] at hlength
  have h4 : data.drop (i + 4) = [92, 117] ++ (digits' ++ rest) :=
    drop_of_append h (by rw [hn.length])
  have h6 : data.drop (i + 6) = digits' ++ rest := drop_of_append h4 rfl
  obtain ⟨hleast, hmost⟩ := hhigh
  have hshort : ¬ ((data.drop (i + 4)).take 2 ≠ [92, 117] ∨ data.length < i + 10) := by
    rintro (h | h)
    · exact h (take_of_append h4 rfl)
    · omega
  have hlow' : ¬ (0xDC00 ≤ n' ∧ n' ≤ 0xDFFF) := fun h => hlow ⟨h.1, by omega⟩
  rw [decodeHexaUnicode, if_neg (by omega)]
  simp only [take_of_append h hn.length, readHex_of_isHex4 hn, take_of_append h6 hn'.length,
    readHex_of_isHex4 hn']
  rw [if_neg (by omega), if_neg (by omega), if_pos ⟨hleast, hmost⟩, if_neg hshort, if_pos hlow']

/-- Bytes that stand for themselves. -/
theorem decodeFrom_append_plain {bs : Bytes} {limit : ℕ} (fuel : ℕ)
    (hbs : ∀ b ∈ bs, b ≠ 34 ∧ b ≠ 92) (h : data.drop i = bs ++ rest) (hlimit : i + bs.length ≤ limit) :
    decodeFrom u data limit (fuel + bs.length) i =
      (bs ++ ·) <$> decodeFrom u data limit fuel (i + bs.length) := by
  induction bs generalizing i with
  | nil => cases decodeFrom u data limit fuel i <;> rfl
  | cons b bs ih =>
    obtain ⟨hb, hbs⟩ := List.forall_mem_cons.mp hbs
    rw [List.length_cons] at hlimit ⊢
    rw [← Nat.add_assoc, decodeFrom_plain _ hb h (by omega),
      ih hbs (drop_of_cons h) (by omega), ← Nat.add_assoc, Nat.add_right_comm i]
    cases decodeFrom u data limit fuel (i + bs.length + 1) <;> rfl

end Decode

/-- What follows an item without digits is no escape with digits. -/
theorem take_two_ne {items : List Item} {after : Bytes}
    (h : ∀ next ∈ items.head?, Item.escape next = none) (hafter : after.head? ≠ some 92) :
    (itemsText items ++ after).take 2 ≠ [92, 117] := by
  cases items with
  | nil =>
    intro heq
    cases after with
    | nil => cases heq
    | cons b after => exact hafter (congrArg some (List.cons.inj heq).1)
  | cons item items =>
    rw [itemsText, List.flatMap_cons, List.append_assoc]
    cases item with
    | char c hc =>
      have hplain := plain_utf8EncodeChar hc.1 hc.2
      intro heq
      obtain ⟨b, bs, hcons⟩ := List.exists_cons_of_ne_nil (String.utf8EncodeChar_ne_nil (c := c))
      rw [Item.text, hcons] at heq
      exact (hplain b (hcons ▸ List.mem_cons_self)).2 (List.cons.inj heq).1
    | short e b he =>
      intro heq
      exact (shortEscapes_cases he).1 (List.cons.inj (List.cons.inj heq).2).1
    | unicode n digits hn => cases h _ rfl

section Items

variable {items : List Item} {data after : Bytes} {i limit fuel : ℕ}

/-- Where the items go on behind an escape with digits. -/
theorem drop_of_unicode {n : ℕ} {digits rest : Bytes} (hn : IsHex4 n digits)
    (h : data.drop i = 92 :: 117 :: (digits ++ rest)) :
    data.drop (i + 2) = digits ++ rest ∧ data.drop (i + 6) = rest :=
  ⟨drop_of_append (t := [92, 117]) h rfl,
    drop_of_append (t := 92 :: 117 :: digits) h (by simp [hn.length])⟩

theorem itemsText_unicode {n : ℕ} {digits : Bytes} (hn : IsHex4 n digits) (items : List Item) :
    itemsText (.unicode n digits hn :: items) = 92 :: 117 :: (digits ++ itemsText items) := rfl

/-- The decoder reads a sequence of items as the code means it. -/
theorem decodeFrom_items (hdrop : data.drop i = itemsText items ++ after)
    (hafter : after.head? ≠ some 92) (hfuel : (itemsText items).length < fuel)
    (hlimit : limit = i + (itemsText items).length) :
    decodeFrom u data limit fuel i = .ok (codeMeaning items) := by
  induction items using items_induction generalizing i fuel with
  | nil =>
    obtain ⟨fuel, rfl⟩ : ∃ k, fuel = k + 1 := ⟨fuel - 1, by omega⟩
    exact if_pos hlimit.le
  | cons item rest hescape ih =>
    rw [codeMeaning_cons hescape]
    cases item with
    | char c hc =>
      have htext : itemsText (.char c hc :: rest) = String.utf8EncodeChar c ++ itemsText rest := rfl
      rw [htext, List.append_assoc] at hdrop
      rw [htext, List.length_append] at hfuel hlimit
      obtain ⟨fuel, rfl⟩ : ∃ k, fuel = k + (String.utf8EncodeChar c).length :=
        ⟨fuel - (String.utf8EncodeChar c).length, by omega⟩
      rw [decodeFrom_append_plain _ (plain_utf8EncodeChar hc.1 hc.2) hdrop (by omega),
        ih (drop_of_append hdrop rfl) (by omega) (by omega)]
      rfl
    | short e b he =>
      have htext : itemsText (.short e b he :: rest) = 92 :: e :: itemsText rest := rfl
      rw [htext] at hdrop hfuel hlimit
      simp only [List.length_cons] at hfuel hlimit
      obtain ⟨fuel, rfl⟩ : ∃ k, fuel = k + 1 := ⟨fuel - 1, by omega⟩
      have hrest : data.drop (i + 2) = itemsText rest ++ after := drop_of_cons (drop_of_cons hdrop)
      rw [decodeFrom_short _ he hdrop (by omega), ih hrest (by omega) (by omega)]
      rfl
    | unicode n digits hn =>
      rw [itemsText_unicode] at hdrop hfuel hlimit
      rw [List.cons_append, List.cons_append, List.append_assoc] at hdrop
      simp only [List.length_cons, List.length_append, hn.length] at hfuel hlimit
      obtain ⟨fuel, rfl⟩ : ∃ k, fuel = k + 1 := ⟨fuel - 1, by omega⟩
      obtain ⟨hdigits, hrest⟩ := drop_of_unicode hn hdrop
      have hchars : decodeHexaUnicode u data (i + 2) = (encodeScalar (loneValue n), i + 2 + 3) := by
        by_cases hlow : IsLow n
        · rw [decodeHexaUnicode_lone hn hdigits (.inr hlow), encodeScalar_loneValue (.inr hlow)]
        · have hrange : n < 0xD800 ∨ 0xE000 ≤ n := by
            have hhigh := hescape n rfl
            rw [IsHigh] at hhigh
            rw [IsLow] at hlow
            omega
          rw [decodeHexaUnicode_scalar hn hrange hdigits, loneValue_of_lt hrange]
      rw [decodeFrom_unicode _ hdrop (by omega) hchars, ih hrest (by omega) (by omega)]
      rfl
  | lone n digits hn rest hhigh hnext ih =>
    rw [itemsText_unicode] at hdrop hfuel hlimit
    rw [List.cons_append, List.cons_append, List.append_assoc] at hdrop
    simp only [List.length_cons, List.length_append, hn.length] at hfuel hlimit
    obtain ⟨fuel, rfl⟩ : ∃ k, fuel = k + 1 := ⟨fuel - 1, by omega⟩
    obtain ⟨hdigits, hrest⟩ := drop_of_unicode hn hdrop
    rw [decodeFrom_unicode _ hdrop (by omega)
      (decodeHexaUnicode_lone hn hdigits (.inl ⟨hhigh, take_two_ne hnext hafter⟩)),
      ih hrest (by omega) (by omega), codeMeaning_lone hn hhigh hnext]
    rfl
  | pair n digits hn n' digits' hn' rest hhigh hlow ih =>
    rw [itemsText_unicode, itemsText_unicode] at hdrop hfuel hlimit
    simp only [List.cons_append, List.append_assoc] at hdrop
    simp only [List.length_cons, List.length_append, hn.length, hn'.length] at hfuel hlimit
    obtain ⟨fuel, rfl⟩ : ∃ k, fuel = k + 1 := ⟨fuel - 1, by omega⟩
    obtain ⟨hdigits, hnext⟩ := drop_of_unicode hn hdrop
    obtain ⟨-, hrest⟩ := drop_of_unicode hn' hnext
    rw [decodeFrom_unicode _ hdrop (by omega)
      (decodeHexaUnicode_pair hn hn' hhigh hlow hdigits), ih hrest (by omega) (by omega),
      codeMeaning_pair hn hn' hhigh hlow]
    rfl
  | broken n digits hn n' digits' hn' rest hhigh hlow ih =>
    rw [itemsText_unicode, itemsText_unicode] at hdrop hfuel hlimit
    simp only [List.cons_append, List.append_assoc] at hdrop
    simp only [List.length_cons, List.length_append, hn.length, hn'.length] at hfuel hlimit
    obtain ⟨fuel, rfl⟩ : ∃ k, fuel = k + 3 + 1 := ⟨fuel - 4, by omega⟩
    obtain ⟨hdigits, hnext⟩ := drop_of_unicode hn hdrop
    obtain ⟨hdigits', hrest⟩ := drop_of_unicode hn' hnext
    -- the second escape is left behind its first digit
    obtain ⟨d, ds, rfl⟩ := List.exists_cons_of_ne_nil
      (List.length_pos_iff.mp (by rw [hn'.length]; decide) : digits' ≠ [])
    have hds : ds.length = 3 := Nat.succ.inj hn'.length
    have hplain := fun b hb => hn'.plain b (List.mem_cons_of_mem d hb)
    have htail : data.drop (i + 2 + 6 + 1) = ds ++ (itemsText rest ++ after) :=
      drop_of_cons hdigits'
    rw [decodeFrom_unicode _ hdrop (by omega)
      (decodeHexaUnicode_broken hn hn' hhigh hlow hdigits), ← hds,
      decodeFrom_append_plain _ hplain htail (by omega), hds,
      ih hrest (by omega) (by omega), codeMeaning_broken hn hn' hhigh hlow]
    simp [Functor.map, Except.map]

end Items

/-- A sequence of items, with any text before it and any that does not go on with an escape behind
it, is decoded as UTF-16 is read if and only if no escape of a first half is followed by an escape
that is no second half. -/
theorem decodeJSONString_items_iff (u : Uninit) (before : Bytes) (items : List Item) {after : Bytes}
    (hafter : after.head? ≠ some 92) :
    decodeJSONString u (before ++ (itemsText items ++ after)) before.length (itemsText items).length =
      .ok (utf16Meaning items) ↔ WellPaired items := by
  have hdrop : (before ++ (itemsText items ++ after)).drop before.length = itemsText items ++ after :=
    List.drop_left
  have hlength : (before ++ (itemsText items ++ after)).length =
      before.length + ((itemsText items).length + after.length) := by
    rw [List.length_append, List.length_append]
  rw [← codeMeaning_eq_iff, decodeJSONString, if_pos (by omega),
    decodeFrom_items hdrop hafter (by omega) rfl, Except.ok.injEq]

/-- A pair in a string. -/
theorem decodeJSONString_items_pair :
    decodeJSONString .zero (ascii "\"\\uD83D\\uDE00\"") 1 12 = .ok [0xF0, 0x9F, 0x98, 0x80] := by
  have hhigh : IsHex4 (4096 * 13 + 256 * 8 + 16 * 3 + 13) [68, 56, 51, 68] := .intro rfl rfl rfl rfl
  have hlow : IsHex4 (4096 * 13 + 256 * 14 + 16 * 0 + 0) [68, 69, 48, 48] := .intro rfl rfl rfl rfl
  have hpaired : WellPaired [.unicode _ _ hhigh, .unicode _ _ hlow] := by
    refine List.IsChain.cons_cons ?_ (.singleton _)
    intro n _ n' hn' _
    obtain rfl := Option.some.inj hn'
    decide
  exact (decodeJSONString_items_iff _ [34] _ (by decide : ([34] : Bytes).head? ≠ some 92)).mpr hpaired

/-- Behind a first half, the letter of another escape is lost and three of its digits are read. -/
theorem not_decodeJSONString_items :
    ¬ ∀ (u : Uninit) (items : List Item),
      decodeJSONString u (itemsText items) 0 (itemsText items).length =
        .ok (utf16Meaning items) := by
  intro h
  have hhigh : IsHex4 (4096 * 13 + 256 * 8 + 16 * 0 + 0) [68, 56, 48, 48] := .intro rfl rfl rfl rfl
  have hletter : IsHex4 (4096 * 0 + 256 * 0 + 16 * 4 + 1) [48, 48, 52, 49] := .intro rfl rfl rfl rfl
  have hread := h .zero [.unicode _ _ hhigh, .unicode _ _ hletter]
  have hcode : decodeJSONString .zero (ascii "\\uD800\\u0041") 0 12 =
      .ok (replacement ++ (replacement ++ ascii "041")) := by
    decide +kernel
  have hsame : decodeJSONString .zero (ascii "\\uD800\\u0041") 0 12 =
      .ok (replacement ++ [65]) := hread
  rw [hcode] at hsame
  exact absurd (Except.ok.inj hsame) (by decide)

end VplJail.Json
