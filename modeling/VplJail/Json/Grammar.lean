import VplJail.Util.Utf8

/-!
# The JSON grammar

RFC 8259 as a relation between values and texts. The strings are of any type with a relation to the
texts between their quotation marks; `CharsText` is that of the RFC, for sequences of Unicode scalar
values with any choice of escapes.
-/

namespace VplJail.Json

/-- A JSON value with strings of type `σ`. A number is its literal. -/
inductive Value (σ : Type) where
  | null
  | bool (b : Bool)
  | number (literal : Bytes)
  | string (s : σ)
  | array (elements : List (Value σ))
  | object (members : List (σ × Value σ))

/-- Insignificant whitespace. -/
def IsWhitespace (text : Bytes) : Prop :=
  ∀ b ∈ text, b = 32 ∨ b = 9 ∨ b = 10 ∨ b = 13

/-! ## Numbers -/

/-- One decimal digit or more. -/
def IsDigits (text : Bytes) : Prop :=
  text ≠ [] ∧ ∀ b ∈ text, 48 ≤ b ∧ b ≤ 57

/-- A number: an optional minus sign, an integer without leading zeros, and an optional fraction and
exponent. -/
inductive IsNumber : Bytes → Prop
  | intro {sign int fraction exponent : Bytes} (hsign : sign = [] ∨ sign = [45])
      (hint : IsDigits int ∧ (int.head? = some 48 → int = [48]))
      (hfraction : fraction = [] ∨ ∃ digits, IsDigits digits ∧ fraction = 46 :: digits)
      (hexponent : exponent = [] ∨ ∃ e sign digits, (e = 69 ∨ e = 101) ∧
        (sign = [] ∨ sign = [43] ∨ sign = [45]) ∧ IsDigits digits ∧
        exponent = e :: (sign ++ digits)) :
      IsNumber (sign ++ int ++ fraction ++ exponent)

/-- A number starts with a minus sign or a digit. -/
theorem IsNumber.head {literal : Bytes} (h : IsNumber literal) :
    ∃ b rest, literal = b :: rest ∧ (b = 45 ∨ (48 ≤ b ∧ b ≤ 57)) := by
  obtain ⟨hsign, ⟨⟨hne, hdigits⟩, -⟩, -, -⟩ := h
  rename_i sign int fraction exponent
  rcases hsign with rfl | rfl
  · obtain ⟨b, rest, rfl⟩ := List.exists_cons_of_ne_nil hne
    exact ⟨b, _, rfl, .inr (hdigits b List.mem_cons_self)⟩
  · exact ⟨45, _, rfl, .inl rfl⟩

/-- The bytes of a number. -/
theorem IsNumber.mem {literal : Bytes} (h : IsNumber literal) {b : UInt8} (hb : b ∈ literal) :
    b = 43 ∨ b = 45 ∨ b = 46 ∨ b = 69 ∨ b = 101 ∨ (48 ≤ b ∧ b ≤ 57) := by
  obtain ⟨hsign, ⟨⟨-, hint⟩, -⟩, hfraction, hexponent⟩ := h
  rcases List.mem_append.mp hb with hb | hb
  · rcases List.mem_append.mp hb with hb | hb
    · rcases List.mem_append.mp hb with hb | hb
      · rcases hsign with rfl | rfl
        · cases hb
        · exact .inr (.inl (List.mem_singleton.mp hb))
      · simp [hint b hb]
    · rcases hfraction with rfl | ⟨digits, hdigits, rfl⟩
      · cases hb
      · rcases List.mem_cons.mp hb with rfl | hb
        · simp
        · simp [hdigits.2 b hb]
  · rcases hexponent with rfl | ⟨e, sign, digits, he, hsign, hdigits, rfl⟩
    · cases hb
    · rcases List.mem_cons.mp hb with rfl | hb
      · rcases he with rfl | rfl <;> simp
      · rcases List.mem_append.mp hb with hb | hb
        · rcases hsign with rfl | rfl | rfl
          · cases hb
          · simp [List.mem_singleton.mp hb]
          · simp [List.mem_singleton.mp hb]
        · simp [hdigits.2 b hb]

/-! ## Strings -/

/-- The value of a hexadecimal digit. -/
def hexDigit (b : UInt8) : Option ℕ :=
  if 48 ≤ b ∧ b ≤ 57 then some (b.toNat - 48)
  else if 65 ≤ b ∧ b ≤ 70 then some (b.toNat - 55)
  else if 97 ≤ b ∧ b ≤ 102 then some (b.toNat - 87)
  else none

/-- Four hexadecimal digits of a number. -/
inductive IsHex4 : ℕ → Bytes → Prop
  | intro {d1 d2 d3 d4 : UInt8} {n1 n2 n3 n4 : ℕ} (h1 : hexDigit d1 = some n1)
      (h2 : hexDigit d2 = some n2) (h3 : hexDigit d3 = some n3) (h4 : hexDigit d4 = some n4) :
      IsHex4 (4096 * n1 + 256 * n2 + 16 * n3 + n4) [d1, d2, d3, d4]

/-- The short escapes: what stands behind the backslash, and what it means. -/
def shortEscapes : List (UInt8 × UInt8) :=
  [(34, 34), (92, 92), (47, 47), (98, 8), (102, 12), (110, 10), (114, 13), (116, 9)]

/-- The texts of a string between its quotation marks. -/
inductive CharsText : List Char → Bytes → Prop
  | nil : CharsText [] []
  | unescaped {c : Char} {cs : List Char} {text : Bytes} (hc : 32 ≤ c.toNat ∧ c ≠ '"' ∧ c ≠ '\\')
      (h : CharsText cs text) : CharsText (c :: cs) (String.utf8EncodeChar c ++ text)
  | short {c : Char} {e b : UInt8} {cs : List Char} {text : Bytes} (he : (e, b) ∈ shortEscapes)
      (hc : c.toNat = b.toNat) (h : CharsText cs text) : CharsText (c :: cs) (92 :: e :: text)
  | unicode {c : Char} {digits : Bytes} {cs : List Char} {text : Bytes} (hc : IsHex4 c.toNat digits)
      (h : CharsText cs text) : CharsText (c :: cs) (92 :: 117 :: (digits ++ text))
  | pair {c : Char} {high low : ℕ} {digits digits' : Bytes} {cs : List Char} {text : Bytes}
      (hhigh : IsHex4 high digits) (hlow : IsHex4 low digits')
      (hrange : 0xD800 ≤ high ∧ high < 0xDC00) (hrange' : 0xDC00 ≤ low ∧ low < 0xE000)
      (hc : c.toNat = 0x10000 + 0x400 * (high - 0xD800) + (low - 0xDC00)) (h : CharsText cs text) :
      CharsText (c :: cs) (92 :: 117 :: (digits ++ 92 :: 117 :: (digits' ++ text)))

/-! ## Values -/

section

variable {σ : Type} (lit : σ → Bytes → Prop)

mutual

/-- The texts of a value, without whitespace around it. -/
inductive Text : Value σ → Bytes → Prop
  | null : Text .null (ascii "null")
  | true : Text (.bool true) (ascii "true")
  | false : Text (.bool false) (ascii "false")
  | number {literal : Bytes} (h : IsNumber literal) : Text (.number literal) literal
  | string {s : σ} {text : Bytes} (h : lit s text) : Text (.string s) (34 :: (text ++ [34]))
  | array {elements : List (Value σ)} {text : Bytes} (h : ElementsText elements text) :
      Text (.array elements) (91 :: (text ++ [93]))
  | object {members : List (σ × Value σ)} {text : Bytes} (h : MembersText members text) :
      Text (.object members) (123 :: (text ++ [125]))

/-- The texts between the brackets of an array. -/
inductive ElementsText : List (Value σ) → Bytes → Prop
  | none {ws : Bytes} (hws : IsWhitespace ws) : ElementsText [] ws
  | one {ws text ws' : Bytes} {v : Value σ} (hws : IsWhitespace ws) (h : Text v text)
      (hws' : IsWhitespace ws') : ElementsText [v] (ws ++ (text ++ ws'))
  | more {ws text ws' rest : Bytes} {v v' : Value σ} {vs : List (Value σ)} (hws : IsWhitespace ws)
      (h : Text v text) (hws' : IsWhitespace ws') (hrest : ElementsText (v' :: vs) rest) :
      ElementsText (v :: v' :: vs) (ws ++ (text ++ (ws' ++ 44 :: rest)))

/-- The texts between the braces of an object. -/
inductive MembersText : List (σ × Value σ) → Bytes → Prop
  | none {ws : Bytes} (hws : IsWhitespace ws) : MembersText [] ws
  | one {ws name ws1 ws2 text ws' : Bytes} {k : σ} {v : Value σ} (hws : IsWhitespace ws)
      (hk : lit k name) (hws1 : IsWhitespace ws1) (hws2 : IsWhitespace ws2) (h : Text v text)
      (hws' : IsWhitespace ws') :
      MembersText [(k, v)]
        (ws ++ 34 :: (name ++ 34 :: (ws1 ++ 58 :: (ws2 ++ (text ++ ws')))))
  | more {ws name ws1 ws2 text ws' rest : Bytes} {k : σ} {v : Value σ} {m : σ × Value σ}
      {ms : List (σ × Value σ)} (hws : IsWhitespace ws) (hk : lit k name)
      (hws1 : IsWhitespace ws1) (hws2 : IsWhitespace ws2) (h : Text v text)
      (hws' : IsWhitespace ws') (hrest : MembersText (m :: ms) rest) :
      MembersText ((k, v) :: m :: ms)
        (ws ++ 34 :: (name ++ 34 :: (ws1 ++ 58 :: (ws2 ++ (text ++ (ws' ++ 44 :: rest))))))

end

/-- The texts of a value, with any whitespace around it. -/
inductive Document : Value σ → Bytes → Prop
  | intro {v : Value σ} {before text after : Bytes} (hbefore : IsWhitespace before)
      (h : Text lit v text) (hafter : IsWhitespace after) : Document v (before ++ (text ++ after))

end

/-- An object, an array or a string. -/
inductive Top {σ : Type} : Value σ → Prop
  | string (s : σ) : Top (.string s)
  | array (elements : List (Value σ)) : Top (.array elements)
  | object (members : List (σ × Value σ)) : Top (.object members)

end VplJail.Json
