import VplJail.Common.Checked
import VplJail.Json.Unescaped
import VplJail.Rpc.Extents

/-!
# What the JSON parser reads

The parser with every access to the text checked. No check ever fails, the steps that the functions
are given suffice, and the nodes of a tree stand in the text one in the other.
-/

namespace VplJail.Json

open Rpc Rpc.ParseNode Util

variable {u : Uninit}

/-! ## The checked parser -/

/-- The loop of `ignoreWhiteSpaces`. -/
def skipWhiteSpaces (raw : Bytes) : ℕ → ℕ → Except Thrown ℕ
  | 0, _ => throw outOfFuel
  | fuel + 1, offset =>
      if offset < raw.length then do
        if isWhiteSpace (← byteAt raw offset) then skipWhiteSpaces raw fuel (offset + 1)
        else pure offset
      else pure offset

/-- `ignoreWhiteSpaces`, with every access checked. -/
def checkedIgnoreWhiteSpaces (raw : Bytes) (offset : ℕ) : Except Thrown ℕ := do
  let next ← skipWhiteSpaces raw (raw.length + 1) offset
  if raw.length ≤ next then throw (parseError "unexpected en of JSON") else pure next

/-- The scan of `processStringNode`. -/
def checkedScanString (raw : Bytes) : ℕ → ℕ → Except Thrown ℕ
  | 0, _ => throw outOfFuel
  | fuel + 1, offset =>
      if raw.length ≤ offset then throw (parseError "end of string not found")
      else do
        let c ← byteAt raw offset
        if c = 92 then
          if raw.length ≤ offset + 1 then throw (parseError "trailing backslash in string")
          else
            let c ← byteAt raw (offset + 1)
            if c = 117 ∧ offset + 1 + 4 < raw.length then
              checkedScanString raw fuel (offset + 1 + 4 + 1)
            else checkedScanString raw fuel (offset + 1 + 1)
        else if c = 34 then pure offset
        else checkedScanString raw fuel (offset + 1)

/-- `decodeHexaUnicodeToUTF8`, with every access checked. -/
def checkedDecodeHexaUnicode (u : Uninit) (data : Bytes) (i : ℕ) : Except Thrown (Bytes × ℕ) :=
  if data.length < i + 4 then pure (replacement, data.length - 1)
  else do
    let unicode := readHex (u i) (← substr data i 4)
    if unicode ≤ 0x7F then pure ([lowByte unicode], i + 3)
    else if unicode ≤ 0x7FF then
      pure ([lowByte (unicode / 64 % 32 + 0xC0), lowByte (unicode % 64 + 0x80)], i + 3)
    else if 0xD800 ≤ unicode ∧ unicode < 0xDC00 then
      let next ← substr data (i + 4) 2
      if next ≠ [92, 117] ∨ data.length < i + 10 then pure (replacement, i + 3)
      else
        let lowSu := readHex (u (i + 6)) (← substr data (i + 6) 4)
        if ¬ (0xDC00 ≤ lowSu ∧ lowSu ≤ 0xDFFF) then pure (replacement ++ replacement, i + 6)
        else
          let unicode := 1024 * (unicode % 1024) + lowSu % 1024 + 0x10000
          pure ([lowByte (unicode / 262144 % 8 + 0xF0), lowByte (unicode / 4096 % 64 + 0x80),
            lowByte (unicode / 64 % 64 + 0x80), lowByte (unicode % 64 + 0x80)], i + 6 + 3)
    else if 0xDC00 ≤ unicode ∧ unicode ≤ 0xDFFF then pure (replacement, i + 3)
    else
      pure ([lowByte (unicode / 4096 % 16 + 0xE0), lowByte (unicode / 64 % 64 + 0x80),
        lowByte (unicode % 64 + 0x80)], i + 3)

/-- The loop of `decodeJSONString`. -/
def checkedDecodeFrom (u : Uninit) (data : Bytes) (limit : ℕ) : ℕ → ℕ → Except Thrown Bytes
  | 0, _ => throw outOfFuel
  | fuel + 1, i =>
      if limit ≤ i then pure []
      else do
        let c ← byteAt data i
        if c = 92 then
          if limit ≤ i + 1 then pure []
          else
            let next ← byteAt data (i + 1)
            if next = 117 then
              let (chars, i) ← checkedDecodeHexaUnicode u data (i + 1 + 1)
              let rest ← checkedDecodeFrom u data limit fuel (i + 1)
              pure (chars ++ rest)
            else match shortEscapes.lookup next with
              | some b => do
                  let rest ← checkedDecodeFrom u data limit fuel (i + 1 + 1)
                  pure (b :: rest)
              | none => throw (.http badRequestCode "JSON coding error: bad escape sequence")
        else if c = 34 then pure []
        else
          let rest ← checkedDecodeFrom u data limit fuel (i + 1)
          pure (c :: rest)

/-- `decodeJSONString`, with every access checked. -/
def checkedDecodeJSONString (u : Uninit) (data : Bytes) (i len : ℕ) : Except Thrown Bytes :=
  let limit := if i + len ≤ data.length then i + len else data.length
  checkedDecodeFrom u data limit (data.length + 1) i

/-- `TreeNodeJSON::getString`, with every access checked. -/
def checkedGetString (u : Uninit) (raw : Bytes) (t : ParseNode) : Except Thrown Bytes :=
  if t.children ≠ [] then pure (ascii "Object/Array")
  else checkedDecodeJSONString u raw t.offset t.len

/-- The loop over a number in `processNode`. -/
def scanNumber (raw : Bytes) : ℕ → ℕ → Except Thrown ℕ
  | 0, _ => throw outOfFuel
  | fuel + 1, offset =>
      if offset < raw.length then do
        if isDelimiter (← byteAt raw offset) then pure offset
        else scanNumber raw fuel (offset + 1)
      else pure offset

mutual

/-- `processNode`, with every access checked. -/
def checkedProcessNode (u : Uninit) (raw : Bytes) : ℕ → ℕ → Except Thrown (ParseNode × ℕ)
  | 0, _ => throw outOfFuel
  | fuel + 1, offset => do
      let c ← byteAt raw offset
      if c = 123 then
        let (children, last) ← checkedProcessObject u raw fuel (offset + 1)
        pure (.mk (ascii "object") offset (last - offset) children, last + 1)
      else if c = 91 then
        let (children, last) ← checkedProcessArray u raw fuel (offset + 1)
        pure (.mk (ascii "array") offset (last - offset) children, last + 1)
      else if c = 34 then
        let last ← checkedScanString raw (raw.length + 1) (offset + 1)
        pure (.mk (ascii "string") (offset + 1) (last - (offset + 1)) [], last + 1)
      else if c = 45 ∨ isDigit c then
        let next ← scanNumber raw (raw.length + 1) offset
        pure (.mk (ascii "number") offset (next - offset) [], next)
      else if (← substr raw offset 4) = ascii "true" then
        pure (.mk (ascii "boolean") offset 4 [], offset + 4)
      else if (← substr raw offset 5) = ascii "false" then
        pure (.mk (ascii "boolean") offset 5 [], offset + 5)
      else if (← substr raw offset 4) = ascii "null" then
        pure (.mk (ascii "null") offset 4 [], offset + 4)
      else throw (parseError "unexpected value")

/-- The loop of `processObjectNode`. -/
def checkedProcessObject (u : Uninit) (raw : Bytes) : ℕ → ℕ → Except Thrown (List ParseNode × ℕ)
  | 0, _ => throw outOfFuel
  | fuel + 1, offset =>
      if raw.length ≤ offset then throw (parseError "end of object not found")
      else do
        let offset ← checkedIgnoreWhiteSpaces raw offset
        let c ← byteAt raw offset
        if c = 125 then pure ([], offset)
        else if c = 34 then
          let (name, offset) ← checkedProcessNode u raw fuel offset
          let offset ← checkedIgnoreWhiteSpaces raw offset
          if (← byteAt raw offset) ≠ 58 then throw (parseError "expected ':' not found")
          else
            let offset ← checkedIgnoreWhiteSpaces raw (offset + 1)
            let (value, offset) ← checkedProcessNode u raw fuel offset
            let tag ← checkedGetString u raw name
            let offset ← checkedIgnoreWhiteSpaces raw offset
            let c ← byteAt raw offset
            if c = 44 then
              let (rest, last) ← checkedProcessObject u raw fuel (offset + 1)
              pure (value.setTag tag :: rest, last)
            else if c ≠ 125 then throw (parseError "Object bad format")
            else
              let (rest, last) ← checkedProcessObject u raw fuel offset
              pure (value.setTag tag :: rest, last)
        else throw (parseError ("unexpected char in object. Offset " ++ toString offset))

/-- The loop of `processArrayNode`. -/
def checkedProcessArray (u : Uninit) (raw : Bytes) : ℕ → ℕ → Except Thrown (List ParseNode × ℕ)
  | 0, _ => throw outOfFuel
  | fuel + 1, offset =>
      if raw.length ≤ offset then throw (parseError "end of array not found")
      else do
        let offset ← checkedIgnoreWhiteSpaces raw offset
        if (← byteAt raw offset) = 93 then pure ([], offset)
        else
          let (value, offset) ← checkedProcessNode u raw fuel offset
          let offset ← checkedIgnoreWhiteSpaces raw offset
          let c ← byteAt raw offset
          if c = 44 then
            let (rest, last) ← checkedProcessArray u raw fuel (offset + 1)
            pure (value :: rest, last)
          else if c ≠ 93 then throw (parseError "Array bad format")
          else
            let (rest, last) ← checkedProcessArray u raw fuel offset
            pure (value :: rest, last)

end

/-- The constructor of `JSON`. -/
def checkedParse (u : Uninit) (raw : Bytes) : Except Thrown ParseNode := do
  let offset ← checkedIgnoreWhiteSpaces raw 0
  let (root, _) ← checkedProcessNode u raw (fuelOf raw) offset
  pure root

/-! ## Strings and blanks -/

section Leaves

variable {raw : Bytes} {fuel offset : ℕ}

theorem skipWhiteSpaces_eq (h : raw.length - offset < fuel) :
    skipWhiteSpaces raw fuel offset =
      .ok (offset + ((raw.drop offset).takeWhile isWhiteSpace).length) := by
  induction fuel generalizing offset with
  | zero => exact absurd h (Nat.not_lt_zero _)
  | succ fuel ih =>
    rw [skipWhiteSpaces]
    by_cases hlt : offset < raw.length
    · have hdrop := List.drop_eq_getElem_cons hlt
      rw [if_pos hlt, byteAt_eq hlt, ok_bind, charAt_of_drop hdrop, hdrop]
      by_cases hblank : isWhiteSpace raw[offset] = true
      · rw [if_pos hblank, ih (by omega), List.takeWhile_cons_of_pos hblank, List.length_cons,
          Nat.add_assoc, Nat.add_comm 1]
      · rw [if_neg hblank, List.takeWhile_cons_of_neg hblank]
        rfl
    · rw [if_neg hlt, List.drop_eq_nil_of_le (by omega)]
      rfl

theorem scanNumber_eq (h : raw.length - offset < fuel) :
    scanNumber raw fuel offset =
      .ok (offset + ((raw.drop offset).takeWhile (!isDelimiter ·)).length) := by
  induction fuel generalizing offset with
  | zero => exact absurd h (Nat.not_lt_zero _)
  | succ fuel ih =>
    rw [scanNumber]
    by_cases hlt : offset < raw.length
    · have hdrop := List.drop_eq_getElem_cons hlt
      rw [if_pos hlt, byteAt_eq hlt, ok_bind, charAt_of_drop hdrop, hdrop]
      by_cases hdelimiter : isDelimiter raw[offset] = true
      · rw [if_pos hdelimiter, List.takeWhile_cons_of_neg (by simp [hdelimiter])]
        rfl
      · rw [if_neg hdelimiter, ih (by omega), List.takeWhile_cons_of_pos (by simp [hdelimiter]),
          List.length_cons, Nat.add_assoc, Nat.add_comm 1]
    · rw [if_neg hlt, List.drop_eq_nil_of_le (by omega)]
      rfl

/-- Blanks end within the text. -/
theorem ignoreWhiteSpaces_agrees (raw : Bytes) (offset : ℕ) :
    Agrees (fun next => offset ≤ next ∧ next < raw.length) (checkedIgnoreWhiteSpaces raw offset)
      (ignoreWhiteSpaces raw offset) := by
  rw [checkedIgnoreWhiteSpaces, skipWhiteSpaces_eq (by omega), ok_bind, ignoreWhiteSpaces]
  split
  · exact .http _ _
  · exact .ok ⟨Nat.le_add_right _ _, by omega⟩

/-- The scan of a string ends at a byte of the text. -/
theorem scanString_agrees (h : raw.length - offset < fuel) :
    Agrees (fun last => offset ≤ last ∧ last < raw.length) (checkedScanString raw fuel offset)
      (scanString raw fuel offset) := by
  induction fuel generalizing offset with
  | zero => exact absurd h (Nat.not_lt_zero _)
  | succ fuel ih =>
    have hlater {next : ℕ} (hnext : offset < next) (hfuel : raw.length - next < fuel) :
        Agrees (fun last => offset ≤ last ∧ last < raw.length) (checkedScanString raw fuel next)
          (scanString raw fuel next) :=
      (ih hfuel).imp fun _ hlast => ⟨hnext.le.trans hlast.1, hlast.2⟩
    rw [checkedScanString, scanString]
    by_cases hend : raw.length ≤ offset
    · rw [if_pos hend, if_pos hend]
      exact .http _ _
    rw [if_neg hend, if_neg hend, byteAt_eq (by omega), ok_bind]
    by_cases hbackslash : charAt raw offset = 92
    · rw [if_pos hbackslash, if_pos hbackslash]
      by_cases htrailing : raw.length ≤ offset + 1
      · rw [if_pos htrailing, if_pos htrailing]
        exact .http _ _
      rw [if_neg htrailing, if_neg htrailing, byteAt_eq (by omega), ok_bind]
      split
      · exact hlater (by omega) (by omega)
      · exact hlater (by omega) (by omega)
    rw [if_neg hbackslash, if_neg hbackslash]
    split
    · exact .ok ⟨le_rfl, by omega⟩
    · exact hlater (by omega) (by omega)

/-- An escape is read within the text. -/
theorem checkedDecodeHexaUnicode_eq (data : Bytes) (i : ℕ) :
    checkedDecodeHexaUnicode u data i = .ok (decodeHexaUnicode u data i) := by
  rw [checkedDecodeHexaUnicode, decodeHexaUnicode]
  by_cases hend : data.length < i + 4
  · rw [if_pos hend, if_pos hend]
    rfl
  rw [if_neg hend, if_neg hend, substr_eq _ (by omega), ok_bind]
  generalize readHex (u i) ((data.drop i).take 4) = unicode
  dsimp only
  by_cases hone : unicode ≤ 0x7F
  · rw [if_pos hone, if_pos hone]
    rfl
  rw [if_neg hone, if_neg hone]
  by_cases htwo : unicode ≤ 0x7FF
  · rw [if_pos htwo, if_pos htwo]
    rfl
  rw [if_neg htwo, if_neg htwo]
  by_cases hhigh : 0xD800 ≤ unicode ∧ unicode < 0xDC00
  · rw [if_pos hhigh, if_pos hhigh, substr_eq _ (by omega), ok_bind]
    by_cases hlone : (data.drop (i + 4)).take 2 ≠ [92, 117] ∨ data.length < i + 10
    · rw [if_pos hlone, if_pos hlone]
      rfl
    rw [if_neg hlone, if_neg hlone, substr_eq _ (by omega), ok_bind]
    split <;> rfl
  rw [if_neg hhigh, if_neg hhigh]
  split <;> rfl

/-- A text is decoded within its bounds. -/
theorem decodeFrom_agrees {limit i : ℕ} (hlimit : limit ≤ raw.length) (h : limit - i < fuel) :
    Agrees (fun _ => True) (checkedDecodeFrom u raw limit fuel i) (decodeFrom u raw limit fuel i) := by
  induction fuel generalizing i with
  | zero => exact absurd h (Nat.not_lt_zero _)
  | succ fuel ih =>
    rw [checkedDecodeFrom, decodeFrom]
    by_cases hend : limit ≤ i
    · rw [if_pos hend, if_pos hend]
      exact .ok trivial
    rw [if_neg hend, if_neg hend, byteAt_eq (by omega), ok_bind]
    by_cases hbackslash : charAt raw i = 92
    · rw [if_pos hbackslash, if_pos hbackslash]
      by_cases htrailing : limit ≤ i + 1
      · rw [if_pos htrailing, if_pos htrailing]
        exact .ok trivial
      rw [if_neg htrailing, if_neg htrailing, byteAt_eq (by omega), ok_bind]
      by_cases hescape : charAt raw (i + 1) = 117
      · obtain ⟨-, hnext⟩ := decodeHexaUnicode_spec (show i + 1 + 1 ≤ raw.length by omega)
        rw [if_pos hescape, if_pos hescape, checkedDecodeHexaUnicode_eq, ok_bind]
        generalize decodeHexaUnicode u raw (i + 1 + 1) = r at hnext ⊢
        obtain ⟨chars, j⟩ := r
        dsimp only at hnext ⊢
        exact (ih (by omega)).bind fun rest _ => .ok trivial
      · rw [if_neg hescape, if_neg hescape]
        cases shortEscapes.lookup (charAt raw (i + 1)) with
        | none => exact .http _ _
        | some b => exact (ih (by omega)).bind fun rest _ => .ok trivial
    rw [if_neg hbackslash, if_neg hbackslash]
    split
    · exact .ok trivial
    · exact (ih (by omega)).bind fun rest _ => .ok trivial

theorem getString_agrees (raw : Bytes) (t : ParseNode) :
    Agrees (fun _ => True) (checkedGetString u raw t) (getString u raw t) := by
  rw [checkedGetString, getString]
  split
  · exact .ok trivial
  · rw [checkedDecodeJSONString, decodeJSONString]
    apply decodeFrom_agrees
    · split <;> omega
    · split <;> omega

end Leaves

/-! ## The nodes -/

section Nodes

variable {raw : Bytes}

/-- A node that starts at an offset: the reading goes on behind it. -/
def IsNodeAt (raw : Bytes) (offset : ℕ) (r : ParseNode × ℕ) : Prop :=
  offset < r.2 ∧ r.2 ≤ raw.length ∧ Placed offset r.2 r.1

/-- Nodes from an offset on up to the closing bracket. -/
def IsRowFrom (raw : Bytes) (offset : ℕ) (r : List ParseNode × ℕ) : Prop :=
  offset ≤ r.2 ∧ r.2 < raw.length ∧ Row offset r.2 r.1

/-- A node with the children that its brackets hold. -/
theorem isNodeAt_of_row {offset : ℕ} {r : List ParseNode × ℕ} (h : IsRowFrom raw (offset + 1) r)
    (tag : Bytes) : IsNodeAt raw offset (.mk tag offset (r.2 - offset) r.1, r.2 + 1) := by
  obtain ⟨hle, hlt, hrow⟩ := h
  have hlen : offset + (r.2 - offset) = r.2 := by omega
  have hinside : Row offset (offset + (r.2 - offset)) r.1 := by
    rw [hlen]
    exact ⟨fun t ht => (hrow.placed t ht).mono (Nat.le_succ _) le_rfl, hrow.order⟩
  exact ⟨by omega, by omega, hinside.mk_placed tag le_rfl (by omega)⟩

/-- A node without children. -/
theorem isNodeAt_leaf {offset start len next : ℕ} (tag : Bytes) (hstart : offset ≤ start)
    (hlt : offset < next) (hstop : start + len ≤ next) (hnext : next ≤ raw.length) :
    IsNodeAt raw offset (.mk tag start len [], next) :=
  ⟨hlt, hnext, .mk tag hstart hstop nofun .nil⟩

/-- The text of a literal is there when it is found. -/
theorem length_of_take_eq {offset n : ℕ} {text : Bytes} (h : (raw.drop offset).take n = text)
    (hn : text.length = n) (hpos : 0 < n) : offset + n ≤ raw.length := by
  have hlength := congrArg List.length h
  rw [List.length_take, List.length_drop] at hlength
  omega

/-- A value in front of the nodes that follow it. -/
theorem IsNodeAt.cons {offset start next : ℕ} {v : ParseNode × ℕ} {r : List ParseNode × ℕ}
    (hv : IsNodeAt raw start v) (hstart : offset ≤ start) (hnext : v.2 ≤ next)
    (hr : IsRowFrom raw next r) : IsRowFrom raw offset (v.1 :: r.1, r.2) := by
  obtain ⟨hlt, -, hplaced⟩ := hv
  obtain ⟨hle, hlast, hrow⟩ := hr
  exact ⟨by dsimp only; omega, hlast, .cons (hplaced.mono hstart le_rfl) hrow hnext hle⟩

theorem IsNodeAt.setTag {start : ℕ} {v : ParseNode × ℕ} (hv : IsNodeAt raw start v) (tag : Bytes) :
    IsNodeAt raw start (v.1.setTag tag, v.2) :=
  ⟨hv.1, hv.2.1, hv.2.2.setTag tag⟩

/-- What a number starts with does not end it. -/
theorem not_isDelimiter {b : UInt8} (h : b = 45 ∨ isDigit b = true) : isDelimiter b = false := by
  rcases h with rfl | h
  · rfl
  · by_contra hdelimiter
    simp only [isDelimiter, Bool.not_eq_false, Bool.or_eq_true, beq_iff_eq] at hdelimiter
    rcases hdelimiter with (rfl | rfl) | rfl <;> cases h

/-- A number ends within the text. -/
theorem isNodeAt_number {offset : ℕ} (hlt : offset < raw.length)
    (h : charAt raw offset = 45 ∨ isDigit (charAt raw offset) = true) :
    IsNodeAt raw offset
      (.mk (ascii "number") offset ((raw.drop offset).takeWhile (!isDelimiter ·)).length [],
        offset + ((raw.drop offset).takeWhile (!isDelimiter ·)).length) := by
  have hdrop := List.drop_eq_getElem_cons hlt
  have hlen : ((raw.drop offset).takeWhile (!isDelimiter ·)).length ≤ raw.length - offset := by
    rw [← List.length_drop]
    exact (List.takeWhile_sublist _).length_le
  have hpos : 0 < ((raw.drop offset).takeWhile (!isDelimiter ·)).length := by
    have hfirst := not_isDelimiter h
    rw [charAt_of_drop hdrop] at hfirst
    rw [hdrop, List.takeWhile_cons_of_pos (by simp [hfirst])]
    exact Nat.succ_pos _
  exact isNodeAt_leaf _ le_rfl (by omega) le_rfl (by omega)

/-- The checked function of the nodes agrees with the plain one, where twice the bytes that are left
are fewer than the steps. -/
def NodeAgrees (u : Uninit) (raw : Bytes) (fuel : ℕ) : Prop :=
  ∀ offset, offset < raw.length → 2 * (raw.length - offset) < fuel →
    Agrees (IsNodeAt raw offset) (checkedProcessNode u raw fuel offset) (processNode u raw fuel offset)

/-- That of the members. -/
def ObjectAgrees (u : Uninit) (raw : Bytes) (fuel : ℕ) : Prop :=
  ∀ offset, 2 * (raw.length - offset) + 1 < fuel →
    Agrees (IsRowFrom raw offset) (checkedProcessObject u raw fuel offset)
      (processObject u raw fuel offset)

/-- That of the elements. -/
def ArrayAgrees (u : Uninit) (raw : Bytes) (fuel : ℕ) : Prop :=
  ∀ offset, 2 * (raw.length - offset) + 1 < fuel →
    Agrees (IsRowFrom raw offset) (checkedProcessArray u raw fuel offset) (processArray u raw fuel offset)

section Turn

variable {fuel : ℕ} (hnodes : NodeAgrees u raw fuel) (hobjects : ObjectAgrees u raw fuel)
  (harrays : ArrayAgrees u raw fuel)

include hobjects harrays in
theorem nodeAgrees_succ : NodeAgrees u raw (fuel + 1) := by
  intro offset hlt hfuel
  rw [checkedProcessNode, processNode, byteAt_eq hlt, ok_bind]
  by_cases hobject : charAt raw offset = 123
  · rw [if_pos hobject, if_pos hobject]
    exact (hobjects (offset + 1) (by omega)).bind fun r hr => .ok (isNodeAt_of_row hr _)
  rw [if_neg hobject, if_neg hobject]
  by_cases harray : charAt raw offset = 91
  · rw [if_pos harray, if_pos harray]
    exact (harrays (offset + 1) (by omega)).bind fun r hr => .ok (isNodeAt_of_row hr _)
  rw [if_neg harray, if_neg harray]
  by_cases hstring : charAt raw offset = 34
  · rw [if_pos hstring, if_pos hstring]
    refine (scanString_agrees (by omega)).bind fun last hlast => .ok ?_
    exact isNodeAt_leaf _ (by omega) (by omega) (by omega) (by omega)
  rw [if_neg hstring, if_neg hstring]
  by_cases hnumber : charAt raw offset = 45 ∨ isDigit (charAt raw offset)
  · rw [if_pos hnumber, if_pos hnumber, scanNumber_eq (by omega), ok_bind,
      Nat.add_sub_cancel_left]
    exact .ok (isNodeAt_number hlt hnumber)
  rw [if_neg hnumber, if_neg hnumber, substr_eq _ hlt.le, substr_eq _ hlt.le, ok_bind, ok_bind,
    ok_bind]
  -- the literals
  split
  · exact .ok (isNodeAt_leaf _ le_rfl (by omega) le_rfl (length_of_take_eq ‹_› rfl (by decide)))
  split
  · exact .ok (isNodeAt_leaf _ le_rfl (by omega) le_rfl (length_of_take_eq ‹_› rfl (by decide)))
  split
  · exact .ok (isNodeAt_leaf _ le_rfl (by omega) le_rfl (length_of_take_eq ‹_› rfl (by decide)))
  · exact .http _ _

include hnodes hobjects in
theorem objectAgrees_succ : ObjectAgrees u raw (fuel + 1) := by
  intro offset hfuel
  rw [checkedProcessObject, processObject]
  by_cases hend : raw.length ≤ offset
  · rw [if_pos hend, if_pos hend]
    exact .http _ _
  rw [if_neg hend, if_neg hend]
  refine (ignoreWhiteSpaces_agrees raw offset).bind fun start hstart => ?_
  rw [byteAt_eq hstart.2, ok_bind]
  by_cases hclose : charAt raw start = 125
  · rw [if_pos hclose, if_pos hclose]
    exact .ok ⟨hstart.1, hstart.2, .nil _ _⟩
  rw [if_neg hclose, if_neg hclose]
  by_cases hquote : charAt raw start = 34
  · rw [if_pos hquote, if_pos hquote]
    -- the name, a colon and the value
    refine (hnodes start hstart.2 (by omega)).bind fun name hname => ?_
    refine (ignoreWhiteSpaces_agrees raw _).bind fun colon hcolon => ?_
    rw [byteAt_eq hcolon.2, ok_bind]
    split
    · exact .http _ _
    have hbehind := hname.1
    refine (ignoreWhiteSpaces_agrees raw _).bind fun begin hbegin => ?_
    refine (hnodes begin hbegin.2 (by omega)).bind fun value hvalue => ?_
    refine (getString_agrees raw _).bind fun tag _ => ?_
    refine (ignoreWhiteSpaces_agrees raw _).bind fun next hnext => ?_
    have hlater := hvalue.1
    rw [byteAt_eq hnext.2, ok_bind]
    by_cases hcomma : charAt raw next = 44
    · rw [if_pos hcomma, if_pos hcomma]
      refine (hobjects (next + 1) (by omega)).bind fun r hr => .ok ?_
      exact (hvalue.setTag tag).cons (by omega) (hnext.1.trans (Nat.le_succ _)) hr
    rw [if_neg hcomma, if_neg hcomma]
    split
    · exact .http _ _
    · refine (hobjects next (by omega)).bind fun r hr => .ok ?_
      exact (hvalue.setTag tag).cons (by omega) hnext.1 hr
  · rw [if_neg hquote, if_neg hquote]
    exact .http _ _

include hnodes harrays in
theorem arrayAgrees_succ : ArrayAgrees u raw (fuel + 1) := by
  intro offset hfuel
  rw [checkedProcessArray, processArray]
  by_cases hend : raw.length ≤ offset
  · rw [if_pos hend, if_pos hend]
    exact .http _ _
  rw [if_neg hend, if_neg hend]
  refine (ignoreWhiteSpaces_agrees raw offset).bind fun start hstart => ?_
  rw [byteAt_eq hstart.2, ok_bind]
  by_cases hclose : charAt raw start = 93
  · rw [if_pos hclose, if_pos hclose]
    exact .ok ⟨hstart.1, hstart.2, .nil _ _⟩
  rw [if_neg hclose, if_neg hclose]
  refine (hnodes start hstart.2 (by omega)).bind fun value hvalue => ?_
  refine (ignoreWhiteSpaces_agrees raw _).bind fun next hnext => ?_
  have hlater := hvalue.1
  rw [byteAt_eq hnext.2, ok_bind]
  by_cases hcomma : charAt raw next = 44
  · rw [if_pos hcomma, if_pos hcomma]
    refine (harrays (next + 1) (by omega)).bind fun r hr => .ok ?_
    exact hvalue.cons hstart.1 (hnext.1.trans (Nat.le_succ _)) hr
  rw [if_neg hcomma, if_neg hcomma]
  split
  · exact .http _ _
  · refine (harrays next (by omega)).bind fun r hr => .ok ?_
    exact hvalue.cons hstart.1 hnext.1 hr

end Turn

theorem process_agrees (u : Uninit) (raw : Bytes) (fuel : ℕ) :
    NodeAgrees u raw fuel ∧ ObjectAgrees u raw fuel ∧ ArrayAgrees u raw fuel := by
  induction fuel with
  | zero =>
    exact ⟨fun _ _ h => absurd h (Nat.not_lt_zero _), fun _ h => absurd h (Nat.not_lt_zero _),
      fun _ h => absurd h (Nat.not_lt_zero _)⟩
  | succ fuel ih =>
    obtain ⟨hnodes, hobjects, harrays⟩ := ih
    exact ⟨nodeAgrees_succ hobjects harrays, objectAgrees_succ hnodes hobjects,
      arrayAgrees_succ hnodes harrays⟩

end Nodes

/-- The JSON parser is total: it reads nothing out of bounds, and it ends with an `HttpException` or
with a tree in the text whose nodes stand in their parents, one behind the other. -/
theorem parse_total (u : Uninit) (raw : Bytes) : checkedParse u raw = parse u raw ∧
    ((∃ root, parse u raw = .ok root ∧ Placed 0 raw.length root) ∨
      ∃ code message, parse u raw = .error (.http code message)) := by
  have hagrees : Agrees (Placed 0 raw.length) (checkedParse u raw) (parse u raw) := by
    refine (ignoreWhiteSpaces_agrees raw 0).bind fun offset hoffset => ?_
    refine ((process_agrees u raw (fuelOf raw)).1 offset hoffset.2 ?_).bind fun r hr => .ok ?_
    · rw [fuelOf]
      omega
    · exact hr.2.2.mono (Nat.zero_le _) hr.2.1
  exact ⟨hagrees.eq, hagrees.outcome⟩

end VplJail.Json
