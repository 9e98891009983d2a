import VplJail.Json.Parser

/-!
# Completeness of the JSON parser

The parser accepts every text of the grammar and builds a tree of the shape of its value. `parse_text`
is for strings of any kind whose texts the string readers understand, `parse_value` for those of
RFC 8259.
-/

namespace VplJail.Json

open Rpc Util

variable {σ : Type} (u : Uninit) (enc : σ → Bytes) (raw : Bytes)

/-! ## The tree of a value -/

/-- The tag that `processNode` gives. -/
def kind : Value σ → Bytes
  | .null => ascii "null"
  | .bool _ => ascii "boolean"
  | .number _ => ascii "number"
  | .string _ => ascii "string"
  | .array _ => ascii "array"
  | .object _ => ascii "object"

mutual

/-- A tree that stands for a value, where `enc` makes bytes of the strings. -/
inductive Shape : Value σ → ParseNode → Prop
  | null {tag : Bytes} {offset len : ℕ}
      (h : (ParseNode.mk tag offset len []).rawContent raw = ascii "null") :
      Shape .null (.mk tag offset len [])
  | bool {b : Bool} {tag : Bytes} {offset len : ℕ}
      (h : (ParseNode.mk tag offset len []).rawContent raw = ascii (if b then "true" else "false")) :
      Shape (.bool b) (.mk tag offset len [])
  | number {literal ws tag : Bytes} {offset len : ℕ} (hws : IsWhitespace ws)
      (h : (ParseNode.mk tag offset len []).rawContent raw = literal ++ ws) :
      Shape (.number literal) (.mk tag offset len [])
  | string {s : σ} {tag : Bytes} {offset len : ℕ}
      (h : getString u raw (.mk tag offset len []) = .ok (enc s)) :
      Shape (.string s) (.mk tag offset len [])
  | array {elements : List (Value σ)} {tag : Bytes} {offset len : ℕ} {children : List ParseNode}
      (h : ElementsShape elements children) :
      Shape (.array elements) (.mk tag offset len children)
  | object {members : List (σ × Value σ)} {tag : Bytes} {offset len : ℕ} {children : List ParseNode}
      (h : MembersShape members children) :
      Shape (.object members) (.mk tag offset len children)

/-- Trees that stand for the elements of an array, in their order. -/
inductive ElementsShape : List (Value σ) → List ParseNode → Prop
  | nil : ElementsShape [] []
  | cons {v : Value σ} {vs : List (Value σ)} {t : ParseNode} {ts : List ParseNode}
      (htag : t.tag = kind v) (h : Shape v t) (hrest : ElementsShape vs ts) :
      ElementsShape (v :: vs) (t :: ts)

/-- Trees that stand for the members of an object, in their order and tagged with their keys. -/
inductive MembersShape : List (σ × Value σ) → List ParseNode → Prop
  | nil : MembersShape [] []
  | cons {k : σ} {v : Value σ} {ms : List (σ × Value σ)} {t : ParseNode} {ts : List ParseNode}
      (htag : t.tag = enc k) (h : Shape v t) (hrest : MembersShape ms ts) :
      MembersShape ((k, v) :: ms) (t :: ts)

end

variable {u enc raw}

/-- The tag does not matter. -/
theorem Shape.setTag {v : Value σ} {t : ParseNode} (h : Shape u enc raw v t) (tag : Bytes) :
    Shape u enc raw v (t.setTag tag) := by
  cases h with
  | null h => exact .null h
  | bool h => exact .bool h
  | number hws h => exact .number hws h
  | string h => exact .string h
  | array h => exact .array h
  | object h => exact .object h

/-! ## Whitespace -/

theorem isWhiteSpace_iff {b : UInt8} :
    isWhiteSpace b = true ↔ b = 32 ∨ b = 9 ∨ b = 10 ∨ b = 13 := by
  simp only [isWhiteSpace, Bool.or_eq_true, beq_iff_eq]
  tauto

/-- Whitespace is skipped up to the next byte. -/
theorem ignoreWhiteSpaces_of_drop {offset : ℕ} {ws rest : Bytes} {b : UInt8}
    (hws : IsWhitespace ws) (hb : isWhiteSpace b = false)
    (h : raw.drop offset = ws ++ b :: rest) :
    ignoreWhiteSpaces raw offset = .ok (offset + ws.length) ∧
      raw.drop (offset + ws.length) = b :: rest := by
  have hdrop : raw.drop (offset + ws.length) = b :: rest := drop_of_append h rfl
  have hlength := length_of_drop hdrop (List.cons_ne_nil b rest)
  rw [List.length_cons] at hlength
  have htake : (raw.drop offset).takeWhile isWhiteSpace = ws := by
    rw [h, List.takeWhile_append_of_pos fun b hb => isWhiteSpace_iff.mpr (hws b hb),
      List.takeWhile_cons_of_neg (by simp [hb]), List.append_nil]
  refine ⟨?_, hdrop⟩
  rw [ignoreWhiteSpaces, htake, if_neg (by omega)]
  rfl

/-- Whitespace of which a part has been skipped. -/
theorem exists_whitespace {ws skipped rest rest' : Bytes} {b : UInt8} (hws : IsWhitespace ws)
    (hskipped : IsWhitespace skipped) (hb : isWhiteSpace b = false)
    (h : ws ++ b :: rest = skipped ++ rest') :
    ∃ ws', IsWhitespace ws' ∧ rest' = ws' ++ b :: rest := by
  rcases List.append_eq_append_iff.mp h with ⟨more, rfl, hmore⟩ | ⟨more, rfl, hmore⟩
  · cases more with
    | nil => exact ⟨[], fun _ h => absurd h List.not_mem_nil, hmore.symm⟩
    | cons c more =>
      obtain rfl := (List.cons.inj hmore).1
      have hspace := isWhiteSpace_iff.mpr (hskipped b (by simp))
      rw [hb] at hspace
      cases hspace
  · exact ⟨more, fun b hb => hws b (List.mem_append_right _ hb), hmore⟩

/-! ## One node -/

section Node

variable {offset : ℕ} {rest : Bytes} (fuel : ℕ)

theorem processNode_object {children : List ParseNode} {last : ℕ}
    (h : raw.drop offset = 123 :: rest)
    (hchildren : processObject u raw fuel (offset + 1) = .ok (children, last)) :
    processNode u raw (fuel + 1) offset =
      .ok (.mk (ascii "object") offset (last - offset) children, last + 1) := by
  rw [processNode, charAt_of_drop h, if_pos rfl, hchildren]
  rfl

theorem processNode_array {children : List ParseNode} {last : ℕ}
    (h : raw.drop offset = 91 :: rest)
    (hchildren : processArray u raw fuel (offset + 1) = .ok (children, last)) :
    processNode u raw (fuel + 1) offset =
      .ok (.mk (ascii "array") offset (last - offset) children, last + 1) := by
  rw [processNode, charAt_of_drop h, if_neg (by decide), if_pos rfl, hchildren]
  rfl

/-- A string literal is delimited, and its node is read as what the literal means. -/
theorem processNode_string {s text : Bytes} (hs : Escaped s text)
    (h : raw.drop offset = 34 :: (text ++ 34 :: rest)) :
    ∃ t, processNode u raw (fuel + 1) offset = .ok (t, offset + 1 + text.length + 1) ∧
      t = .mk (ascii "string") (offset + 1) text.length [] ∧ getString u raw t = .ok s ∧
      raw.drop (offset + 1 + text.length + 1) = rest := by
  have hlength := length_of_drop h (List.cons_ne_nil _ _)
  simp only [List.length_cons, List.length_append] at hlength
  have htext : raw.drop (offset + 1) = text ++ 34 :: rest := drop_of_cons h
  refine ⟨_, ?_, rfl, ?_, drop_of_cons (drop_of_append htext rfl)⟩
  · rw [processNode, charAt_of_drop h, if_neg (by decide), if_neg (by decide), if_pos rfl,
      scanString_escaped hs htext (by omega)]
    have hlen : offset + 1 + text.length - (offset + 1) = text.length := by omega
    exact congrArg (fun len => Except.ok (ParseNode.mk (ascii "string") (offset + 1) len [],
      offset + 1 + text.length + 1)) hlen
  · rw [getString, if_neg (by simp)]
    exact decodeJSONString_escaped hs htext (show offset + 1 ≤ raw.length by omega)

/-- A number is scanned up to the delimiter behind it. -/
theorem processNode_number {literal ws : Bytes} {d : UInt8} (hliteral : IsNumber literal)
    (hws : IsWhitespace ws) (hd : isDelimiter d = true)
    (h : raw.drop offset = literal ++ (ws ++ d :: rest)) :
    processNode u raw (fuel + 1) offset =
        .ok (.mk (ascii "number") offset (literal ++ ws).length [],
          offset + (literal ++ ws).length) ∧
      (ParseNode.mk (ascii "number") offset (literal ++ ws).length []).rawContent raw =
        literal ++ ws := by
  have hdelimiter : ∀ b ∈ literal ++ ws, (!isDelimiter b) = true := by
    intro b hb
    rcases List.mem_append.mp hb with hb | hb
    · rcases hliteral.mem hb with rfl | rfl | rfl | rfl | rfl | hb
      · rfl
      · rfl
      · rfl
      · rfl
      · rfl
      · have hne (k : UInt8) (hk : ¬ (48 ≤ k ∧ k ≤ 57)) : b ≠ k := fun hbk => hk (hbk ▸ hb)
        simp [isDelimiter, hne 44 (by decide), hne 125 (by decide), hne 93 (by decide)]
    · rcases hws b hb with rfl | rfl | rfl | rfl <;> rfl
  have hdrop : raw.drop offset = (literal ++ ws) ++ d :: rest := by
    rw [h, List.append_assoc]
  have htake : (raw.drop offset).takeWhile (!isDelimiter ·) = literal ++ ws := by
    rw [hdrop, List.takeWhile_append_of_pos hdelimiter,
      List.takeWhile_cons_of_neg (by simp [hd]), List.append_nil]
  refine ⟨?_, take_of_append hdrop rfl⟩
  obtain ⟨b, tail, rfl, hb⟩ := hliteral.head
  have hne (k : UInt8) (hk : ¬ (k = 45 ∨ (48 ≤ k ∧ k ≤ 57))) : b ≠ k := fun hbk => hk (hbk ▸ hb)
  have hnumber : b = 45 ∨ isDigit b = true := by
    refine hb.imp id fun hb => ?_
    rw [isDigit, Bool.and_eq_true, decide_eq_true_eq, decide_eq_true_eq]
    exact hb
  rw [processNode, charAt_of_drop h, if_neg (hne 123 (by decide)), if_neg (hne 91 (by decide)),
    if_neg (hne 34 (by decide)), if_pos hnumber, htake]
  rfl

/-- The literal names. -/
theorem processNode_null (h : raw.drop offset = ascii "null" ++ rest) :
    processNode u raw (fuel + 1) offset = .ok (.mk (ascii "null") offset 4 [], offset + 4) := by
  have htake : (raw.drop offset).take 4 = ascii "null" := take_of_append h rfl
  have htake' : (raw.drop offset).take 5 ≠ ascii "false" := by
    rw [h]
    intro heq
    cases (List.cons.inj heq).1
  have hchar : charAt raw offset = 110 := charAt_of_drop h
  rw [processNode, hchar, if_neg (by decide), if_neg (by decide), if_neg (by decide),
    if_neg (by decide), htake, if_neg (by decide), if_neg htake', if_pos rfl]
  rfl

theorem processNode_true (h : raw.drop offset = ascii "true" ++ rest) :
    processNode u raw (fuel + 1) offset = .ok (.mk (ascii "boolean") offset 4 [], offset + 4) := by
  have htake : (raw.drop offset).take 4 = ascii "true" := take_of_append h rfl
  have hchar : charAt raw offset = 116 := charAt_of_drop h
  rw [processNode, hchar, if_neg (by decide), if_neg (by decide), if_neg (by decide),
    if_neg (by decide), if_pos htake]
  rfl

theorem processNode_false (h : raw.drop offset = ascii "false" ++ rest) :
    processNode u raw (fuel + 1) offset = .ok (.mk (ascii "boolean") offset 5 [], offset + 5) := by
  have htake : (raw.drop offset).take 4 ≠ ascii "true" := by
    rw [h]
    intro heq
    cases (List.cons.inj heq).1
  have htake' : (raw.drop offset).take 5 = ascii "false" := take_of_append h rfl
  have hchar : charAt raw offset = 102 := charAt_of_drop h
  rw [processNode, hchar, if_neg (by decide), if_neg (by decide), if_neg (by decide),
    if_neg (by decide), if_neg htake, if_pos htake']
  rfl

end Node

/-! ## One turn of the loops -/

section Turn

variable {offset : ℕ} {ws rest : Bytes} (fuel : ℕ)

/-- What the result of the loop is behind a first child. -/
def consChild (t : ParseNode) (r : List ParseNode × ℕ) : List ParseNode × ℕ :=
  (t :: r.1, r.2)

theorem processObject_end (hws : IsWhitespace ws) (h : raw.drop offset = ws ++ 125 :: rest) :
    processObject u raw (fuel + 1) offset = .ok ([], offset + ws.length) := by
  obtain ⟨hskip, hdrop⟩ := ignoreWhiteSpaces_of_drop hws (by decide) h
  have hlength := length_of_drop h (by simp)
  rw [List.length_append, List.length_cons] at hlength
  rw [processObject, if_neg (by omega), hskip]
  exact if_pos (charAt_of_drop hdrop)

theorem processArray_end (hws : IsWhitespace ws) (h : raw.drop offset = ws ++ 93 :: rest) :
    processArray u raw (fuel + 1) offset = .ok ([], offset + ws.length) := by
  obtain ⟨hskip, hdrop⟩ := ignoreWhiteSpaces_of_drop hws (by decide) h
  have hlength := length_of_drop h (by simp)
  rw [List.length_append, List.length_cons] at hlength
  rw [processArray, if_neg (by omega), hskip]
  exact if_pos (charAt_of_drop hdrop)

/-- An element and what follows it. -/
theorem processArray_cons {value : ParseNode} {o1 o2 o3 : ℕ} {b : UInt8}
    (hlength : offset < raw.length) (h1 : ignoreWhiteSpaces raw offset = .ok o1)
    (hfirst : charAt raw o1 ≠ 93) (h2 : processNode u raw fuel o1 = .ok (value, o2))
    (h3 : ignoreWhiteSpaces raw o2 = .ok o3) (hb : charAt raw o3 = b) (hend : b = 44 ∨ b = 93) :
    processArray u raw (fuel + 1) offset =
      consChild value <$> processArray u raw fuel (if b = 44 then o3 + 1 else o3) := by
  have hok {α β : Type} (a : α) (f : α → Except Thrown β) : (Except.ok a >>= f) = f a := rfl
  rw [processArray, if_neg (by omega), h1, hok, if_neg hfirst, h2, hok]
  dsimp only
  rw [h3, hok, hb]
  rcases hend with rfl | rfl
  · rw [if_pos rfl, if_pos rfl]
    rfl
  · rw [if_neg (by decide), if_neg (by decide), if_neg (by decide)]
    rfl

/-- A member and what follows it. -/
theorem processObject_cons {name value : ParseNode} {tag : Bytes} {o1 o2 o3 o4 o5 o6 : ℕ}
    {b : UInt8} (hlength : offset < raw.length) (h1 : ignoreWhiteSpaces raw offset = .ok o1)
    (hfirst : charAt raw o1 = 34) (h2 : processNode u raw fuel o1 = .ok (name, o2))
    (h3 : ignoreWhiteSpaces raw o2 = .ok o3) (hcolon : charAt raw o3 = 58)
    (h4 : ignoreWhiteSpaces raw (o3 + 1) = .ok o4) (h5 : processNode u raw fuel o4 = .ok (value, o5))
    (hname : getString u raw name = .ok tag) (h6 : ignoreWhiteSpaces raw o5 = .ok o6)
    (hb : charAt raw o6 = b) (hend : b = 44 ∨ b = 125) :
    processObject u raw (fuel + 1) offset =
      consChild (value.setTag tag) <$> processObject u raw fuel (if b = 44 then o6 + 1 else o6) := by
  have hok {α β : Type} (a : α) (f : α → Except Thrown β) : (Except.ok a >>= f) = f a := rfl
  rw [processObject, if_neg (by omega), h1, hok, hfirst, if_neg (by decide), if_pos rfl, h2, hok]
  dsimp only
  rw [h3, hok, hcolon, if_neg (by decide), h4, hok, h5, hok]
  dsimp only
  rw [hname, hok, h6, hok, hb]
  rcases hend with rfl | rfl
  · rw [if_pos rfl, if_pos rfl]
    rfl
  · rw [if_neg (by decide), if_neg (by decide), if_neg (by decide)]
    rfl

end Turn

/-! ## Whole texts -/

/-- A number needs a delimiter behind it. -/
def Delimited (v : Value σ) (rest : Bytes) : Prop :=
  ∀ literal, v = .number literal → ∃ ws d rest', rest = ws ++ d :: rest' ∧ IsWhitespace ws ∧
    isDelimiter d = true

section Texts

variable (u enc raw)

/-- The text of a value is parsed, wherever it stands; whitespace behind it may be skipped. -/
def NodeParses (v : Value σ) (text : Bytes) : Prop :=
  ∀ {offset fuel : ℕ} {rest : Bytes}, raw.drop offset = text ++ rest → Delimited v rest →
    2 * text.length ≤ fuel → ∃ t next skipped, processNode u raw fuel offset = .ok (t, next) ∧
      t.tag = kind v ∧ Shape u enc raw v t ∧ IsWhitespace skipped ∧ rest = skipped ++ raw.drop next

/-- The text between brackets is parsed. -/
def ElementsParse (vs : List (Value σ)) (text : Bytes) : Prop :=
  ∀ {offset fuel : ℕ} {rest : Bytes}, raw.drop offset = text ++ 93 :: rest →
    2 * text.length + 1 ≤ fuel → ∃ ts, processArray u raw fuel offset =
      .ok (ts, offset + text.length) ∧ ElementsShape u enc raw vs ts

/-- The text between braces is parsed. -/
def MembersParse (ms : List (σ × Value σ)) (text : Bytes) : Prop :=
  ∀ {offset fuel : ℕ} {rest : Bytes}, raw.drop offset = text ++ 125 :: rest →
    2 * text.length + 1 ≤ fuel → ∃ ts, processObject u raw fuel offset =
      .ok (ts, offset + text.length) ∧ MembersShape u enc raw ms ts

end Texts

section Cases

variable {lit : σ → Bytes → Prop}

/-- The first byte of a value is no whitespace and does not close a bracket. -/
theorem exists_text_eq_cons {v : Value σ} {text : Bytes} (h : Text lit v text) :
    ∃ b tail, text = b :: tail ∧ b ≠ 93 ∧ isWhiteSpace b = false := by
  cases h with
  | null => exact ⟨_, _, rfl, by decide, by decide⟩
  | true => exact ⟨_, _, rfl, by decide, by decide⟩
  | false => exact ⟨_, _, rfl, by decide, by decide⟩
  | string h => exact ⟨_, _, rfl, by decide, by decide⟩
  | array h => exact ⟨_, _, rfl, by decide, by decide⟩
  | object h => exact ⟨_, _, rfl, by decide, by decide⟩
  | number h =>
    obtain ⟨b, tail, rfl, hb⟩ := h.head
    have hne (k : UInt8) (hk : ¬ (k = 45 ∨ (48 ≤ k ∧ k ≤ 57))) : b ≠ k :=
      fun hbk => hk (hbk ▸ hb)
    refine ⟨b, tail, rfl, hne 93 (by decide), ?_⟩
    simp [isWhiteSpace, hne 32 (by decide), hne 10 (by decide), hne 13 (by decide),
      hne 9 (by decide)]

/-- A value in an array or an object, with what separates it from the next one. -/
theorem NodeParses.separated {v : Value σ} {text ws rest : Bytes} {b : UInt8} {offset fuel : ℕ}
    (h : NodeParses u enc raw v text) (hdrop : raw.drop offset = text ++ (ws ++ b :: rest))
    (hws : IsWhitespace ws) (hb : isDelimiter b = true) (hfuel : 2 * text.length ≤ fuel) :
    ∃ t o2 o3, processNode u raw fuel offset = .ok (t, o2) ∧ t.tag = kind v ∧ Shape u enc raw v t ∧
      ignoreWhiteSpaces raw o2 = .ok o3 ∧ raw.drop o3 = b :: rest ∧
      o3 = offset + text.length + ws.length := by
  obtain ⟨t, o2, skipped, hnode, htag, hshape, hskipped, hrest⟩ :=
    h hdrop (fun _ _ => ⟨ws, b, rest, rfl, hws, hb⟩) hfuel
  have hspace : isWhiteSpace b = false := by
    simp only [isDelimiter, Bool.or_eq_true, beq_iff_eq] at hb
    rcases hb with (rfl | rfl) | rfl <;> rfl
  obtain ⟨ws', hws', hdrop'⟩ := exists_whitespace hws hskipped hspace hrest
  obtain ⟨hskip, hnext⟩ := ignoreWhiteSpaces_of_drop hws' hspace hdrop'
  refine ⟨t, o2, _, hnode, htag, hshape, hskip, hnext, ?_⟩
  have hplace : raw.drop (offset + text.length + ws.length) = b :: rest :=
    drop_of_append (drop_of_append hdrop rfl) rfl
  have hlength := length_of_drop hnext (List.cons_ne_nil b rest)
  have hlength' := length_of_drop hplace (List.cons_ne_nil b rest)
  omega

theorem elementsParse_none {ws : Bytes} (hws : IsWhitespace ws) :
    ElementsParse u enc raw ([] : List (Value σ)) ws := by
  intro offset fuel rest hdrop hfuel
  obtain ⟨fuel, rfl⟩ : ∃ k, fuel = k + 1 := ⟨fuel - 1, by omega⟩
  exact ⟨[], processArray_end fuel hws hdrop, .nil⟩

theorem elementsParse_one {ws text ws' : Bytes} {v : Value σ} (hws : IsWhitespace ws)
    (htext : Text lit v text) (h : NodeParses u enc raw v text) (hws' : IsWhitespace ws') :
    ElementsParse u enc raw [v] (ws ++ (text ++ ws')) := by
  intro offset fuel rest hdrop hfuel
  obtain ⟨c, tail, htext, hc, hspace⟩ := exists_text_eq_cons htext
  simp only [List.length_append] at hfuel
  have htext_length : text.length = tail.length + 1 := by rw [htext, List.length_cons]
  obtain ⟨fuel, rfl⟩ : ∃ k, fuel = k + 1 + 1 := ⟨fuel - 2, by omega⟩
  have hdrop1 : raw.drop offset = ws ++ c :: (tail ++ (ws' ++ 93 :: rest)) := by
    simpa [htext] using hdrop
  have hlength := length_of_drop hdrop1 (by simp)
  simp only [List.length_append, List.length_cons] at hlength
  obtain ⟨hskip, hnext⟩ := ignoreWhiteSpaces_of_drop hws hspace hdrop1
  have hnext' : raw.drop (offset + ws.length) = text ++ (ws' ++ 93 :: rest) := by
    rw [hnext, htext, List.cons_append]
  obtain ⟨t, o2, o3, hnode, htag, hshape, hskip3, hdrop3, ho3⟩ :=
    h.separated hnext' hws' rfl (show 2 * text.length ≤ fuel + 1 by omega)
  refine ⟨[t], ?_, .cons htag hshape .nil⟩
  have hfirst : charAt raw (offset + ws.length) ≠ 93 := by rwa [charAt_of_drop hnext]
  rw [processArray_cons _ (by omega) hskip hfirst hnode hskip3 (charAt_of_drop hdrop3) (.inr rfl),
    if_neg (by decide), processArray_end fuel (fun _ h => absurd h List.not_mem_nil) hdrop3]
  have hlast : o3 + ([] : Bytes).length = offset + (ws ++ (text ++ ws')).length := by
    simp only [List.length_nil, List.length_append]
    omega
  rw [hlast]
  rfl

theorem elementsParse_more {ws text ws' tail : Bytes} {v : Value σ} {vs : List (Value σ)}
    (hws : IsWhitespace ws) (htext : Text lit v text) (h : NodeParses u enc raw v text)
    (hws' : IsWhitespace ws') (hrest : ElementsParse u enc raw vs tail) :
    ElementsParse u enc raw (v :: vs) (ws ++ (text ++ (ws' ++ 44 :: tail))) := by
  intro offset fuel rest hdrop hfuel
  obtain ⟨c, text', htext, hc, hspace⟩ := exists_text_eq_cons htext
  simp only [List.length_append, List.length_cons] at hfuel
  have htext_length : text.length = text'.length + 1 := by rw [htext, List.length_cons]
  obtain ⟨fuel, rfl⟩ : ∃ k, fuel = k + 1 := ⟨fuel - 1, by omega⟩
  have hdrop1 : raw.drop offset = ws ++ c :: (text' ++ (ws' ++ 44 :: (tail ++ 93 :: rest))) := by
    simpa [htext] using hdrop
  have hlength := length_of_drop hdrop1 (by simp)
  simp only [List.length_append, List.length_cons] at hlength
  obtain ⟨hskip, hnext⟩ := ignoreWhiteSpaces_of_drop hws hspace hdrop1
  have hnext' : raw.drop (offset + ws.length) = text ++ (ws' ++ 44 :: (tail ++ 93 :: rest)) := by
    rw [hnext, htext, List.cons_append]
  obtain ⟨t, o2, o3, hnode, htag, hshape, hskip3, hdrop3, ho3⟩ :=
    h.separated hnext' hws' rfl (show 2 * text.length ≤ fuel by omega)
  obtain ⟨ts, hts, hshapes⟩ := hrest (drop_of_cons hdrop3) (show 2 * tail.length + 1 ≤ fuel by omega)
  refine ⟨t :: ts, ?_, .cons htag hshape hshapes⟩
  have hfirst : charAt raw (offset + ws.length) ≠ 93 := by rwa [charAt_of_drop hnext]
  rw [processArray_cons _ (by omega) hskip hfirst hnode hskip3 (charAt_of_drop hdrop3) (.inl rfl),
    if_pos rfl, hts]
  have hlast : o3 + 1 + tail.length =
      offset + (ws ++ (text ++ (ws' ++ 44 :: tail))).length := by
    simp only [List.length_append, List.length_cons]
    omega
  rw [hlast]
  rfl

theorem membersParse_none {ws : Bytes} (hws : IsWhitespace ws) :
    MembersParse u enc raw ([] : List (σ × Value σ)) ws := by
  intro offset fuel rest hdrop hfuel
  obtain ⟨fuel, rfl⟩ : ∃ k, fuel = k + 1 := ⟨fuel - 1, by omega⟩
  exact ⟨[], processObject_end fuel hws hdrop, .nil⟩

/-- A member up to what separates it from the next one. -/
theorem member_parses {ws name ws1 ws2 text ws' rest : Bytes} {k : σ} {v : Value σ} {b : UInt8}
    {offset fuel : ℕ} (hws : IsWhitespace ws) (hk : Escaped (enc k) name)
    (hws1 : IsWhitespace ws1) (hws2 : IsWhitespace ws2) (htext : Text lit v text)
    (h : NodeParses u enc raw v text) (hws' : IsWhitespace ws')
    (hdrop : raw.drop offset =
      ws ++ 34 :: (name ++ 34 :: (ws1 ++ 58 :: (ws2 ++ (text ++ (ws' ++ b :: rest))))))
    (hb : b = 44 ∨ b = 125) (hfuel : 2 * text.length ≤ fuel) :
    ∃ t last, processObject u raw (fuel + 1) offset =
        consChild (t.setTag (enc k)) <$> processObject u raw fuel (if b = 44 then last + 1 else last) ∧
      Shape u enc raw v t ∧ raw.drop last = b :: rest ∧
      last = offset + (ws ++ 34 :: (name ++ 34 :: (ws1 ++ 58 :: (ws2 ++ (text ++ ws'))))).length := by
  obtain ⟨c, text', htext, hc, hspace⟩ := exists_text_eq_cons htext
  have htext_length : text.length = text'.length + 1 := by rw [htext, List.length_cons]
  obtain ⟨fuel, rfl⟩ : ∃ k, fuel = k + 1 := ⟨fuel - 1, by omega⟩
  have hlength := length_of_drop hdrop (by simp)
  simp only [List.length_append, List.length_cons] at hlength
  obtain ⟨hskip1, hdrop1⟩ := ignoreWhiteSpaces_of_drop hws (by decide) hdrop
  obtain ⟨nameNode, hnameNode, -, hname, hdrop2⟩ := processNode_string fuel hk hdrop1
  obtain ⟨hskip3, hdrop3⟩ := ignoreWhiteSpaces_of_drop hws1 (by decide) hdrop2
  have hdrop4 : raw.drop (offset + ws.length + 1 + name.length + 1 + ws1.length + 1) =
      ws2 ++ c :: (text' ++ (ws' ++ b :: rest)) := by
    rw [drop_of_cons hdrop3, htext, List.cons_append]
  obtain ⟨hskip4, hdrop5⟩ := ignoreWhiteSpaces_of_drop hws2 hspace hdrop4
  have hdrop5' : raw.drop (offset + ws.length + 1 + name.length + 1 + ws1.length + 1 + ws2.length) =
      text ++ (ws' ++ b :: rest) := by
    rw [hdrop5, htext, List.cons_append]
  have hdelimiter : isDelimiter b = true := by
    rcases hb with rfl | rfl <;> rfl
  obtain ⟨t, o5, o6, hnode, -, hshape, hskip6, hdrop6, ho6⟩ :=
    h.separated hdrop5' hws' hdelimiter hfuel
  refine ⟨t, o6, ?_, hshape, hdrop6, ?_⟩
  · exact processObject_cons _ (by omega) hskip1 (charAt_of_drop hdrop1) hnameNode hskip3
      (charAt_of_drop hdrop3) hskip4 hnode hname hskip6 (charAt_of_drop hdrop6) hb
  · simp only [List.length_append, List.length_cons]
    omega

theorem membersParse_one {ws name ws1 ws2 text ws' : Bytes} {k : σ} {v : Value σ}
    (hws : IsWhitespace ws) (hk : Escaped (enc k) name) (hws1 : IsWhitespace ws1)
    (hws2 : IsWhitespace ws2) (htext : Text lit v text) (h : NodeParses u enc raw v text)
    (hws' : IsWhitespace ws') :
    MembersParse u enc raw [(k, v)]
      (ws ++ 34 :: (name ++ 34 :: (ws1 ++ 58 :: (ws2 ++ (text ++ ws'))))) := by
  intro offset fuel rest hdrop hfuel
  simp only [List.length_append, List.length_cons] at hfuel
  obtain ⟨fuel, rfl⟩ : ∃ k, fuel = k + 1 + 1 := ⟨fuel - 2, by omega⟩
  have hdrop' : raw.drop offset =
      ws ++ 34 :: (name ++ 34 :: (ws1 ++ 58 :: (ws2 ++ (text ++ (ws' ++ 125 :: rest))))) := by
    simpa using hdrop
  obtain ⟨t, last, hturn, hshape, hlast, hplace⟩ :=
    member_parses hws hk hws1 hws2 htext h hws' hdrop' (.inr rfl)
      (show 2 * text.length ≤ fuel + 1 by omega)
  refine ⟨[t.setTag (enc k)], ?_, .cons (ParseNode.tag_setTag _ _) (hshape.setTag _) .nil⟩
  rw [hturn, if_neg (by decide),
    processObject_end fuel (fun _ h => absurd h List.not_mem_nil) hlast, hplace]
  rfl

theorem membersParse_more {ws name ws1 ws2 text ws' tail : Bytes} {k : σ} {v : Value σ}
    {ms : List (σ × Value σ)} (hws : IsWhitespace ws) (hk : Escaped (enc k) name)
    (hws1 : IsWhitespace ws1) (hws2 : IsWhitespace ws2) (htext : Text lit v text)
    (h : NodeParses u enc raw v text) (hws' : IsWhitespace ws') (hrest : MembersParse u enc raw ms tail) :
    MembersParse u enc raw ((k, v) :: ms)
      (ws ++ 34 :: (name ++ 34 :: (ws1 ++ 58 :: (ws2 ++ (text ++ (ws' ++ 44 :: tail)))))) := by
  intro offset fuel rest hdrop hfuel
  simp only [List.length_append, List.length_cons] at hfuel
  obtain ⟨fuel, rfl⟩ : ∃ k, fuel = k + 1 := ⟨fuel - 1, by omega⟩
  have hdrop' : raw.drop offset = ws ++ 34 :: (name ++ 34 ::
      (ws1 ++ 58 :: (ws2 ++ (text ++ (ws' ++ 44 :: (tail ++ 125 :: rest)))))) := by
    simpa using hdrop
  obtain ⟨t, last, hturn, hshape, hlast, hplace⟩ :=
    member_parses hws hk hws1 hws2 htext h hws' hdrop' (.inl rfl)
      (show 2 * text.length ≤ fuel by omega)
  obtain ⟨ts, hts, hshapes⟩ := hrest (drop_of_cons hlast) (show 2 * tail.length + 1 ≤ fuel by omega)
  refine ⟨t.setTag (enc k) :: ts, ?_, .cons (ParseNode.tag_setTag _ _) (hshape.setTag _) hshapes⟩
  have hend : last + 1 + tail.length = offset +
      (ws ++ 34 :: (name ++ 34 :: (ws1 ++ 58 :: (ws2 ++ (text ++ (ws' ++ 44 :: tail)))))).length := by
    rw [hplace]
    simp only [List.length_append, List.length_cons]
    omega
  rw [hturn, if_pos rfl, hts, hend]
  rfl

/-! The values themselves. Where the fuel is read off the length, it is at least one step. -/

theorem isWhitespace_nil : IsWhitespace [] :=
  fun _ h => absurd h List.not_mem_nil

theorem exists_fuel {text : Bytes} {fuel : ℕ} (hne : text ≠ []) (h : 2 * text.length ≤ fuel) :
    ∃ k, fuel = k + 1 ∧ 2 * text.length ≤ k + 1 := by
  have hpos := List.length_pos_of_ne_nil hne
  exact ⟨fuel - 1, by omega, by omega⟩

theorem nodeParses_null : NodeParses u enc raw (.null : Value σ) (ascii "null") := by
  intro offset fuel rest hdrop _ hfuel
  obtain ⟨fuel, rfl, -⟩ := exists_fuel (by decide) hfuel
  exact ⟨_, _, [], processNode_null fuel hdrop, rfl, .null (take_of_append hdrop rfl),
    isWhitespace_nil, (drop_of_append hdrop rfl).symm⟩

theorem nodeParses_true : NodeParses u enc raw (.bool true : Value σ) (ascii "true") := by
  intro offset fuel rest hdrop _ hfuel
  obtain ⟨fuel, rfl, -⟩ := exists_fuel (by decide) hfuel
  exact ⟨_, _, [], processNode_true fuel hdrop, rfl, .bool (take_of_append hdrop rfl),
    isWhitespace_nil, (drop_of_append hdrop rfl).symm⟩

theorem nodeParses_false : NodeParses u enc raw (.bool false : Value σ) (ascii "false") := by
  intro offset fuel rest hdrop _ hfuel
  obtain ⟨fuel, rfl, -⟩ := exists_fuel (by decide) hfuel
  exact ⟨_, _, [], processNode_false fuel hdrop, rfl, .bool (take_of_append hdrop rfl),
    isWhitespace_nil, (drop_of_append hdrop rfl).symm⟩

theorem nodeParses_number {literal : Bytes} (h : IsNumber literal) :
    NodeParses u enc raw (.number literal : Value σ) literal := by
  intro offset fuel rest hdrop hrest hfuel
  obtain ⟨b, tail, hcons, -⟩ := h.head
  obtain ⟨fuel, rfl, -⟩ := exists_fuel (by simp [hcons]) hfuel
  obtain ⟨ws, d, rest, rfl, hws, hd⟩ := hrest literal rfl
  obtain ⟨hnode, hcontent⟩ := processNode_number fuel h hws hd hdrop
  refine ⟨_, _, ws, hnode, rfl, .number hws hcontent, hws, ?_⟩
  rw [← List.append_assoc] at hdrop
  rw [drop_of_append hdrop rfl]

theorem nodeParses_string {s : σ} {text : Bytes} (h : Escaped (enc s) text) :
    NodeParses u enc raw (.string s) (34 :: (text ++ [34])) := by
  intro offset fuel rest hdrop _ hfuel
  obtain ⟨fuel, rfl, -⟩ := exists_fuel (by simp) hfuel
  obtain ⟨t, hnode, rfl, hstring, hnext⟩ :=
    processNode_string fuel h (show _ = 34 :: (text ++ 34 :: rest) by simpa using hdrop)
  exact ⟨_, _, [], hnode, rfl, .string hstring, isWhitespace_nil, hnext.symm⟩

theorem nodeParses_array {vs : List (Value σ)} {text : Bytes} (h : ElementsParse u enc raw vs text) :
    NodeParses u enc raw (.array vs) (91 :: (text ++ [93])) := by
  intro offset fuel rest hdrop _ hfuel
  obtain ⟨fuel, rfl, hfuel⟩ := exists_fuel (by simp) hfuel
  simp only [List.length_cons, List.length_append] at hfuel
  have hdrop1 : raw.drop offset = 91 :: (text ++ 93 :: rest) := by simpa using hdrop
  obtain ⟨ts, hts, hshape⟩ := h (drop_of_cons hdrop1) (show 2 * text.length + 1 ≤ fuel by omega)
  have hnext : raw.drop (offset + 1 + text.length + 1) = rest :=
    drop_of_cons (drop_of_append (drop_of_cons hdrop1) rfl)
  exact ⟨_, _, [], processNode_array fuel hdrop1 hts, rfl, .array hshape, isWhitespace_nil,
    hnext.symm⟩

theorem nodeParses_object {ms : List (σ × Value σ)} {text : Bytes}
    (h : MembersParse u enc raw ms text) :
    NodeParses u enc raw (.object ms) (123 :: (text ++ [125])) := by
  intro offset fuel rest hdrop _ hfuel
  obtain ⟨fuel, rfl, hfuel⟩ := exists_fuel (by simp) hfuel
  simp only [List.length_cons, List.length_append] at hfuel
  have hdrop1 : raw.drop offset = 123 :: (text ++ 125 :: rest) := by simpa using hdrop
  obtain ⟨ts, hts, hshape⟩ := h (drop_of_cons hdrop1) (show 2 * text.length + 1 ≤ fuel by omega)
  have hnext : raw.drop (offset + 1 + text.length + 1) = rest :=
    drop_of_cons (drop_of_append (drop_of_cons hdrop1) rfl)
  exact ⟨_, _, [], processNode_object fuel hdrop1 hts, rfl, .object hshape, isWhitespace_nil,
    hnext.symm⟩

/-- The induction over the grammar. -/
theorem nodeParses (hlit : ∀ s text, lit s text → Escaped (enc s) text) {v : Value σ}
    {text : Bytes} (h : Text lit v text) : NodeParses u enc raw v text := by
  refine @Text.rec σ lit (fun v text _ => NodeParses u enc raw v text)
    (fun vs text _ => ElementsParse u enc raw vs text)
    (fun ms text _ => MembersParse u enc raw ms text)
    ?null ?true ?false ?number ?string ?array ?object ?none ?one ?more ?noMember ?member ?members
    v text h
  case null => exact nodeParses_null
  case true => exact nodeParses_true
  case false => exact nodeParses_false
  case number => exact fun h => nodeParses_number h
  case string => exact fun h => nodeParses_string (hlit _ _ h)
  case array => exact fun _ ih => nodeParses_array ih
  case object => exact fun _ ih => nodeParses_object ih
  case none => exact fun hws => elementsParse_none hws
  case one => exact fun hws h hws' ih => elementsParse_one hws h ih hws'
  case more => exact fun hws h hws' _ ih ihrest => elementsParse_more hws h ih hws' ihrest
  case noMember => exact fun hws => membersParse_none hws
  case member =>
    exact fun hws hk hws1 hws2 h hws' ih =>
      membersParse_one hws (hlit _ _ hk) hws1 hws2 h ih hws'
  case members =>
    exact fun hws hk hws1 hws2 h hws' _ ih ihrest =>
      membersParse_more hws (hlit _ _ hk) hws1 hws2 h ih hws' ihrest

end Cases

/-! ## Strings that the encoder has written -/

/-- The codec of strings: what `encodeJSONString` writes of any bytes is decoded to them, whatever
length from its own on is announced; and between quotation marks, with any text before and behind,
it is delimited by its closing one and its node is read as those bytes. -/
theorem encodeJSONString_codec (u : Uninit) (s : Bytes) :
    (∀ n, (encodeJSONString s).length ≤ n → decodeJSONString u (encodeJSONString s) 0 n = .ok s) ∧
    ∀ (before after : Bytes) (fuel : ℕ), ∃ t,
      processNode u (before ++ 34 :: (encodeJSONString s ++ 34 :: after)) (fuel + 1) before.length =
        .ok (t, before.length + 1 + (encodeJSONString s).length + 1) ∧
      t = .mk (ascii "string") (before.length + 1) (encodeJSONString s).length [] ∧
      getString u (before ++ 34 :: (encodeJSONString s ++ 34 :: after)) t = .ok s := by
  have hescaped := escaped_encodeJSONString s
  constructor
  · intro n hn
    have hdrop : (encodeJSONString s).drop 0 = encodeJSONString s ++ [] :=
      (List.append_nil _).symm
    have hread := decodeJSONString_escaped (u := u) hescaped hdrop (Nat.zero_le _)
    rw [decodeJSONString] at hread ⊢
    rw [if_pos (by omega)] at hread
    split_ifs with hlimit
    · rwa [show 0 + n = 0 + (encodeJSONString s).length by omega]
    · rwa [Nat.zero_add] at hread
  · intro before after fuel
    have hdrop : (before ++ 34 :: (encodeJSONString s ++ 34 :: after)).drop before.length =
        34 :: (encodeJSONString s ++ 34 :: after) := List.drop_left
    obtain ⟨t, hnode, ht, hread, -⟩ := processNode_string fuel hescaped hdrop
    exact ⟨t, hnode, ht, hread⟩

/-- A quotation mark and a control character. -/
theorem encodeJSONString_codec_quote :
    decodeJSONString .zero (encodeJSONString [34, 1]) 0 10000 = .ok [34, 1] :=
  (encodeJSONString_codec _ [34, 1]).1 10000 (by decide)

/-! ## Documents -/

/-- What stands at the top needs no delimiter. -/
theorem Top.delimited {v : Value σ} (h : Top v) (rest : Bytes) : Delimited v rest := by
  intro literal hv
  cases h with
  | string s => cases hv
  | array elements => cases hv
  | object members => cases hv

/-- Every text of a value is parsed, with any whitespace around it. -/
theorem parse_of_document {lit : σ → Bytes → Prop} {v : Value σ} {text : Bytes}
    (hlit : ∀ s text, lit s text → Escaped (enc s) text) (htop : Top v)
    (h : Document lit v text) :
    ∃ root, parse u text = .ok root ∧ root.tag = kind v ∧ Shape u enc text v root := by
  obtain ⟨hbefore, htext, -⟩ := h
  rename_i before text after
  obtain ⟨b, tail, hcons, -, hb⟩ := exists_text_eq_cons htext
  obtain ⟨hskip, hdrop⟩ : ignoreWhiteSpaces (before ++ (text ++ after)) 0 = .ok (0 + before.length) ∧
      (before ++ (text ++ after)).drop (0 + before.length) = b :: (tail ++ after) :=
    ignoreWhiteSpaces_of_drop hbefore hb (by rw [hcons]; rfl)
  have hfuel : 2 * text.length ≤ fuelOf (before ++ (text ++ after)) := by
    rw [fuelOf, List.length_append, List.length_append]
    omega
  obtain ⟨root, next, -, hnode, htag, hshape, -⟩ :=
    nodeParses hlit htext (hdrop.trans (by rw [hcons]; rfl)) (htop.delimited after) hfuel
  refine ⟨root, ?_, htag, hshape⟩
  rw [parse, hskip]
  exact congrArg (Except.map Prod.fst) hnode

/-- Every text of RFC 8259 with an object, an array or a string at the top is accepted, and the tree
has the shape of its value, with the UTF-8 of the strings. -/
theorem parse_value (u : Uninit) {v : Value (List Char)} {text : Bytes} (htop : Top v)
    (h : Document CharsText v text) :
    ∃ root, parse u text = .ok root ∧ root.tag = kind v ∧ Shape u utf8 text v root :=
  parse_of_document (fun _ _ => escaped_of_charsText) htop h

/-- The object of a grinning face and a number: the face is written as a surrogate pair. -/
theorem parse_value_face :
    ∃ root, parse .zero (ascii " \x7b\"a\\/\":[\"\\uD83D\\ude00\", -12 ]\x7d") = .ok root ∧
      root.tag = ascii "object" ∧
      Shape .zero utf8 (ascii " \x7b\"a\\/\":[\"\\uD83D\\ude00\", -12 ]\x7d")
        (.object [(['a', '/'], .array [.string ['😀'], .number (ascii "-12")])]) root := by
  have hnone : IsWhitespace [] := isWhitespace_nil
  have hspace : IsWhitespace [32] := fun b hb => .inl (List.mem_singleton.mp hb)
  have hkey : CharsText ['a', '/'] (ascii "a\\/") :=
    .unescaped ⟨by decide, by decide, by decide⟩ (.short (b := 47) (by decide) rfl .nil)
  have hhigh : IsHex4 (4096 * 13 + 256 * 8 + 16 * 3 + 13) (ascii "D83D") := .intro rfl rfl rfl rfl
  have hlow : IsHex4 (4096 * 13 + 256 * 14 + 16 * 0 + 0) (ascii "de00") := .intro rfl rfl rfl rfl
  have hface : CharsText ['😀'] (ascii "\\uD83D\\ude00") :=
    .pair hhigh hlow (by decide) (by decide) rfl .nil
  have hnumber : IsNumber ([45] ++ [49, 50] ++ [] ++ []) :=
    .intro (.inr rfl) ⟨⟨by decide, by decide +kernel⟩, by decide⟩ (.inl rfl) (.inl rfl)
  have helements : ElementsText CharsText [.string ['😀'], .number (ascii "-12")]
      (ascii "\"\\uD83D\\ude00\", -12 ") :=
    .more hnone (.string hface) hnone (.one hspace (.number hnumber) hspace)
  exact parse_value _ (.object _) (.intro hspace
    (.object (.one hnone hkey hnone hnone (.array helements) hnone)) hnone)

end VplJail.Json
