import VplJail.Util.Text

/-!
# HTTP messages

Messages as a client reads them: a start line, fields up to an empty line, and a body of as many bytes
as `Content-Length` says. What is written of a message is read back, whatever comes behind it
(`readMessage_text`).
-/

namespace VplJail.Http

open Util

/-- The end of a line. -/
def lineEnd : Bytes := [13, 10]

/-- A field: a name, and a value that starts with no blank. -/
structure Field where
  name : Bytes
  value : Bytes
  name_ne : name ≠ []
  name_line : ∀ b ∈ name, b ≠ 13 ∧ b ≠ 58
  value_line : ∀ b ∈ value, b ≠ 13
  value_head : ∀ b ∈ value.head?, b ≠ 32

/-- A field with its parts as they are. -/
def Field.pair (f : Field) : Bytes × Bytes := (f.name, f.value)

/-- The line of a field. -/
def Field.line (f : Field) : Bytes :=
  f.name ++ 58 :: 32 :: f.value

/-- The lines of some fields, each with its end. -/
def fieldText (fields : List Field) : Bytes :=
  fields.flatMap fun f => f.line ++ lineEnd

/-- A message as it is read. -/
structure Message where
  startLine : Bytes
  fields : List (Bytes × Bytes)
  body : Bytes
deriving DecidableEq

/-! ## Reading -/

/-- The first line of a text without its end, and what follows it. -/
def takeLine (text : Bytes) : Option (Bytes × Bytes) :=
  (find lineEnd text).map fun pos => (text.take pos, text.drop (pos + 2))

/-- The name in front of the first colon, and the value behind the blanks. -/
def readField (line : Bytes) : Option (Bytes × Bytes) :=
  (find [58] line).map fun pos => (line.take pos, (line.drop (pos + 1)).dropWhile (· = 32))

/-- The fields up to the empty line, and what follows it. -/
def readFields : ℕ → Bytes → Option (List (Bytes × Bytes) × Bytes)
  | 0, _ => none
  | fuel + 1, text => do
      let (line, rest) ← takeLine text
      if line = [] then return ([], rest)
      let field ← readField line
      let (fields, rest) ← readFields fuel rest
      return (field :: fields, rest)

/-- The number in the only `Content-Length`. -/
def contentLength (fields : List (Bytes × Bytes)) : Option ℕ :=
  match fields.filter fun f => toUppercase f.1 = ascii "CONTENT-LENGTH" with
  | [(_, value)] => if value ≠ [] ∧ value.all isDigit then some (digitsValue value) else none
  | _ => none

/-- A message at the start of a text, and what follows it. `bodiless` says for which start lines there
is no body, whatever its length is said to be. -/
def readMessage (bodiless : Bytes → Bool) (text : Bytes) : Option (Message × Bytes) := do
  let (startLine, rest) ← takeLine text
  let (fields, rest) ← readFields text.length rest
  if bodiless startLine then return (⟨startLine, fields, []⟩, rest)
  let length ← contentLength fields
  if length ≤ rest.length then return (⟨startLine, fields, rest.take length⟩, rest.drop length)
  failure

/-! ## Lines -/

/-- A text without carriage return in front of the end of a line. -/
theorem takeLine_append {line : Bytes} (h : ∀ b ∈ line, b ≠ 13) (rest : Bytes) :
    takeLine (line ++ lineEnd ++ rest) = some (line, rest) := by
  have hfind : find lineEnd (line ++ lineEnd ++ rest) = some line.length := by
    refine find_eq_some.mpr ⟨?_, fun k hk => ?_⟩
    · rw [List.append_assoc, List.drop_left]
      exact List.prefix_append _ _
    · intro hprefix
      have hdrop : (line ++ lineEnd ++ rest).drop k =
          (line)[k] :: (line.drop (k + 1) ++ (lineEnd ++ rest)) := by
        rw [List.append_assoc, List.drop_append_of_le_length hk.le, List.drop_eq_getElem_cons hk]
        rfl
      rw [hdrop, lineEnd, List.cons_prefix_cons] at hprefix
      exact h _ (List.getElem_mem hk) hprefix.1.symm
  rw [takeLine, hfind, Option.map_some, List.append_assoc, List.take_left]
  have hlen : line.length + 2 = (line ++ lineEnd).length := by
    rw [List.length_append]
    rfl
  rw [hlen, ← List.append_assoc, List.drop_left]

/-- The line of a field is read as it was written. -/
theorem readField_line (f : Field) : readField f.line = some f.pair := by
  have hfind : find [58] f.line = some f.name.length := by
    refine find_eq_some.mpr ⟨?_, fun k hk => ?_⟩
    · rw [Field.line, List.drop_left]
      exact List.prefix_append [58] _
    · intro hprefix
      have hdrop : f.line.drop k = f.name[k] :: (f.name.drop (k + 1) ++ 58 :: 32 :: f.value) := by
        rw [Field.line, List.drop_append_of_le_length hk.le, List.drop_eq_getElem_cons hk]
        rfl
      rw [hdrop, List.cons_prefix_cons] at hprefix
      exact (f.name_line _ (List.getElem_mem hk)).2 hprefix.1.symm
  have hvalue : (32 :: f.value).dropWhile (· = 32) = f.value := by
    rw [List.dropWhile_cons_of_pos rfl]
    cases hv : f.value with
    | nil => rfl
    | cons b value =>
      have hb : b ≠ 32 := f.value_head b (by rw [hv]; rfl)
      rw [List.dropWhile_cons_of_neg (by simpa using hb)]
  have hdrop : f.line.drop (f.name.length + 1) = 32 :: f.value := by
    rw [Field.line, ← List.drop_drop, List.drop_left]
    rfl
  rw [readField, hfind, Option.map_some, hdrop, hvalue, Field.line, List.take_left]
  rfl

theorem Field.line_ne_nil (f : Field) : f.line ≠ [] := fun h =>
  f.name_ne (List.append_eq_nil_iff.mp h).1

theorem Field.notMem_line (f : Field) : ∀ b ∈ f.line, b ≠ 13 := by
  intro b hb
  rw [Field.line, List.mem_append, List.mem_cons, List.mem_cons] at hb
  rcases hb with hb | rfl | rfl | hb
  · exact (f.name_line b hb).1
  · decide
  · decide
  · exact f.value_line b hb

/-- The fields are read up to the empty line, with as many turns as there are fields, and one. -/
theorem readFields_text (fields : List Field) {fuel : ℕ} (hfuel : fields.length < fuel)
    (rest : Bytes) :
    readFields fuel (fieldText fields ++ (lineEnd ++ rest)) =
      some (fields.map Field.pair, rest) := by
  induction fields generalizing fuel with
  | nil =>
    obtain ⟨fuel, rfl⟩ := Nat.exists_eq_succ_of_ne_zero (Nat.ne_zero_of_lt hfuel)
    have hline : takeLine (lineEnd ++ rest) = some ([], rest) :=
      takeLine_append (fun b hb => absurd hb List.not_mem_nil) rest
    rw [fieldText, List.flatMap_nil, List.nil_append, readFields, hline]
    rfl
  | cons f fields ih =>
    obtain ⟨fuel, rfl⟩ := Nat.exists_eq_succ_of_ne_zero (Nat.ne_zero_of_lt hfuel)
    have htext : fieldText (f :: fields) ++ (lineEnd ++ rest) =
        f.line ++ lineEnd ++ (fieldText fields ++ (lineEnd ++ rest)) := by
      rw [fieldText, List.flatMap_cons, List.append_assoc]
      rfl
    have hrest := ih (Nat.lt_of_succ_lt_succ hfuel)
    rw [htext, readFields, takeLine_append f.notMem_line]
    simp only [Option.bind_eq_bind, Option.bind_some, if_neg f.line_ne_nil, readField_line, hrest]
    rfl

/-! ## Messages -/

/-- A message to be written, with the length of its body in a field where it has one. -/
structure Draft where
  startLine : Bytes
  fields : List Field
  body : Bytes
  line : ∀ b ∈ startLine, b ≠ 13

/-- The head of a draft. -/
def Draft.head (d : Draft) : Bytes :=
  d.startLine ++ lineEnd ++ (fieldText d.fields ++ lineEnd)

/-- The text of a draft. -/
def Draft.text (d : Draft) : Bytes :=
  d.head ++ d.body

/-- What is written. -/
def Draft.message (d : Draft) : Message :=
  ⟨d.startLine, d.fields.map Field.pair, d.body⟩

theorem length_fields_le (fields : List Field) : fields.length ≤ (fieldText fields).length := by
  induction fields with
  | nil => exact le_rfl
  | cons f fields ih =>
    rw [fieldText, List.flatMap_cons, List.length_append, List.length_append, List.length_cons]
    rw [fieldText] at ih
    have hend : lineEnd.length = 2 := rfl
    omega

/-- A message is read back as it was written, and the reader stops at its end: its body is empty where
there is to be none, and else as long as its `Content-Length` says. -/
theorem readMessage_text {bodiless : Bytes → Bool} (d : Draft) (rest : Bytes)
    (hbody : if bodiless d.startLine then d.body = []
      else contentLength (d.fields.map Field.pair) = some d.body.length) :
    readMessage bodiless (d.text ++ rest) = some (d.message, rest) := by
  have htext : d.text ++ rest =
      d.startLine ++ lineEnd ++ (fieldText d.fields ++ (lineEnd ++ (d.body ++ rest))) := by
    simp only [Draft.text, Draft.head, List.append_assoc]
  have hfuel : d.fields.length < (d.text ++ rest).length := by
    have hle := length_fields_le d.fields
    have hend : lineEnd.length = 2 := rfl
    rw [htext]
    simp only [List.length_append]
    omega
  have hfields := readFields_text d.fields hfuel (d.body ++ rest)
  rw [readMessage, htext, takeLine_append d.line]
  rw [htext] at hfields
  simp only [Option.bind_eq_bind, Option.bind_some, hfields]
  cases hbodiless : bodiless d.startLine with
  | true =>
    rw [hbodiless, if_pos rfl] at hbody
    rw [if_pos rfl, hbody, List.nil_append, Draft.message, hbody]
    rfl
  | false =>
    rw [hbodiless, if_neg Bool.false_ne_true] at hbody
    rw [if_neg Bool.false_ne_true, hbody]
    simp only [Option.bind_some, List.length_append, Nat.le_add_right, if_true, List.take_left,
      List.drop_left]
    rfl

end VplJail.Http
