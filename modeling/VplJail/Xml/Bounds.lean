import VplJail.Common.Checked
import VplJail.Rpc.Extents
import VplJail.Xml.Tree

/-!
# What the XML parser reads

The parser with every access to the text and to the tags checked. It reads nothing out of bounds but
for one place: of an empty tag in the root, `processNode` looks at the byte before the first one.
-/

namespace VplJail.Xml

open Rpc Rpc.ParseNode

/-! ## The checked parser -/

/-- The outer loop of `nextTag`: the next `<`. -/
def findStart (raw : Bytes) : ℕ → ℕ → Except Thrown (Option ℕ)
  | 0, _ => throw outOfFuel
  | fuel + 1, offset =>
      if raw.length ≤ offset then pure none
      else do
        if (← byteAt raw offset) = 60 then pure (some offset) else findStart raw fuel (offset + 1)

/-- The inner loop: the next `>`. -/
def findEnd (raw : Bytes) : ℕ → ℕ → Except Thrown ℕ
  | 0, _ => throw outOfFuel
  | fuel + 1, offset =>
      if raw.length ≤ offset then throw (parseError "unexpected end of XML")
      else do
        if (← byteAt raw offset) = 62 then pure offset else findEnd raw fuel (offset + 1)

/-- `nextTag`, with every access checked. -/
def checkedNextTag (raw : Bytes) (offset : ℕ) : Except Thrown (Option (Bytes × ℕ × ℕ)) := do
  match ← findStart raw (raw.length + 1) offset with
  | none => pure none
  | some btag =>
    let etag ← findEnd raw (raw.length + 1) btag
    let tag ← substr raw (btag + 1) (etag - (btag + 1))
    pure (some (tag, btag, etag + 1))

/-- `ntag[i]` of a string, which has a NUL behind its end. -/
def tagByteAt (ntag : Bytes) (i : ℕ) : Except Thrown UInt8 :=
  if i ≤ ntag.length then pure (charAt ntag i) else throw outOfBounds

/-- `l - 1` of a `size_t`, which wraps around. -/
def predSize (l : ℕ) : ℕ :=
  if l = 0 then 2 ^ 64 - 1 else l - 1

/-- `processNode`, with every access checked. -/
def checkedProcessNode (raw : Bytes) : ℕ → Bytes → ℕ → Except Thrown (List ParseNode × ℕ × ℕ)
  | 0, _, _ => throw outOfFuel
  | fuel + 1, name, offset => do
      match ← checkedNextTag raw offset with
      | none => throw (parseError "end tag not found")
      | some (ntag, ontag, offset) =>
        if (← tagByteAt ntag 0) = 47 then
          if name = ntag.tail then pure ([], ontag, offset)
          else throw (parseError "unexpected end of tag")
        else if (← tagByteAt ntag (predSize ntag.length)) = 47 then do
          let (rest, last, next) ← checkedProcessNode raw fuel name offset
          pure (.mk ntag.dropLast offset 0 [] :: rest, last, next)
        else do
          let (children, ontag, next) ← checkedProcessNode raw fuel ntag offset
          let (rest, last, next) ← checkedProcessNode raw fuel name next
          pure (.mk ntag offset (ontag - offset) children :: rest, last, next)

/-- The constructor of `XML`. -/
def checkedParse (raw : Bytes) : Except Thrown ParseNode := do
  match ← checkedNextTag raw 0 with
  | none => throw (parseError "start tag not found")
  | some (_, _, offset) =>
    match ← checkedNextTag raw offset with
    | none => throw (parseError "start tag not found")
    | some (tag, _, offset) => do
      let (children, ontag, _) ← checkedProcessNode raw (fuelOf raw) tag offset
      pure (.mk tag offset (ontag - offset) children)

/-! ## The tags of a text -/

/-- The scan of a text for its tags, in a tag of which a part has been read or outside. -/
def tagsFrom : Option Bytes → Bytes → List Bytes
  | _, [] => []
  | none, b :: rest => if b = 60 then tagsFrom (some []) rest else tagsFrom none rest
  | some tag, b :: rest =>
      if b = 62 then tag :: tagsFrom none rest else tagsFrom (some (tag ++ [b])) rest

/-- The tags of a text that are complete, in their order. -/
def tags (text : Bytes) : List Bytes :=
  tagsFrom none text

/-- Whether a tag without a byte is met before the open elements are closed or a wrong one is: the
innermost element stands first. -/
def meetsEmpty : List Bytes → List Bytes → Bool
  | [], _ => false
  | _ :: _, [] => false
  | top :: stack, tag :: tags =>
      if tag = [] then true
      else if tag.head? = some 47 then
        if top = tag.tail then meetsEmpty stack tags else false
      else if tag.getLast? = some 47 then meetsEmpty (top :: stack) tags
      else meetsEmpty (tag :: top :: stack) tags

/-- Whether the root of a text, which is its second tag, has such a tag in it. -/
def rootMeetsEmpty (raw : Bytes) : Bool :=
  match tags raw with
  | _ :: root :: rest => meetsEmpty [root] rest
  | _ => false

/-! ## One tag -/

section Tag

variable {raw : Bytes} {fuel offset : ℕ}

theorem findStart_eq (h : raw.length - offset < fuel) (hle : offset ≤ raw.length) :
    findStart raw fuel offset =
      .ok (if raw.length ≤ offset + ((raw.drop offset).takeWhile (· ≠ 60)).length then none
        else some (offset + ((raw.drop offset).takeWhile (· ≠ 60)).length)) := by
  induction fuel generalizing offset with
  | zero => exact absurd h (Nat.not_lt_zero _)
  | succ fuel ih =>
    rw [findStart]
    by_cases hend : raw.length ≤ offset
    · rw [if_pos hend, if_pos (by omega)]
      rfl
    · have hlt : offset < raw.length := by omega
      have hdrop := List.drop_eq_getElem_cons hlt
      rw [if_neg hend, byteAt_eq hlt, charAt_of_drop hdrop, hdrop]
      dsimp only [bind, Except.bind]
      by_cases hchar : raw[offset] = 60
      · rw [if_pos hchar, List.takeWhile_cons_of_neg (by simp [hchar]), List.length_nil,
          Nat.add_zero, if_neg hend]
        rfl
      · rw [if_neg hchar, ih (by omega) (by omega), List.takeWhile_cons_of_pos (by simp [hchar]),
          List.length_cons]
        simp only [Nat.add_assoc, Nat.add_comm 1]

theorem findEnd_eq (h : raw.length - offset < fuel) (hle : offset ≤ raw.length) :
    findEnd raw fuel offset =
      if raw.length ≤ offset + ((raw.drop offset).takeWhile (· ≠ 62)).length then
        .error (parseError "unexpected end of XML")
      else .ok (offset + ((raw.drop offset).takeWhile (· ≠ 62)).length) := by
  induction fuel generalizing offset with
  | zero => exact absurd h (Nat.not_lt_zero _)
  | succ fuel ih =>
    rw [findEnd]
    by_cases hend : raw.length ≤ offset
    · rw [if_pos hend, if_pos (by omega)]
      rfl
    · have hlt : offset < raw.length := by omega
      have hdrop := List.drop_eq_getElem_cons hlt
      rw [if_neg hend, byteAt_eq hlt, charAt_of_drop hdrop, hdrop]
      dsimp only [bind, Except.bind]
      by_cases hchar : raw[offset] = 62
      · rw [if_pos hchar, List.takeWhile_cons_of_neg (by simp [hchar]), List.length_nil,
          Nat.add_zero, if_neg hend]
        rfl
      · rw [if_neg hchar, ih (by omega) (by omega), List.takeWhile_cons_of_pos (by simp [hchar]),
          List.length_cons]
        simp only [Nat.add_assoc, Nat.add_comm 1]

/-- `nextTag` reads within the text. -/
theorem checkedNextTag_eq (hle : offset ≤ raw.length) :
    checkedNextTag raw offset = nextTag raw offset := by
  rw [checkedNextTag, findStart_eq (by omega) hle, nextTag]
  dsimp only [bind, Except.bind]
  generalize hbtag : offset + ((raw.drop offset).takeWhile (· ≠ 60)).length = btag
  split_ifs with hnone hend
  · rfl
  · dsimp only
    rw [findEnd_eq (by omega) (by omega), if_pos hend]
    rfl
  · dsimp only
    rw [findEnd_eq (by omega) (by omega), if_neg hend]
    dsimp only
    rw [substr_eq _ (by omega)]
    rfl

theorem tagsFrom_outside {text rest : Bytes} (h : 60 ∉ text) :
    tagsFrom none (text ++ rest) = tagsFrom none rest := by
  induction text with
  | nil => rfl
  | cons b text ih =>
    rw [List.mem_cons, not_or] at h
    rw [List.cons_append, tagsFrom, if_neg (Ne.symm h.1), ih h.2]

theorem tagsFrom_inside {read tag rest : Bytes} (h : 62 ∉ tag) :
    tagsFrom (some read) (tag ++ 62 :: rest) = (read ++ tag) :: tags rest := by
  induction tag generalizing read with
  | nil => rw [List.nil_append, tagsFrom, if_pos rfl, List.append_nil, tags]
  | cons b tag ih =>
    rw [List.mem_cons, not_or] at h
    rw [List.cons_append, tagsFrom, if_neg (Ne.symm h.1), ih h.2, List.append_assoc,
      List.singleton_append]

theorem tagsFrom_unclosed {read rest : Bytes} (h : 62 ∉ rest) : tagsFrom (some read) rest = [] := by
  induction rest generalizing read with
  | nil => rfl
  | cons b rest ih =>
    rw [List.mem_cons, not_or] at h
    rw [tagsFrom, if_neg (Ne.symm h.1), ih h.2]

/-- What `nextTag` finds: no tag, a tag that is not closed, or the first of the tags. -/
theorem nextTag_cases (raw : Bytes) (offset : ℕ) :
    ((nextTag raw offset = .ok none ∨
        nextTag raw offset = .error (parseError "unexpected end of XML")) ∧
      tags (raw.drop offset) = []) ∨
    ∃ tag btag next, nextTag raw offset = .ok (some (tag, btag, next)) ∧
      tags (raw.drop offset) = tag :: tags (raw.drop next) ∧ offset ≤ btag ∧ btag < next ∧
      next ≤ raw.length := by
  generalize htext : raw.drop offset = text
  by_cases hstart : 60 ∈ text
  · obtain ⟨plain, rest, rfl, hplain⟩ := List.eq_append_cons_of_mem hstart
    rw [tags, tagsFrom_outside hplain, tagsFrom, if_pos rfl]
    by_cases hend : 62 ∈ rest
    · obtain ⟨tag, rest, rfl, htag⟩ := List.eq_append_cons_of_mem hend
      have hdrop : raw.drop offset = plain ++ (bracketed tag ++ rest) := by
        rw [htext, bracketed, List.cons_append, List.append_assoc, List.singleton_append]
      obtain ⟨hnext, hrest⟩ := nextTag_of_drop hplain htag hdrop
      have hlength := length_of_drop hdrop (by simp [bracketed])
      simp only [bracketed, List.length_append, List.length_cons, List.length_nil] at hlength
      rw [tagsFrom_inside htag, List.nil_append]
      exact .inr ⟨tag, _, _, hnext, by rw [hrest], by omega, by omega, by omega⟩
    · rw [tagsFrom_unclosed hend]
      refine .inl ⟨.inr ?_, rfl⟩
      have hplain' : ∀ b ∈ plain, decide (b ≠ 60) = true :=
        fun b hb => decide_eq_true fun h => hplain (h ▸ hb)
      have hrest' : ∀ b ∈ 60 :: rest, decide (b ≠ 62) = true :=
        List.forall_mem_cons.mpr ⟨rfl, fun b hb => decide_eq_true fun h => hend (h ▸ hb)⟩
      have hlength := length_of_drop htext (by simp)
      rw [List.length_append, List.length_cons] at hlength
      rw [nextTag, htext, List.takeWhile_append_of_pos hplain',
        List.takeWhile_cons_of_neg (by decide), List.append_nil]
      dsimp only
      rw [if_neg (by omega), drop_of_append htext rfl, List.takeWhile_eq_self_iff.mpr hrest',
        if_pos (by rw [List.length_cons]; omega)]
      rfl
  · rw [tags, ← List.append_nil text, tagsFrom_outside hstart]
    exact .inl ⟨.inl (nextTag_none hstart htext), rfl⟩

end Tag

/-! ## The tags as strings -/

/-- The first byte of a tag, or the NUL behind an empty one. -/
theorem tagByteAt_zero (ntag : Bytes) :
    ∃ c, tagByteAt ntag 0 = .ok c ∧ (c = 47 ↔ ntag.head? = some 47) := by
  refine ⟨charAt ntag 0, if_pos (Nat.zero_le _), ?_⟩
  cases ntag with
  | nil => exact iff_of_false (by decide) (by decide)
  | cons b ntag => simp [charAt]

/-- The last byte of a tag that has one. -/
theorem tagByteAt_last {ntag : Bytes} (h : ntag ≠ []) :
    ∃ c, tagByteAt ntag (predSize ntag.length) = .ok c ∧ (c = 47 ↔ ntag.getLast? = some 47) := by
  have hpos := List.length_pos_iff.mpr h
  have hpred : predSize ntag.length = ntag.length - 1 := if_neg (by omega)
  refine ⟨charAt ntag (ntag.length - 1), by rw [hpred]; exact if_pos (by omega), ?_⟩
  rw [charAt, List.getD_eq_getElem?_getD, ← List.getLast?_eq_getElem?,
    List.getLast?_eq_some_getLast h]
  simp

/-- An empty tag has none. -/
theorem tagByteAt_nil : tagByteAt [] (predSize 0) = .error outOfBounds := rfl

/-! ## One node -/

/-- What becomes of a node: it is closed, the text is rejected, or the parser meets an empty tag. The
functions with and without checks agree but for the last case. -/
inductive Outcome (raw name : Bytes) (offset : ℕ) :
    Except Thrown (List ParseNode × ℕ × ℕ) → Except Thrown (List ParseNode × ℕ × ℕ) → Prop
  | closed {ts : List ParseNode} {ontag next : ℕ}
      (hplace : offset ≤ ontag ∧ ontag < next ∧ next ≤ raw.length) (hrow : Row offset ontag ts)
      (hmeets : ∀ stack, meetsEmpty (name :: stack) (tags (raw.drop offset)) =
        meetsEmpty stack (tags (raw.drop next))) :
      Outcome raw name offset (.ok (ts, ontag, next)) (.ok (ts, ontag, next))
  | rejected (message : String)
      (hmeets : ∀ stack, meetsEmpty (name :: stack) (tags (raw.drop offset)) = false) :
      Outcome raw name offset (.error (parseError message)) (.error (parseError message))
  | fault (plain : Except Thrown (List ParseNode × ℕ × ℕ))
      (hmeets : ∀ stack, meetsEmpty (name :: stack) (tags (raw.drop offset)) = true) :
      Outcome raw name offset (.error outOfBounds) plain

section Node

variable {raw name : Bytes} {offset : ℕ}

/-- A child, and what follows it in its parent. -/
theorem Outcome.cons {child : ParseNode} {last next : ℕ}
    {checked plain : Except Thrown (List ParseNode × ℕ × ℕ)} (hchild : Placed offset last child)
    (hlast : last ≤ next) (hnext : offset ≤ next) (h : Outcome raw name next checked plain)
    (hmeets : ∀ stack, meetsEmpty (name :: stack) (tags (raw.drop offset)) =
      meetsEmpty (name :: stack) (tags (raw.drop next))) :
    Outcome raw name offset
      (do let (rest, last, next) ← checked; pure (child :: rest, last, next))
      (do let (rest, last, next) ← plain; pure (child :: rest, last, next)) := by
  cases h with
  | closed hplace hrow hrest =>
    exact .closed ⟨by omega, hplace.2⟩ (.cons hchild hrow hlast hplace.1)
      fun stack => (hmeets stack).trans (hrest stack)
  | rejected message hrest => exact .rejected message fun stack => (hmeets stack).trans (hrest stack)
  | fault plain hrest => exact .fault _ fun stack => (hmeets stack).trans (hrest stack)

/-- A node is read within bounds as long as no empty tag is met. -/
theorem checkedProcessNode_outcome {fuel : ℕ} (hle : offset ≤ raw.length)
    (hfuel : raw.length - offset < fuel) :
    Outcome raw name offset (checkedProcessNode raw fuel name offset)
      (processNode raw fuel name offset) := by
  induction fuel generalizing name offset with
  | zero => exact absurd hfuel (Nat.not_lt_zero _)
  | succ fuel ih =>
    rw [checkedProcessNode, processNode, checkedNextTag_eq hle]
    rcases nextTag_cases raw offset with
      ⟨hnone | herror, htags⟩ | ⟨ntag, ontag, next, hnext, htags, hontag, hlt, hlast⟩
    · rw [hnone]
      exact .rejected _ fun stack => by rw [htags, meetsEmpty]
    · rw [herror]
      exact .rejected _ fun stack => by rw [htags, meetsEmpty]
    obtain ⟨first, hfirst, hslash⟩ := tagByteAt_zero ntag
    rw [hnext]
    dsimp only [bind, Except.bind]
    rw [hfirst]
    dsimp only
    by_cases hclosing : ntag.head? = some 47
    · -- an end tag
      have hne : ntag ≠ [] := by
        rintro rfl
        cases hclosing
      rw [if_pos (hslash.mpr hclosing), if_pos hclosing]
      by_cases hname : name = ntag.tail
      · rw [if_pos hname]
        refine .closed ⟨hontag, hlt, hlast⟩ (.nil _ _) fun stack => ?_
        rw [htags, meetsEmpty, if_neg hne, if_pos hclosing, if_pos hname]
      · rw [if_neg hname]
        refine .rejected _ fun stack => ?_
        rw [htags, meetsEmpty, if_neg hne, if_pos hclosing, if_neg hname]
    rw [if_neg (mt hslash.mp hclosing), if_neg hclosing]
    by_cases hempty : ntag = []
    · rw [hempty, List.length_nil, tagByteAt_nil]
      exact .fault _ fun stack => by rw [htags, hempty, meetsEmpty, if_pos rfl]
    obtain ⟨final, hfinal, hslash⟩ := tagByteAt_last hempty
    rw [hfinal]
    dsimp only
    by_cases hself : ntag.getLast? = some 47
    · -- a tag closed in itself
      rw [if_pos (hslash.mpr hself), if_pos hself]
      have hplaced : Placed offset next (.mk ntag.dropLast next 0 []) :=
        .mk _ (by omega) le_rfl (fun _ ht => absurd ht List.not_mem_nil) .nil
      refine Outcome.cons hplaced le_rfl (by omega) (ih hlast (by omega)) fun stack => ?_
      rw [htags, meetsEmpty, if_neg hempty, if_neg hclosing, if_pos hself]
    · -- a start tag
      rw [if_neg (mt hslash.mp hself), if_neg hself]
      have hmeets (stack : List Bytes) : meetsEmpty (name :: stack) (tags (raw.drop offset)) =
          meetsEmpty (ntag :: name :: stack) (tags (raw.drop next)) := by
        rw [htags, meetsEmpty, if_neg hempty, if_neg hclosing, if_neg hself]
      have hchild : Outcome raw ntag next (checkedProcessNode raw fuel ntag next)
          (processNode raw fuel ntag next) := ih hlast (by omega)
      generalize checkedProcessNode raw fuel ntag next = checked at hchild
      generalize processNode raw fuel ntag next = plain at hchild
      cases hchild with
      | closed hplace hrow hrest =>
        rename_i children ontag' next'
        have hlen : next + (ontag' - next) = ontag' := Nat.add_sub_cancel' hplace.1
        have hplaced : Placed offset ontag' (.mk ntag next (ontag' - next) children) :=
          Row.mk_placed (hlen.symm ▸ hrow) ntag (by omega) hlen.le
        have hafter : offset ≤ next' ∧ ontag' ≤ next' ∧ raw.length - next' < fuel := by omega
        dsimp only
        exact Outcome.cons hplaced hafter.2.1 hafter.1 (ih hplace.2.2 hafter.2.2)
          fun stack => (hmeets stack).trans (hrest (name :: stack))
      | rejected message hrest =>
        exact .rejected _ fun stack => (hmeets stack).trans (hrest (name :: stack))
      | fault plain hrest =>
        exact .fault _ fun stack => (hmeets stack).trans (hrest (name :: stack))

end Node

/-! ## The whole text -/

/-- What the constructor promises: it reads nothing out of bounds, and it ends with a tree of nodes
inside of the text and of their parents, or with an `HttpException`. -/
structure IsTotal (raw : Bytes) : Prop where
  inBounds : checkedParse raw = parse raw
  outcome : (∃ root, parse raw = .ok root ∧ Placed 0 raw.length root) ∨
    ∃ code message, parse raw = .error (.http code message)

/-- The constructor on a text with two tags. -/
theorem parse_of_tags {raw root : Bytes} {offset : ℕ}
    {checked plain : Except Thrown (List ParseNode × ℕ × ℕ)}
    (hchecked : checkedParse raw = (do
      let (children, ontag, _) ← checked
      pure (.mk root offset (ontag - offset) children)))
    (hplain : parse raw = (do
      let (children, ontag, _) ← plain
      pure (.mk root offset (ontag - offset) children)))
    (h : Outcome raw root offset checked plain) :
    IsTotal raw ↔ meetsEmpty [root] (tags (raw.drop offset)) = false := by
  cases h with
  | closed hplace hrow hmeets =>
    rename_i children ontag next
    rw [hmeets, meetsEmpty]
    refine iff_of_true ⟨hchecked.trans hplain.symm, .inl ⟨_, hplain, ?_⟩⟩ rfl
    have hlen : offset + (ontag - offset) = ontag := Nat.add_sub_cancel' hplace.1
    exact Row.mk_placed (hlen.symm ▸ hrow) root (Nat.zero_le _) (by omega)
  | rejected message hmeets =>
    exact iff_of_true ⟨hchecked.trans hplain.symm, .inr ⟨_, _, hplain⟩⟩ (hmeets [])
  | fault plain hmeets =>
    rw [hmeets []]
    refine iff_of_false ?_ (by decide)
    rintro ⟨hsame, ⟨root', hroot, -⟩ | ⟨code, message, herror⟩⟩
    · rw [hchecked, hroot] at hsame
      cases hsame
    · rw [hchecked, herror] at hsame
      cases hsame

/-- A text without two tags. -/
theorem IsTotal.of_rejected {raw : Bytes} (message : String)
    (hchecked : checkedParse raw = .error (parseError message))
    (hplain : parse raw = .error (parseError message)) : IsTotal raw :=
  ⟨hchecked.trans hplain.symm, .inr ⟨_, _, hplain⟩⟩

/-- The XML parser is total, within bounds and its nodes in place if and only if no empty tag is met
in the root. -/
theorem isTotal_iff (raw : Bytes) : IsTotal raw ↔ rootMeetsEmpty raw = false := by
  have hzero := checkedNextTag_eq (Nat.zero_le raw.length)
  -- without two tags both parsers throw the same
  rcases nextTag_cases raw 0 with
    ⟨hfirst, htags⟩ | ⟨first, btag, offset, hfirst, htags, -, -, hoffset⟩
  · rw [List.drop_zero] at htags
    refine iff_of_true ?_ (by rw [rootMeetsEmpty, htags])
    rcases hfirst with hfirst | hfirst
    · apply IsTotal.of_rejected "start tag not found"
      · rw [checkedParse, hzero, hfirst]
        rfl
      · rw [parse, hfirst]
        rfl
    · apply IsTotal.of_rejected "unexpected end of XML"
      · rw [checkedParse, hzero, hfirst]
        rfl
      · rw [parse, hfirst]
        rfl
  rw [List.drop_zero] at htags
  have hstart := checkedNextTag_eq hoffset
  rcases nextTag_cases raw offset with
    ⟨hsecond, htags'⟩ | ⟨root, btag', offset', hsecond, htags', -, -, hoffset'⟩
  · refine iff_of_true ?_ (by rw [rootMeetsEmpty, htags, htags'])
    rcases hsecond with hsecond | hsecond
    · apply IsTotal.of_rejected "start tag not found"
      · rw [checkedParse, hzero, hfirst]
        dsimp only [bind, Except.bind]
        rw [hstart, hsecond]
        rfl
      · rw [parse, hfirst]
        dsimp only [bind, Except.bind]
        rw [hsecond]
        rfl
    · apply IsTotal.of_rejected "unexpected end of XML"
      · rw [checkedParse, hzero, hfirst]
        dsimp only [bind, Except.bind]
        rw [hstart, hsecond]
      · rw [parse, hfirst]
        dsimp only [bind, Except.bind]
        rw [hsecond]
  · -- the second tag is the root, and the difference is in its nodes
    have hchecked : checkedParse raw = (do
        let (children, ontag, _) ← checkedProcessNode raw (fuelOf raw) root offset'
        pure (.mk root offset' (ontag - offset') children)) := by
      rw [checkedParse, hzero, hfirst]
      dsimp only [bind, Except.bind]
      rw [hstart, hsecond]
    have hplain : parse raw = (do
        let (children, ontag, _) ← processNode raw (fuelOf raw) root offset'
        pure (.mk root offset' (ontag - offset') children)) := by
      rw [parse, hfirst]
      dsimp only [bind, Except.bind]
      rw [hsecond]
    rw [rootMeetsEmpty, htags, htags']
    exact parse_of_tags hchecked hplain
      (checkedProcessNode_outcome hoffset' (by rw [fuelOf]; omega))

/-- An empty tag in the root is looked at before its first byte. -/
theorem not_isTotal : ¬ ∀ raw : Bytes, IsTotal raw := by
  intro h
  have hempty := (h (ascii "<?xml?><a><></></a>")).inBounds
  have hchecked : (checkedParse (ascii "<?xml?><a><></></a>")).map ParseNode.tag =
      .error outOfBounds := by
    decide +kernel
  have hplain : (parse (ascii "<?xml?><a><></></a>")).map ParseNode.tag = .ok (ascii "a") := by
    decide +kernel
  rw [← hempty, hchecked] at hplain
  exact absurd hplain (by decide)

end VplJail.Xml
