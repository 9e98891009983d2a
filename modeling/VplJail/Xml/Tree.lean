import VplJail.Xml.Parser

/-!
# XML trees

Elements with text between them, and their rendering. The parser gives back every tree, and rejects
every sequence of tags that does not close the root or closes another element than the innermost one.
-/

namespace VplJail.Xml

open Rpc

/-! ## Documents -/

/-- A name of an element. -/
structure Name where
  bytes : Bytes
  ne_nil : bytes ≠ []
  no_lt : 60 ∉ bytes
  no_gt : 62 ∉ bytes
  head : bytes.head? ≠ some 47
  last : bytes.getLast? ≠ some 47

/-- Text between tags. -/
structure CharData where
  bytes : Bytes
  no_lt : 60 ∉ bytes

/-- What stands between the brackets of the XML declaration. -/
structure Declaration where
  bytes : Bytes
  no_gt : 62 ∉ bytes

/-- What stands between two tags. -/
inductive Content
  | last (text : CharData)
  | element (text : CharData) (name : Name) (inner rest : Content)
  | selfClosed (text : CharData) (name : Name) (rest : Content)

/-- A tag with its brackets. -/
def bracketed (tag : Bytes) : Bytes :=
  60 :: (tag ++ [62])

def Name.opening (name : Name) : Bytes :=
  bracketed name.bytes

def Name.closing (name : Name) : Bytes :=
  bracketed (47 :: name.bytes)

def Name.selfClosing (name : Name) : Bytes :=
  bracketed (name.bytes ++ [47])

/-- The text of the content. -/
def Content.render : Content → Bytes
  | last text => text.bytes
  | element text name inner rest =>
      text.bytes ++ (name.opening ++ (inner.render ++ (name.closing ++ rest.render)))
  | selfClosed text name rest => text.bytes ++ (name.selfClosing ++ rest.render)

/-- A document: the declaration, text, and the root. -/
structure Document where
  declaration : Declaration
  text : CharData
  root : Name
  inner : Content

/-- What stands before the content of the root. -/
def startText (declaration : Declaration) (text : CharData) (root : Name) : Bytes :=
  bracketed declaration.bytes ++ (text.bytes ++ root.opening)

def Document.render (d : Document) : Bytes :=
  startText d.declaration d.text d.root ++ (d.inner.render ++ d.root.closing)

/-- The nodes of a content: the same names, children and order, and the inner texts. -/
inductive Nodes (raw : Bytes) : Content → List ParseNode → Prop
  | last (text : CharData) : Nodes raw (.last text) []
  | element (text : CharData) {name : Name} {inner rest : Content} {t : ParseNode}
      {ts : List ParseNode} (htag : t.tag = name.bytes) (hraw : t.rawContent raw = inner.render)
      (hinner : Nodes raw inner t.children) (hrest : Nodes raw rest ts) :
      Nodes raw (.element text name inner rest) (t :: ts)
  | selfClosed (text : CharData) {name : Name} {rest : Content} {t : ParseNode}
      {ts : List ParseNode} (htag : t.tag = name.bytes) (hchildren : t.children = [])
      (hrest : Nodes raw rest ts) : Nodes raw (.selfClosed text name rest) (t :: ts)

/-! ## One tag -/

/-- The next tag behind text. -/
theorem nextTag_of_drop {raw text tag rest : Bytes} {offset : ℕ} (htext : 60 ∉ text)
    (htag : 62 ∉ tag) (h : raw.drop offset = text ++ (bracketed tag ++ rest)) :
    nextTag raw offset =
        .ok (some (tag, offset + text.length, offset + text.length + tag.length + 2)) ∧
      raw.drop (offset + text.length + tag.length + 2) = rest := by
  have htag' : raw.drop (offset + text.length) = 60 :: (tag ++ 62 :: rest) := by
    rw [drop_of_append h rfl]
    simp [bracketed]
  have hlength := length_of_drop htag' (List.cons_ne_nil _ _)
  simp only [List.length_cons, List.length_append] at hlength
  have htext' : ∀ b ∈ text, decide (b ≠ 60) = true :=
    fun b hb => decide_eq_true fun h => htext (h ▸ hb)
  have htag'' : ∀ b ∈ 60 :: tag, decide (b ≠ 62) = true := by
    refine List.forall_mem_cons.mpr ⟨rfl, fun b hb => decide_eq_true fun h => htag (h ▸ hb)⟩
  have hbtag : (raw.drop offset).takeWhile (· ≠ 60) = text := by
    rw [h, List.takeWhile_append_of_pos htext', bracketed, List.cons_append,
      List.takeWhile_cons_of_neg (by decide), List.append_nil]
  have hetag : (raw.drop (offset + text.length)).takeWhile (· ≠ 62) = 60 :: tag := by
    rw [htag', ← List.cons_append, List.takeWhile_append_of_pos htag'',
      List.takeWhile_cons_of_neg (by decide), List.append_nil]
  have hnext := drop_of_cons (drop_of_append (drop_of_cons htag') rfl)
  have hend : offset + text.length + 1 + tag.length + 1 = offset + text.length + tag.length + 2 := by
    omega
  rw [hend] at hnext
  refine ⟨?_, hnext⟩
  have hpart : part raw (offset + text.length + 1) (offset + text.length + (60 :: tag).length) =
      tag := take_of_append (drop_of_cons htag') (by rw [List.length_cons]; omega)
  rw [nextTag, hbtag]
  dsimp only
  rw [if_neg (by omega), hetag, if_neg (by rw [List.length_cons]; omega), hpart]
  rw [List.length_cons, show offset + text.length + (tag.length + 1) + 1 =
    offset + text.length + tag.length + 2 by omega]
  rfl

/-- Without a further tag there is none to find. -/
theorem nextTag_none {raw text : Bytes} {offset : ℕ} (htext : 60 ∉ text)
    (h : raw.drop offset = text) : nextTag raw offset = .ok none := by
  have htext' : ∀ b ∈ text, decide (b ≠ 60) = true :=
    fun b hb => decide_eq_true fun h => htext (h ▸ hb)
  have hlength := congrArg List.length h
  rw [List.length_drop] at hlength
  rw [nextTag, h, List.takeWhile_eq_self_iff.mpr htext']
  exact if_pos (by omega)

/-! ## One turn of the loop -/

theorem Name.no_gt_closing (name : Name) : 62 ∉ 47 :: name.bytes :=
  fun h => (List.mem_cons.mp h).elim (by decide) name.no_gt

theorem Name.no_gt_selfClosing (name : Name) : 62 ∉ name.bytes ++ [47] :=
  fun h => (List.mem_append.mp h).elim name.no_gt (by decide)

section Turn

variable {raw rest : Bytes} {offset : ℕ} (fuel : ℕ) (text : CharData) (name : Bytes)

/-- An end tag: it ends the node or is the wrong one. -/
theorem processNode_closing {closed : Name}
    (h : raw.drop offset = text.bytes ++ (closed.closing ++ rest)) :
    processNode raw (fuel + 1) name offset =
        (if name = closed.bytes then
          .ok ([], offset + text.bytes.length,
            offset + text.bytes.length + closed.bytes.length + 3)
        else .error (parseError "unexpected end of tag")) ∧
      raw.drop (offset + text.bytes.length + closed.bytes.length + 3) = rest := by
  obtain ⟨htag, hnext⟩ := nextTag_of_drop text.no_lt closed.no_gt_closing h
  refine ⟨?_, hnext⟩
  rw [processNode, htag]
  rfl

/-- A tag closed in itself: a child without text. -/
theorem processNode_selfClosing {child : Name}
    (h : raw.drop offset = text.bytes ++ (child.selfClosing ++ rest)) :
    processNode raw (fuel + 1) name offset = (do
        let (ts, last, next) ← processNode raw fuel name
          (offset + text.bytes.length + child.bytes.length + 3)
        pure (.mk child.bytes (offset + text.bytes.length + child.bytes.length + 3) 0 [] :: ts,
          last, next)) ∧
      raw.drop (offset + text.bytes.length + child.bytes.length + 3) = rest := by
  obtain ⟨htag, hnext⟩ := nextTag_of_drop text.no_lt child.no_gt_selfClosing h
  rw [List.length_append, List.length_singleton] at htag hnext
  have hhead : (child.bytes ++ [47]).head? ≠ some 47 := by
    obtain ⟨b, bs, hcons⟩ := List.exists_cons_of_ne_nil child.ne_nil
    have hb := child.head
    rw [hcons] at hb ⊢
    exact hb
  refine ⟨?_, hnext⟩
  rw [processNode, htag]
  dsimp only [bind, Except.bind]
  rw [if_neg hhead, if_pos (by rw [List.getLast?_concat]), List.dropLast_concat]
  rfl

/-- A start tag: a child, and what follows it. -/
theorem processNode_opening {child : Name}
    (h : raw.drop offset = text.bytes ++ (child.opening ++ rest)) :
    processNode raw (fuel + 1) name offset = (do
        let (children, ontag, next) ← processNode raw fuel child.bytes
          (offset + text.bytes.length + child.bytes.length + 2)
        let (ts, last, next) ← processNode raw fuel name next
        pure (.mk child.bytes (offset + text.bytes.length + child.bytes.length + 2)
          (ontag - (offset + text.bytes.length + child.bytes.length + 2)) children :: ts,
          last, next)) ∧
      raw.drop (offset + text.bytes.length + child.bytes.length + 2) = rest := by
  obtain ⟨htag, hnext⟩ := nextTag_of_drop text.no_lt child.no_gt h
  refine ⟨?_, hnext⟩
  rw [processNode, htag]
  dsimp only [bind, Except.bind]
  rw [if_neg child.head, if_neg child.last]

/-- Without a further tag the node is not closed. -/
theorem processNode_unclosed (h : raw.drop offset = text.bytes) :
    processNode raw (fuel + 1) name offset = .error (parseError "end tag not found") := by
  rw [processNode, nextTag_none text.no_lt h]
  rfl

end Turn

/-! ## Trees -/

/-- The content of an element up to its end tag. -/
theorem processNode_render {raw rest : Bytes} {content : Content} {name : Name} {fuel offset : ℕ}
    (h : raw.drop offset = content.render ++ (name.closing ++ rest))
    (hfuel : content.render.length < fuel) :
    ∃ ts, processNode raw fuel name.bytes offset =
        .ok (ts, offset + content.render.length,
          offset + content.render.length + name.bytes.length + 3) ∧
      raw.drop (offset + content.render.length + name.bytes.length + 3) = rest ∧
      Nodes raw content ts := by
  induction content generalizing name fuel offset rest with
  | last text =>
    obtain ⟨fuel, rfl⟩ := Nat.exists_eq_succ_of_ne_zero (by omega : fuel ≠ 0)
    obtain ⟨hnode, hnext⟩ := processNode_closing fuel text name.bytes h
    rw [if_pos rfl] at hnode
    exact ⟨[], hnode, hnext, .last text⟩
  | element text child inner rest' ihinner ihrest =>
    obtain ⟨fuel, rfl⟩ := Nat.exists_eq_succ_of_ne_zero (by omega : fuel ≠ 0)
    simp only [Content.render, List.append_assoc] at h hfuel ⊢
    have hopening : child.opening.length = child.bytes.length + 2 := by
      simp [Name.opening, bracketed]
    have hclosing : child.closing.length = child.bytes.length + 3 := by
      simp [Name.closing, bracketed]
    simp only [List.length_append, hopening, hclosing] at hfuel ⊢
    -- the opening tag, what is inside up to the closing tag, and what follows
    obtain ⟨hnode, hinner⟩ := processNode_opening fuel text name.bytes h
    obtain ⟨children, hchildren, hrest, hshape⟩ :=
      ihinner hinner (show inner.render.length < fuel by omega)
    obtain ⟨ts, hts, hnext, hshapes⟩ := ihrest hrest (show rest'.render.length < fuel by omega)
    have hlast : offset + text.bytes.length + child.bytes.length + 2 + inner.render.length +
        child.bytes.length + 3 + rest'.render.length = offset + (text.bytes.length +
          (child.bytes.length + 2 + (inner.render.length + (child.bytes.length + 3 +
            rest'.render.length)))) := by omega
    rw [hlast] at hts hnext
    have hcontent : (ParseNode.mk child.bytes (offset + text.bytes.length + child.bytes.length + 2)
        (offset + text.bytes.length + child.bytes.length + 2 + inner.render.length -
          (offset + text.bytes.length + child.bytes.length + 2)) children).rawContent raw =
        inner.render := take_of_append hinner (Nat.add_sub_cancel_left _ _).symm
    refine ⟨_ :: ts, ?_, hnext, .element text rfl hcontent hshape hshapes⟩
    rw [hnode, hchildren]
    dsimp only [bind, Except.bind]
    rw [hts]
    rfl
  | selfClosed text child rest' ihrest =>
    obtain ⟨fuel, rfl⟩ := Nat.exists_eq_succ_of_ne_zero (by omega : fuel ≠ 0)
    simp only [Content.render, List.append_assoc] at h hfuel ⊢
    have hclosing : child.selfClosing.length = child.bytes.length + 3 := by
      simp [Name.selfClosing, bracketed]
    simp only [List.length_append, hclosing] at hfuel ⊢
    obtain ⟨hnode, hrest⟩ := processNode_selfClosing fuel text name.bytes h
    obtain ⟨ts, hts, hnext, hshapes⟩ := ihrest hrest (show rest'.render.length < fuel by omega)
    have hlast : offset + text.bytes.length + child.bytes.length + 3 + rest'.render.length =
        offset + (text.bytes.length + (child.bytes.length + 3 + rest'.render.length)) := by omega
    rw [hlast] at hts hnext
    refine ⟨.mk child.bytes (offset + text.bytes.length + child.bytes.length + 3) 0 [] :: ts, ?_,
      hnext, .selfClosed text rfl rfl hshapes⟩
    rw [hnode, hts]
    rfl

/-- The first two tags of a document. -/
theorem parse_start {raw rest : Bytes} {declaration : Declaration} {text : CharData} {root : Name}
    (h : raw = startText declaration text root ++ rest) :
    ∃ offset, raw.drop offset = rest ∧ offset + rest.length = raw.length ∧ parse raw = (do
      let (children, ontag, _) ← processNode raw (fuelOf raw) root.bytes offset
      pure (.mk root.bytes offset (ontag - offset) children)) := by
  have hraw : raw.drop 0 = [] ++ (bracketed declaration.bytes ++ (text.bytes ++
      (bracketed root.bytes ++ rest))) := by
    rw [List.drop_zero, h]
    simp [startText, Name.opening]
  obtain ⟨hfirst, hdrop⟩ := nextTag_of_drop List.not_mem_nil declaration.no_gt hraw
  obtain ⟨hsecond, hdrop'⟩ := nextTag_of_drop text.no_lt root.no_gt hdrop
  refine ⟨_, hdrop', ?_, ?_⟩
  · rw [h]
    simp [startText, bracketed, Name.opening]
    omega
  · rw [parse, hfirst]
    dsimp only [bind, Except.bind]
    rw [hsecond]

/-- The text of a document is parsed into its tree, whatever follows it. -/
theorem parse_render_append (d : Document) (after : Bytes) :
    ∃ root, parse (d.render ++ after) = .ok root ∧ root.tag = d.root.bytes ∧
      root.rawContent (d.render ++ after) = d.inner.render ∧
      Nodes (d.render ++ after) d.inner root.children := by
  have hraw : d.render ++ after = startText d.declaration d.text d.root ++
      (d.inner.render ++ (d.root.closing ++ after)) := by
    simp only [Document.render, List.append_assoc]
  obtain ⟨offset, hdrop, hlength, hparse⟩ := parse_start hraw
  obtain ⟨ts, hnode, -, hnodes⟩ := processNode_render hdrop
    (show d.inner.render.length < fuelOf (d.render ++ after) by
      rw [fuelOf, ← hlength, List.length_append]; omega)
  rw [hnode] at hparse
  exact ⟨_, hparse, rfl, take_of_append hdrop (Nat.add_sub_cancel_left _ _).symm, hnodes⟩

/-! ## Sequences of tags -/

/-- A tag. -/
inductive Tag
  | opening (name : Name)
  | closing (name : Name)
  | selfClosing (name : Name)

def Tag.render : Tag → Bytes
  | opening name => name.opening
  | closing name => name.closing
  | selfClosing name => name.selfClosing

/-- Tags with text before them, and the text behind the last one. -/
def renderTags (after : CharData) : List (CharData × Tag) → Bytes
  | [] => after.bytes
  | (text, tag) :: tags => text.bytes ++ (tag.render ++ renderTags after tags)

/-- Whether tags close the elements that are open, the innermost one first: the tags behind the one
that closes the last of them are not looked at. -/
def Closes : List Name → List Tag → Prop
  | [], _ => True
  | _ :: _, [] => False
  | top :: stack, .opening name :: tags => Closes (name :: top :: stack) tags
  | top :: stack, .closing name :: tags => top.bytes = name.bytes ∧ Closes stack tags
  | top :: stack, .selfClosing _ :: tags => Closes (top :: stack) tags

/-- A node whose tags do not close the open elements: the parser gives up in it, or reads its end tag
and what follows does not close the elements around it. The second case is what a parent goes on
with. -/
theorem processNode_not_closes {raw : Bytes} {after : CharData} {fuel offset : ℕ} {name : Name}
    {stack : List Name} {tags : List (CharData × Tag)} (h : raw.drop offset = renderTags after tags)
    (hfuel : tags.length < fuel) (hopen : ¬ Closes (name :: stack) (tags.map Prod.snd)) :
    (∃ message, processNode raw fuel name.bytes offset = .error (.http badRequestCode message)) ∨
      ∃ r tags', processNode raw fuel name.bytes offset = .ok r ∧
        raw.drop r.2.2 = renderTags after tags' ∧ tags'.length < tags.length ∧
        ¬ Closes stack (tags'.map Prod.snd) := by
  -- the rest of the tags that a node leaves does not close the tags around it
  induction fuel generalizing offset name stack tags with
  | zero => exact absurd hfuel (Nat.not_lt_zero _)
  | succ fuel ih =>
    match tags, h, hfuel, hopen with
    | [], h, hfuel, hopen => exact .inl ⟨_, processNode_unclosed fuel after name.bytes h⟩
    | (text, .closing closed) :: tags, h, hfuel, hopen =>
      obtain ⟨hnode, hnext⟩ := processNode_closing fuel text name.bytes h
      by_cases hname : name.bytes = closed.bytes
      · rw [if_pos hname] at hnode
        exact .inr ⟨_, tags, hnode, hnext, Nat.lt_succ_self _, fun hrest => hopen ⟨hname, hrest⟩⟩
      · rw [if_neg hname] at hnode
        exact .inl ⟨_, hnode⟩
    | (text, .selfClosing child) :: tags, h, hfuel, hopen =>
      obtain ⟨hnode, hnext⟩ := processNode_selfClosing fuel text name.bytes h
      rw [hnode]
      rcases ih hnext (Nat.lt_of_succ_lt_succ hfuel) hopen with
        ⟨message, hrest⟩ | ⟨r, tags', hrest, hdrop, hlength, hclose⟩
      · rw [hrest]
        exact .inl ⟨message, rfl⟩
      · rw [hrest]
        exact .inr ⟨_, tags', rfl, hdrop, Nat.lt_succ_of_lt hlength, hclose⟩
    | (text, .opening child) :: tags, h, hfuel, hopen =>
      obtain ⟨hnode, hnext⟩ := processNode_opening fuel text name.bytes h
      rw [hnode]
      rcases ih hnext (Nat.lt_of_succ_lt_succ hfuel) hopen with
        ⟨message, hchild⟩ | ⟨r, tags', hchild, hdrop, hlength, hclose⟩
      · rw [hchild]
        exact .inl ⟨message, rfl⟩
      · rw [hchild]
        dsimp only [bind, Except.bind]
        rcases ih hdrop (hlength.trans (Nat.lt_of_succ_lt_succ hfuel)) hclose with
          ⟨message, hrest⟩ | ⟨r', tags'', hrest, hdrop', hlength', hclose'⟩
        · rw [hrest]
          exact .inl ⟨message, rfl⟩
        · rw [hrest]
          exact .inr ⟨_, tags'', rfl, hdrop', hlength'.trans (Nat.lt_succ_of_lt hlength), hclose'⟩

/-- Every tag takes room. -/
theorem length_le_renderTags (after : CharData) (tags : List (CharData × Tag)) :
    tags.length ≤ (renderTags after tags).length := by
  induction tags with
  | nil => exact Nat.zero_le _
  | cons tag tags ih =>
    obtain ⟨text, tag⟩ := tag
    have htag : 0 < tag.render.length := by
      cases tag <;> exact Nat.succ_pos _
    simp only [renderTags, List.length_append, List.length_cons]
    omega

/-- Tags that do not close the root, or close another element than the innermost one, are
rejected. -/
theorem parse_not_closes (declaration : Declaration) (text after : CharData) (root : Name)
    {tags : List (CharData × Tag)} (h : ¬ Closes [root] (tags.map Prod.snd)) :
    ∃ message, parse (startText declaration text root ++ renderTags after tags) =
      .error (.http badRequestCode message) := by
  obtain ⟨offset, hdrop, hlength, hparse⟩ := parse_start
    (show startText declaration text root ++ renderTags after tags = _ from rfl)
  have hle := length_le_renderTags after tags
  have hfuel : tags.length < fuelOf (startText declaration text root ++ renderTags after tags) := by
    rw [fuelOf, ← hlength]
    omega
  rcases processNode_not_closes hdrop hfuel h with ⟨message, hnode⟩ | ⟨_, _, _, _, _, hclose⟩
  · rw [hparse, hnode]
    exact ⟨message, rfl⟩
  · exact absurd (by rw [Closes]; trivial) hclose

/-- Every tree survives rendering and parsing, and every text of tags in which the root is not closed
or another element than the innermost one is closed is rejected. -/
theorem parse_document :
    (∀ d : Document, ∃ root, parse d.render = .ok root ∧ root.tag = d.root.bytes ∧
      root.rawContent d.render = d.inner.render ∧ Nodes d.render d.inner root.children) ∧
    ∀ (declaration : Declaration) (text after : CharData) (root : Name)
      (tags : List (CharData × Tag)), ¬ Closes [root] (tags.map Prod.snd) →
      ∃ message, parse (startText declaration text root ++ renderTags after tags) =
        .error (.http badRequestCode message) :=
  ⟨fun d => List.append_nil d.render ▸ parse_render_append d [],
    fun declaration text after root _ h => parse_not_closes declaration text after root h⟩

/-- Two elements, and the outer one closed as another. -/
theorem parse_document_ab :
    (∃ root, parse (ascii "<?xml?>\n<a>x<b/></a>") = .ok root ∧ root.tag = ascii "a") ∧
      ∃ message, parse (ascii "<?xml?>\n<a>x</b>") = .error (.http badRequestCode message) := by
  let declaration : Declaration := ⟨ascii "?xml?", by decide⟩
  let newline : CharData := ⟨[10], by decide⟩
  let x : CharData := ⟨[120], by decide⟩
  let empty : CharData := ⟨[], by decide⟩
  let a : Name := ⟨[97], by decide, by decide, by decide, by decide, by decide⟩
  let b : Name := ⟨[98], by decide, by decide, by decide, by decide, by decide⟩
  have hdifferent : ¬ Closes [a] [.closing b] := by
    intro h
    rw [Closes] at h
    exact absurd h.1 (by decide)
  exact ⟨(parse_document.1 ⟨declaration, newline, a, .selfClosed x b (.last empty)⟩).imp
      fun _ h => ⟨h.1, h.2.1⟩,
    parse_document.2 declaration newline empty a [(x, .closing b)] hdifferent⟩

end VplJail.Xml
