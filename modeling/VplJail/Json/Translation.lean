import VplJail.Json.Bounds

/-!
# Reading at another place

The parser reads a text behind another one as it reads it alone: the tree is the same, and all its
places are further on.
-/

namespace VplJail.Json

open Rpc Rpc.ParseNode Util

variable {u : Uninit}

/-- What the variables hold, by the places behind another text. -/
def Uninit.behind (u : Uninit) (n : ℕ) : Uninit :=
  fun i => u (n + i)

/-- They hold any values. -/
theorem Uninit.forall_behind_iff {P : Uninit → Prop} (n : ℕ) :
    (∀ u : Uninit, P (u.behind n)) ↔ ∀ u, P u := by
  refine ⟨fun h u => ?_, fun h u => h _⟩
  have hu : Uninit.behind (fun i => u (i - n)) n = u := by
    funext i
    rw [behind, Nat.add_sub_cancel_left]
  exact hu ▸ h _

/-- The same tree, further on in the text. -/
inductive Moved (n : ℕ) : ParseNode → ParseNode → Prop
  | mk (tag : Bytes) (offset len : ℕ) {ts ts' : List ParseNode} (h : List.Forall₂ (Moved n) ts ts') :
      Moved n (.mk tag (n + offset) len ts) (.mk tag offset len ts')

theorem Moved.setTag {n : ℕ} {t t' : ParseNode} (h : Moved n t t') (tag : Bytes) :
    Moved n (t.setTag tag) (t'.setTag tag) := by
  obtain ⟨tag', offset, len, h⟩ := h
  exact .mk tag offset len h

/-! ## Bytes, blanks and strings -/

section Leaves

variable {before s : Bytes} {fuel fuel' k limit : ℕ}

theorem drop_behind (before s : Bytes) (k : ℕ) :
    (before ++ s).drop (before.length + k) = s.drop k := by
  rw [← List.drop_drop, List.drop_left]

theorem charAt_behind (before s : Bytes) (k : ℕ) :
    charAt (before ++ s) (before.length + k) = charAt s k := by
  rw [charAt, charAt, List.getD_append_right _ _ _ _ (Nat.le_add_right _ _), Nat.add_sub_cancel_left]

theorem ignoreWhiteSpaces_behind (before s : Bytes) (k : ℕ) :
    ignoreWhiteSpaces (before ++ s) (before.length + k) =
      (before.length + ·) <$> ignoreWhiteSpaces s k := by
  rw [ignoreWhiteSpaces, ignoreWhiteSpaces, drop_behind]
  simp only [List.length_append, Nat.add_assoc, Nat.add_le_add_iff_left]
  split <;> rfl

theorem scanString_behind (hfuel : s.length - k < fuel) (hfuel' : s.length - k < fuel') :
    scanString (before ++ s) fuel (before.length + k) =
      (before.length + ·) <$> scanString s fuel' k := by
  induction fuel generalizing fuel' k with
  | zero => exact absurd hfuel (Nat.not_lt_zero _)
  | succ fuel ih =>
    obtain ⟨fuel', rfl⟩ : ∃ m, fuel' = m + 1 := ⟨fuel' - 1, by omega⟩
    rw [scanString, scanString]
    simp only [List.length_append, Nat.add_assoc, charAt_behind, Nat.add_le_add_iff_left,
      Nat.add_lt_add_iff_left]
    by_cases hend : s.length ≤ k
    · rw [if_pos hend, if_pos hend]
      rfl
    rw [if_neg hend, if_neg hend]
    by_cases hbackslash : charAt s k = 92
    · rw [if_pos hbackslash, if_pos hbackslash]
      by_cases htrailing : s.length ≤ k + 1
      · rw [if_pos htrailing, if_pos htrailing]
        rfl
      rw [if_neg htrailing, if_neg htrailing]
      split
      · exact ih (by omega) (by omega)
      · exact ih (by omega) (by omega)
    rw [if_neg hbackslash, if_neg hbackslash]
    split
    · rfl
    · exact ih (by omega) (by omega)

theorem decodeHexaUnicode_behind (hpos : 0 < s.length) :
    decodeHexaUnicode u (before ++ s) (before.length + k) =
      ((decodeHexaUnicode (u.behind before.length) s k).1,
        before.length + (decodeHexaUnicode (u.behind before.length) s k).2) := by
  rw [decodeHexaUnicode, decodeHexaUnicode]
  dsimp only [Uninit.behind]
  simp only [List.length_append, Nat.add_assoc, drop_behind, Nat.add_lt_add_iff_left]
  by_cases hend : s.length < k + 4
  · rw [if_pos hend, if_pos hend, Nat.add_sub_assoc hpos]
  rw [if_neg hend, if_neg hend]
  generalize readHex (u (before.length + k)) ((s.drop k).take 4) = unicode
  split_ifs <;> rfl

/-- A string decodes the same. -/
theorem decodeFrom_behind (hlimit : limit ≤ s.length) (hfuel : limit - k < fuel)
    (hfuel' : limit - k < fuel') :
    decodeFrom u (before ++ s) (before.length + limit) fuel (before.length + k) =
      decodeFrom (u.behind before.length) s limit fuel' k := by
  induction fuel generalizing fuel' k with
  | zero => exact absurd hfuel (Nat.not_lt_zero _)
  | succ fuel ih =>
    obtain ⟨fuel', rfl⟩ : ∃ m, fuel' = m + 1 := ⟨fuel' - 1, by omega⟩
    rw [decodeFrom, decodeFrom]
    simp only [Nat.add_assoc, charAt_behind, Nat.add_le_add_iff_left]
    by_cases hend : limit ≤ k
    · rw [if_pos hend, if_pos hend]
    rw [if_neg hend, if_neg hend]
    by_cases hbackslash : charAt s k = 92
    · rw [if_pos hbackslash, if_pos hbackslash]
      by_cases htrailing : limit ≤ k + 1
      · rw [if_pos htrailing, if_pos htrailing]
      rw [if_neg htrailing, if_neg htrailing]
      by_cases hu : charAt s (k + 1) = 117
      · obtain ⟨-, hnext⟩ := decodeHexaUnicode_spec (u := u.behind before.length)
          (show k + (1 + 1) ≤ s.length by omega)
        rw [if_pos hu, if_pos hu, decodeHexaUnicode_behind (by omega)]
        dsimp only
        rw [Nat.add_assoc, ih (by omega) (show _ < fuel' by omega)]
      · rw [if_neg hu, if_neg hu, ih (by omega) (show _ < fuel' by omega)]
    rw [if_neg hbackslash, if_neg hbackslash, ih (by omega) (show _ < fuel' by omega)]

theorem decodeJSONString_behind (before s : Bytes) (k len : ℕ) :
    decodeJSONString u (before ++ s) (before.length + k) len =
      decodeJSONString (u.behind before.length) s k len := by
  rw [decodeJSONString, decodeJSONString]
  simp only [List.length_append, Nat.add_assoc, Nat.add_le_add_iff_left]
  split
  · exact decodeFrom_behind ‹_› (by omega) (by omega)
  · exact decodeFrom_behind le_rfl (by omega) (by omega)

/-- A node reads the same. -/
theorem getString_behind {t t' : ParseNode} (h : Moved before.length t t') :
    getString u (before ++ s) t = getString (u.behind before.length) s t' := by
  obtain ⟨tag, offset, len, h⟩ := h
  rw [getString, getString]
  cases h with
  | nil => exact decodeJSONString_behind before s offset len
  | cons hchild hrest => rfl

end Leaves

/-! ## Nodes -/

/-- A node at a place behind `before` is the node at that place of `s`. -/
def NodeMoves (u : Uninit) (before s : Bytes) (fuel : ℕ) : Prop :=
  ∀ fuel' k, k < s.length → 2 * (s.length - k) < fuel → 2 * (s.length - k) < fuel' →
    Alike (fun r r' => Moved before.length r.1 r'.1 ∧ r.2 = before.length + r'.2)
      (processNode u (before ++ s) fuel (before.length + k))
      (processNode (u.behind before.length) s fuel' k)

/-- Likewise for the nodes between brackets. -/
def RowMoves (process : Uninit → Bytes → ℕ → ℕ → Except Thrown (List ParseNode × ℕ))
    (u : Uninit) (before s : Bytes) (fuel : ℕ) : Prop :=
  ∀ fuel' k, 2 * (s.length - k) + 1 < fuel → 2 * (s.length - k) + 1 < fuel' →
    Alike (fun r r' => List.Forall₂ (Moved before.length) r.1 r'.1 ∧ r.2 = before.length + r'.2)
      (process u (before ++ s) fuel (before.length + k))
      (process (u.behind before.length) s fuel' k)

section Turn

variable {before s : Bytes} {fuel : ℕ} (hnodes : NodeMoves u before s fuel)
  (hobjects : RowMoves processObject u before s fuel) (harrays : RowMoves processArray u before s fuel)

theorem isNodeAt_of_processNode {k : ℕ} {r : ParseNode × ℕ} (hk : k < s.length)
    (hfuel : 2 * (s.length - k) < fuel) (h : processNode u s fuel k = .ok r) : IsNodeAt s k r := by
  rcases ((process_agrees _ s fuel).1 k hk hfuel).outcome with ⟨r', hr', hnode⟩ | ⟨code, message, he⟩
  · rw [hr'] at h
    exact Except.ok.inj h ▸ hnode
  · rw [he] at h
    cases h

theorem ignoreWhiteSpaces_bounds {k next : ℕ} (h : ignoreWhiteSpaces s k = .ok next) :
    k ≤ next ∧ next < s.length := by
  rcases (ignoreWhiteSpaces_agrees s k).outcome with ⟨next', hnext', hbounds⟩ | ⟨code, message, he⟩
  · rw [hnext'] at h
    exact Except.ok.inj h ▸ hbounds
  · rw [he] at h
    cases h

theorem moved_bracket {r r' : List ParseNode × ℕ} {k : ℕ} (tag : Bytes)
    (h : List.Forall₂ (Moved before.length) r.1 r'.1 ∧ r.2 = before.length + r'.2) :
    Moved before.length (.mk tag (before.length + k) (r.2 - (before.length + k)) r.1)
      (.mk tag k (r'.2 - k) r'.1) ∧ r.2 + 1 = before.length + (r'.2 + 1) := by
  obtain ⟨hts, hlast⟩ := h
  rw [hlast, Nat.add_sub_add_left]
  exact ⟨.mk tag k _ hts, rfl⟩

include hobjects harrays in
theorem nodeMoves_succ : NodeMoves u before s (fuel + 1) := by
  intro fuel' k hk hfuel hfuel'
  obtain ⟨fuel', rfl⟩ : ∃ m, fuel' = m + 1 := ⟨fuel' - 1, by omega⟩
  rw [processNode, processNode, charAt_behind, drop_behind]
  by_cases hobject : charAt s k = 123
  · rw [if_pos hobject, if_pos hobject, Nat.add_assoc]
    exact (hobjects fuel' (k + 1) (by omega) (by omega)).bind fun r r' hr _ =>
      .ok (moved_bracket _ hr)
  rw [if_neg hobject, if_neg hobject]
  by_cases harray : charAt s k = 91
  · rw [if_pos harray, if_pos harray, Nat.add_assoc]
    exact (harrays fuel' (k + 1) (by omega) (by omega)).bind fun r r' hr _ =>
      .ok (moved_bracket _ hr)
  rw [if_neg harray, if_neg harray]
  by_cases hstring : charAt s k = 34
  · rw [if_pos hstring, if_pos hstring, Nat.add_assoc,
      scanString_behind (by rw [List.length_append]; omega) (show _ < s.length + 1 by omega)]
    refine (Alike.map _ _).bind fun last last' hlast _ => ?_
    rw [hlast, Nat.add_sub_add_left]
    exact .ok ⟨.mk _ _ _ .nil, rfl⟩
  rw [if_neg hstring, if_neg hstring]
  by_cases hnumber : charAt s k = 45 ∨ isDigit (charAt s k)
  · rw [if_pos hnumber, if_pos hnumber]
    exact .ok ⟨.mk _ _ _ .nil, Nat.add_assoc _ _ _⟩
  rw [if_neg hnumber, if_neg hnumber]
  -- the literals
  split
  · exact .ok ⟨.mk _ _ _ .nil, Nat.add_assoc _ _ _⟩
  split
  · exact .ok ⟨.mk _ _ _ .nil, Nat.add_assoc _ _ _⟩
  split
  · exact .ok ⟨.mk _ _ _ .nil, Nat.add_assoc _ _ _⟩
  · exact .error _ _

include hnodes harrays in
theorem arrayMoves_succ : RowMoves processArray u before s (fuel + 1) := by
  intro fuel' k hfuel hfuel'
  obtain ⟨fuel', rfl⟩ : ∃ m, fuel' = m + 1 := ⟨fuel' - 1, by omega⟩
  rw [processArray, processArray, List.length_append]
  by_cases hend : s.length ≤ k
  · rw [if_pos hend, if_pos (by omega)]
    exact .error _ _
  rw [if_neg hend, if_neg (by omega), ignoreWhiteSpaces_behind]
  apply (Alike.map _ _).bind
  rintro _ start rfl hstart
  have hbounds := ignoreWhiteSpaces_bounds hstart
  rw [charAt_behind]
  by_cases hclose : charAt s start = 93
  · rw [if_pos hclose, if_pos hclose]
    exact .ok ⟨.nil, rfl⟩
  rw [if_neg hclose, if_neg hclose]
  apply (hnodes fuel' start hbounds.2 (by omega) (by omega)).bind
  rintro ⟨v, _⟩ ⟨v', j⟩ ⟨hvalue, rfl⟩ hv
  have hlater : start < j := (isNodeAt_of_processNode hbounds.2 (by omega) hv).1
  dsimp only
  rw [ignoreWhiteSpaces_behind]
  apply (Alike.map _ _).bind
  rintro _ next rfl hnext
  have hnextbounds := ignoreWhiteSpaces_bounds hnext
  rw [charAt_behind]
  by_cases hcomma : charAt s next = 44
  · rw [if_pos hcomma, if_pos hcomma, Nat.add_assoc]
    refine (harrays fuel' (next + 1) (by omega) (by omega)).bind fun r r' hr _ => ?_
    exact .ok ⟨.cons hvalue hr.1, hr.2⟩
  rw [if_neg hcomma, if_neg hcomma]
  split
  · exact .error _ _
  · refine (harrays fuel' next (by omega) (by omega)).bind fun r r' hr _ => ?_
    exact .ok ⟨.cons hvalue hr.1, hr.2⟩

include hnodes hobjects in
theorem objectMoves_succ : RowMoves processObject u before s (fuel + 1) := by
  intro fuel' k hfuel hfuel'
  obtain ⟨fuel', rfl⟩ : ∃ m, fuel' = m + 1 := ⟨fuel' - 1, by omega⟩
  rw [processObject, processObject, List.length_append]
  by_cases hend : s.length ≤ k
  · rw [if_pos hend, if_pos (by omega)]
    exact .error _ _
  rw [if_neg hend, if_neg (by omega), ignoreWhiteSpaces_behind]
  apply (Alike.map _ _).bind
  rintro _ start rfl hstart
  have hbounds := ignoreWhiteSpaces_bounds hstart
  rw [charAt_behind]
  by_cases hclose : charAt s start = 125
  · rw [if_pos hclose, if_pos hclose]
    exact .ok ⟨.nil, rfl⟩
  rw [if_neg hclose, if_neg hclose]
  by_cases hquote : charAt s start = 34
  · rw [if_pos hquote, if_pos hquote]
    -- the name, a colon and the value
    apply (hnodes fuel' start hbounds.2 (by omega) (by omega)).bind
    rintro ⟨name, _⟩ ⟨name', i⟩ ⟨hname, rfl⟩ hnameok
    have hnamed : start < i := (isNodeAt_of_processNode hbounds.2 (by omega) hnameok).1
    dsimp only
    rw [ignoreWhiteSpaces_behind]
    apply (Alike.map _ _).bind
    rintro _ colon rfl hcolon
    have hcolonbounds := ignoreWhiteSpaces_bounds hcolon
    rw [charAt_behind]
    by_cases hmark : charAt s colon ≠ 58
    · rw [if_pos hmark, if_pos hmark]
      exact .error _ _
    rw [if_neg hmark, if_neg hmark, Nat.add_assoc, ignoreWhiteSpaces_behind]
    apply (Alike.map _ _).bind
    rintro _ begin rfl hbegin
    have hbeginbounds := ignoreWhiteSpaces_bounds hbegin
    apply (hnodes fuel' begin hbeginbounds.2 (by omega) (by omega)).bind
    rintro ⟨v, _⟩ ⟨v', j⟩ ⟨hvalue, rfl⟩ hv
    have hlater : begin < j := (isNodeAt_of_processNode hbeginbounds.2 (by omega) hv).1
    dsimp only
    rw [getString_behind hname]
    cases getString (u.behind before.length) s name' with
    | error e => exact .error _ _
    | ok tag =>
      rw [ok_bind, ok_bind, ignoreWhiteSpaces_behind]
      apply (Alike.map _ _).bind
      rintro _ next rfl hnext
      have hnextbounds := ignoreWhiteSpaces_bounds hnext
      rw [charAt_behind]
      by_cases hcomma : charAt s next = 44
      · rw [if_pos hcomma, if_pos hcomma, Nat.add_assoc]
        refine (hobjects fuel' (next + 1) (by omega) (by omega)).bind fun r r' hr _ => ?_
        exact .ok ⟨.cons (hvalue.setTag tag) hr.1, hr.2⟩
      rw [if_neg hcomma, if_neg hcomma]
      split
      · exact .error _ _
      · refine (hobjects fuel' next (by omega) (by omega)).bind fun r r' hr _ => ?_
        exact .ok ⟨.cons (hvalue.setTag tag) hr.1, hr.2⟩
  · rw [if_neg hquote, if_neg hquote]
    exact .error _ _

end Turn

/-- The parser reads the same at every place. -/
theorem process_behind (before s : Bytes) (fuel : ℕ) :
    NodeMoves u before s fuel ∧ RowMoves processObject u before s fuel ∧
      RowMoves processArray u before s fuel := by
  induction fuel with
  | zero =>
    exact ⟨fun _ _ _ h => absurd h (Nat.not_lt_zero _), fun _ _ h => absurd h (Nat.not_lt_zero _),
      fun _ _ h => absurd h (Nat.not_lt_zero _)⟩
  | succ fuel ih =>
    obtain ⟨hnodes, hobjects, harrays⟩ := ih
    exact ⟨nodeMoves_succ hobjects harrays, objectMoves_succ hnodes hobjects,
      arrayMoves_succ hnodes harrays⟩

end VplJail.Json
