import VplJail.Rpc.XmlRpc
import VplJail.Util.Numerals

/-!
# The numbers of XML-RPC replies

A number above `INT32_MAX` is written as a `double`, by `%lg`, and `getLong` reads no `double` above
`INT_MAX`. So a number is read back exactly if it is not above `INT32_MAX` (`numberExact_iff`), and
its numeral denotes it besides if it has at most six significant digits.
-/

namespace VplJail.Rpc

open Util Xml

/-- The library whose `atof` reads the numeral of an integer as the `double` nearest to it. -/
structure FloatLib.ReadsIntegers (lib : FloatLib) : Prop where
  atof_eq : ∀ (numeral : Bytes) (n : ℤ), n.natAbs ≤ 2 ^ 63 → decimalValue numeral = some (n : ℚ) →
    lib.atof numeral = toDouble n

/-- A library that reads decimal numerals only, up to their point. -/
def FloatLib.numerals : FloatLib :=
  { FloatLib.integers with
    atof := fun text => (decimalValue text).elim 0 fun q => toDouble (q.num.tdiv q.den) }

theorem readsIntegers_numerals : FloatLib.numerals.ReadsIntegers where
  atof_eq numeral n _ h := by
    simp [FloatLib.numerals, h]

namespace XmlRpc

theorem no_lt_dtos (n : ℤ) : 60 ∉ dtos n := by
  intro h
  rcases mem_dtos h with h | h
  · cases h
  · exact absurd h (by decide)

/-- The library with `%lg`. -/
def lgDtos : Dtos :=
  ⟨dtos, no_lt_dtos⟩

/-- The node of the value of a member of a reply. -/
def valueNode (text : Bytes) (i : ℕ) : Except Thrown ParseNode := do
  let root ← parse text
  let params ← root.child "params"
  let param ← params.child "param"
  let st ← param.child "struct"
  let member ← st.childAt i
  let value ← member.child "value"
  value.childAt 0

/-- A number of a reply is exact: its numeral denotes it, and it is read back. -/
def NumberExact (lib : FloatLib) (text : Bytes) (i : ℕ) (n : ℤ) : Prop :=
  ∃ node, valueNode text i = .ok node ∧
    decimalValue (node.rawContent text) = some (n : ℚ) ∧ (node.view .xml text).getLong lib = .ok n

theorem exists_getElem_nodes (lib : Dtos) {raw : Bytes} {members : List (Bytes × MemberValue)}
    {ts : List ParseNode} (h : Nodes raw (structContent lib members) ts) {i : ℕ}
    {m : Bytes × MemberValue} (hi : members[i]? = some m) :
    ∃ t, ts[i]? = some t ∧ Nodes raw (memberContent lib m) t.children := by
  induction members generalizing ts i with
  | nil => simp at hi
  | cons m' members ih =>
      obtain _ | ⟨-, -, -, hinner, hrest⟩ := h
      cases i with
      | zero =>
          obtain rfl := Option.some.inj hi
          exact ⟨_, rfl, hinner⟩
      | succ i => exact ih hrest hi

/-- The node of a number has the tag and the text of the number. -/
theorem exists_valueNode (lib : Dtos) {members : List (Bytes × MemberValue)} {i : ℕ} {name : Bytes}
    {n : Int64} (hi : members[i]? = some (name, .number n)) :
    ∃ node, valueNode (response lib members) i = .ok node ∧
      node.tag = (if n.toInt ≤ int32Max then ascii "int" else ascii "double") ∧
      node.rawContent (response lib members) = (numberText lib n).bytes := by
  obtain ⟨root, hparse, htag, -, hnodes⟩ := parse_render_append (document lib members) [10]
  rw [← response_eq] at hparse hnodes
  obtain ⟨params, hparams, -, hnodes⟩ := child_of_nodes hnodes rfl
  obtain ⟨param, hparam, -, hnodes⟩ := child_of_nodes hnodes rfl
  obtain ⟨st, hst, -, hnodes⟩ := child_of_nodes hnodes rfl
  obtain ⟨member, hmember, hnodes⟩ := exists_getElem_nodes lib hnodes hi
  obtain ⟨-, value, -, -, hvalue, -, -, hinner⟩ := children_of_nodes hnodes rfl rfl (by decide)
  generalize hchildren : value.children = ts at hinner
  obtain _ | ⟨-, htag, hraw, -, hrest⟩ := hinner
  cases hrest
  refine ⟨_, ?_, htag.trans ?_, hraw⟩
  · simp only [valueNode, bind, Except.bind, hparse, hparams, hparam, hst, ParseNode.childAt,
      hmember, pure, Except.pure, hvalue, hchildren]
    rfl
  · split <;> rfl

/-- What `getLong` reads of a `double` is not above `INT_MAX`. -/
theorem getLong_double_le {lib : FloatLib} {node : TreeNode} (htag : node.tag = ascii "double")
    (hencoding : node.encoding = .xml) (hlow : -2 ^ 63 ≤ lib.atof node.rawContent) {n : ℤ}
    (h : node.getLong lib = .ok n) : n ≤ intMax := by
  have hint : ¬ (node.encoding = .json ∨ node.tag = ascii "int") := by
    rw [hencoding, htag]
    decide
  rw [TreeNode.getLong, if_neg hint, if_pos htag] at h
  obtain rfl := Except.ok.inj h
  split_ifs with hle
  · exact le_rfl
  · have hmax : intMax = 2 ^ 31 - 1 := rfl
    rw [lib.toLong_eq _ hlow (by omega)]
    exact not_lt.mp hle

/-- The numeral of a number denotes it if it is not above `INT32_MAX`, or has at most six
significant digits. -/
theorem decimalValue_numberText_iff {n : Int64} (hlow : -2 ^ 53 ≤ n.toInt)
    (hhigh : n.toInt ≤ 2 ^ 53) :
    decimalValue (numberText lgDtos n).bytes = some (n.toInt : ℚ) ↔
      n.toInt ≤ int32Max ∨ ∃ m k, m < 10 ^ 6 ∧ n.toInt.natAbs = m * 10 ^ k := by
  by_cases hle : n.toInt ≤ int32Max
  · rw [numberText, if_pos hle]
    exact iff_of_true (decimalValue_itos n.toInt) (.inl hle)
  · rw [numberText, if_neg hle, or_iff_right hle]
    exact decimalValue_dtos_iff hlow hhigh

/-- `atof` of a numeral of `%lg`. -/
theorem atof_dtos {lib : FloatLib} (hlib : lib.ReadsIntegers) {n : ℤ} (h0 : 0 ≤ n)
    (hhigh : n ≤ 2 ^ 53) : 0 ≤ lib.atof (dtos n) := by
  have hrounded : 0 ≤ n.sign * roundTo 10 6 n.natAbs :=
    Int.mul_nonneg (Int.sign_nonneg_iff.mpr h0) (Int.natCast_nonneg _)
  have hle : (n.sign * roundTo 10 6 n.natAbs).natAbs ≤ 2 ^ 63 := by
    have hround : roundTo 10 6 n.natAbs ≤ 2 * n.natAbs := roundTo_le (by decide) (by decide)
    have hsign : n.sign.natAbs ≤ 1 := by
      rw [Int.natAbs_sign]
      split <;> omega
    rw [Int.natAbs_mul, Int.natAbs_natCast]
    exact (Nat.mul_le_mul_right _ hsign).trans (by omega)
  rw [hlib.atof_eq _ _ hle (decimalValue_dtos (by omega) hhigh)]
  exact Int.mul_nonneg (Int.sign_nonneg_iff.mpr hrounded) (Int.natCast_nonneg _)

/-- The node of a number is read as the number if it is not above `INT32_MAX`. -/
theorem getLong_numberNode_iff {lib : FloatLib} (hlib : lib.ReadsIntegers) {raw : Bytes}
    {node : ParseNode} {n : Int64} (hhigh : n.toInt ≤ 2 ^ 53)
    (htag : node.tag = (if n.toInt ≤ int32Max then ascii "int" else ascii "double"))
    (hcontent : node.rawContent raw = (numberText lgDtos n).bytes) :
    (node.view .xml raw).getLong lib = .ok n.toInt ↔ n.toInt ≤ int32Max := by
  by_cases hle : n.toInt ≤ int32Max
  · refine iff_of_true ?_ hle
    rw [if_pos hle] at htag
    rw [TreeNode.getLong, if_pos (.inr htag), ParseNode.view, hcontent, numberText, if_pos hle]
    exact congrArg Except.ok (strtol_itos (Int64.le_toInt n) (Int64.toInt_lt n))
  · -- a `double`, which is not read above `INT_MAX` whatever its numeral is
    refine iff_of_false (fun hlong => hle ?_) hle
    have hmax : intMax = int32Max := rfl
    have hmax' : int32Max = 2 ^ 31 - 1 := rfl
    rw [if_neg hle] at htag
    rw [numberText, if_neg hle] at hcontent
    have hatof : 0 ≤ lib.atof (node.rawContent raw) := by
      rw [hcontent]
      exact atof_dtos hlib (by omega) hhigh
    exact hmax ▸ getLong_double_le htag rfl (le_trans (by decide) hatof) hlong

/-- A number is exact if and only if it is not above `INT32_MAX`. -/
theorem numberExact_response {lib : FloatLib} (hlib : lib.ReadsIntegers)
    {members : List (Bytes × MemberValue)} {i : ℕ} {name : Bytes} {n : Int64}
    (hi : members[i]? = some (name, .number n)) (hlow : -2 ^ 53 ≤ n.toInt)
    (hhigh : n.toInt ≤ 2 ^ 53) :
    NumberExact lib (response lgDtos members) i n.toInt ↔ n.toInt ≤ int32Max := by
  obtain ⟨node, hnode, htag, hcontent⟩ := exists_valueNode lgDtos hi
  have hlong := getLong_numberNode_iff hlib hhigh htag hcontent
  constructor
  · rintro ⟨node', hnode', -, hread⟩
    obtain rfl := Except.ok.inj (hnode.symm.trans hnode')
    exact hlong.mp hread
  · intro hle
    refine ⟨node, hnode, ?_, hlong.mpr hle⟩
    rw [hcontent]
    exact (decimalValue_numberText_iff hlow hhigh).mpr (.inl hle)

/-- A number up to 2 ^ 53 is exact if and only if it is not above `INT32_MAX`: above, it is never
read back, and its numeral denotes it if it has at most six significant digits. So the limits of
`availableResponse` are exact if and only if both are not above `INT32_MAX`. -/
theorem numberExact_iff {lib : FloatLib} (hlib : lib.ReadsIntegers) :
    (∀ (members : List (Bytes × MemberValue)) (i : ℕ) (name : Bytes) (n : Int64),
      members[i]? = some (name, .number n) → -2 ^ 53 ≤ n.toInt → n.toInt ≤ 2 ^ 53 →
      (NumberExact lib (response lgDtos members) i n.toInt ↔ n.toInt ≤ int32Max) ∧
      ∃ node, valueNode (response lgDtos members) i = .ok node ∧
        (decimalValue (node.rawContent (response lgDtos members)) = some (n.toInt : ℚ) ↔
          n.toInt ≤ int32Max ∨ ∃ m k, m < 10 ^ 6 ∧ n.toInt.natAbs = m * 10 ^ k) ∧
        ((node.view .xml (response lgDtos members)).getLong lib = .ok n.toInt ↔
          n.toInt ≤ int32Max)) ∧
    ∀ (status : Bytes) (load maxtime : Int32) (maxfilesize maxmemory : Int64)
      (maxprocesses secureport : Int32), -2 ^ 53 ≤ maxfilesize.toInt →
      maxfilesize.toInt ≤ 2 ^ 53 → -2 ^ 53 ≤ maxmemory.toInt → maxmemory.toInt ≤ 2 ^ 53 →
      (NumberExact lib (availableResponse lgDtos status load maxtime maxfilesize maxmemory
          maxprocesses secureport) 3 maxfilesize.toInt ∧
        NumberExact lib (availableResponse lgDtos status load maxtime maxfilesize maxmemory
          maxprocesses secureport) 4 maxmemory.toInt ↔
        maxfilesize.toInt ≤ int32Max ∧ maxmemory.toInt ≤ int32Max) := by
  constructor
  · intro members i name n hi hlow hhigh
    obtain ⟨node, hnode, htag, hcontent⟩ := exists_valueNode lgDtos hi
    refine ⟨numberExact_response hlib hi hlow hhigh, node, hnode, ?_,
      getLong_numberNode_iff hlib hhigh htag hcontent⟩
    rw [hcontent]
    exact decimalValue_numberText_iff hlow hhigh
  · intro status load maxtime maxfilesize maxmemory maxprocesses secureport hlow hhigh hlow' hhigh'
    exact and_congr (numberExact_response hlib rfl hlow hhigh)
      (numberExact_response hlib rfl hlow' hhigh')

/-- The greatest limits that are exact. -/
theorem numberExact_iff_int32Max :
    NumberExact .numerals (availableResponse lgDtos (ascii "ready") 0 1000 67108864 2147483647 500
      443) 4 2147483647 :=
  (((numberExact_iff readsIntegers_numerals).2 (ascii "ready") 0 1000 67108864 2147483647 500 443
    (by decide) (by decide) (by decide) (by decide)).mpr ⟨by decide, by decide⟩).2

/-- A limit of 2 GiB is not exact. -/
theorem not_numberExact_maxmemory :
    ¬ NumberExact .numerals (availableResponse lgDtos (ascii "ready") 0 1000 67108864 2147483648
      500 443) 4 2147483648 := by
  intro h
  have hi : (Response.available (ascii "ready") 0 1000 67108864 2147483648 500 443).members[4]? =
      some (ascii "maxmemory", .number 2147483648) := rfl
  have hlimit := numberExact_response readsIntegers_numerals hi (by decide) (by decide)
  exact absurd (hlimit.mp h) (by decide)

end XmlRpc

end VplJail.Rpc
