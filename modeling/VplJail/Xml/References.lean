import VplJail.Xml.Strings

/-!
# References in XML strings

What `decodeXML` makes of texts that other programs have written: every byte may stand for itself or
be written as a reference, by its name or by its number. A reference that is not closed or has an
unknown name is rejected, but for one that stands inside of another one which starts with `#`: of
that one `atoi` reads the digits and nobody looks at the rest.
-/

namespace VplJail.Xml

open Util

/-- The named entities: the name, and the byte that it means. -/
def entities : List (Bytes × UInt8) :=
  [(ascii "amp", 38), (ascii "lt", 60), (ascii "gt", 62), (ascii "apos", 39), (ascii "quot", 34)]

/-- A reference: what stands between the ampersand and the semicolon. -/
def reference (code : Bytes) : Bytes :=
  38 :: (code ++ [59])

/-- The spellings of a byte. -/
inductive Spelling : UInt8 → Bytes → Prop
  | literal {b : UInt8} (hb : b ≠ 38) : Spelling b [b]
  | named {name : Bytes} {b : UInt8} (h : (name, b) ∈ entities) : Spelling b (reference name)
  | decimal (b : UInt8) (zeros : ℕ) :
      Spelling b (reference (35 :: (List.replicate zeros 48 ++ decimal b.toNat)))

/-- The spellings of a byte string. -/
inductive Spelled : Bytes → Bytes → Prop
  | nil : Spelled [] []
  | cons {b : UInt8} {s text rest : Bytes} (h : Spelling b text) (hrest : Spelled s rest) :
      Spelled (b :: s) (text ++ rest)

/-- A text without ampersands is spelled as it is. -/
theorem spelled_self {s : Bytes} (h : 38 ∉ s) : Spelled s s := by
  induction s with
  | nil => exact .nil
  | cons b s ih =>
    rw [List.mem_cons, not_or] at h
    exact .cons (.literal (Ne.symm h.1)) (ih h.2)

/-! ## Numbers with leading zeros -/

theorem digitsValue_zeros (zeros : ℕ) (ds : Bytes) :
    digitsValue (List.replicate zeros 48 ++ ds) = digitsValue ds := by
  induction zeros with
  | zero => rfl
  | succ zeros ih => exact ih

/-- A byte's number is read back. -/
theorem atoi_zeros_decimal (zeros : ℕ) {n : ℕ} (hn : n < 256) :
    atoi (List.replicate zeros 48 ++ decimal n) = n := by
  obtain ⟨d, ds, hd, -⟩ := exists_decimal_eq_cons n
  have hne : List.replicate zeros 48 ++ decimal n ≠ [] := by
    rw [hd]
    simp
  have hdigits : ∀ b ∈ List.replicate zeros 48 ++ decimal n, isDigit b = true := by
    intro b hb
    rcases List.mem_append.mp hb with hb | hb
    · rw [List.eq_of_mem_replicate hb]
      decide
    · exact isDigit_of_mem_decimal hb
  have hclamp : clamp64 (n : ℤ) = n := by
    rw [clamp64]
    omega
  rw [atoi, strtol_of_forall_isDigit hne hdigits, digitsValue_zeros, digitsValue_decimal, hclamp]
  exact Int.bmod_eq_of_le (by omega) (by omega)

/-! ## One reference -/

/-- A reference that is not closed is an error. -/
theorem decodeFrom_unclosed {read rest : Bytes} (hrest : 59 ∉ rest) :
    decodeFrom (some read) rest = .error decodeError := by
  induction rest generalizing read with
  | nil => rfl
  | cons b rest ih =>
    rw [List.mem_cons, not_or] at hrest
    rw [decodeFrom, if_neg fun h => hrest.1 h.symm]
    exact ih hrest.2

theorem decodeEntity_named {name : Bytes} {b : UInt8} (h : (name, b) ∈ entities) :
    59 ∉ name ∧ decodeEntity name = .ok b := by
  simp only [entities, List.mem_cons, Prod.mk.injEq, List.not_mem_nil, or_false] at h
  rcases h with ⟨rfl, rfl⟩ | ⟨rfl, rfl⟩ | ⟨rfl, rfl⟩ | ⟨rfl, rfl⟩ | ⟨rfl, rfl⟩ <;>
    exact ⟨by decide, rfl⟩

theorem decodeEntity_decimal (b : UInt8) (zeros : ℕ) :
    59 ∉ 35 :: (List.replicate zeros 48 ++ decimal b.toNat) ∧
      decodeEntity (35 :: (List.replicate zeros 48 ++ decimal b.toNat)) = .ok b := by
  have hnot : (59 : UInt8) ∉ decimal b.toNat := fun h =>
    absurd (isDigit_of_mem_decimal h) (by decide)
  constructor
  · simp [hnot]
  · have hmod : (((b.toNat : ℤ) % 2 ^ 8).toNat) = b.toNat := by
      have := b.toNat_lt
      omega
    rw [decodeEntity, List.head?_cons, if_pos rfl, List.tail_cons,
      atoi_zeros_decimal zeros b.toNat_lt, UInt8.ofInt, hmod, UInt8.ofNat_toNat]
    rfl

/-- A spelling is read as its byte. -/
theorem decodeFrom_spelling {b : UInt8} {text : Bytes} (h : Spelling b text) (rest : Bytes) :
    decodeFrom none (text ++ rest) = (do
      let rest ← decodeFrom none rest
      pure (b :: rest)) := by
  have hreference {code : Bytes} (hcode : 59 ∉ code ∧ decodeEntity code = .ok b) :
      decodeFrom none (reference code ++ rest) = (do
        let rest ← decodeFrom none rest
        pure (b :: rest)) := by
    rw [reference, List.cons_append, List.append_assoc, List.singleton_append, decodeFrom,
      if_pos rfl, decodeFrom_reference hcode.1, List.nil_append, hcode.2]
    rfl
  cases h with
  | literal hb => rw [List.singleton_append, decodeFrom, if_neg hb]
  | named h => exact hreference (decodeEntity_named h)
  | decimal b zeros => exact hreference (decodeEntity_decimal b zeros)

/-- Every spelling of a byte string is read as that string. -/
theorem decodeXML_spelled {s text : Bytes} (h : Spelled s text) : decodeXML text = .ok s := by
  rw [decodeXML]
  induction h with
  | nil => rfl
  | cons h hrest ih =>
    rw [decodeFrom_spelling h, ih]
    rfl

/-! ## Malformed references -/

/-- A name that no reference has. -/
def IsUnknown (name : Bytes) : Prop :=
  name.head? ≠ some 35 ∧ ∀ b, (name, b) ∉ entities

/-- What is no reference is one error. -/
theorem decodeEntity_cases (code : Bytes) :
    (∃ c, decodeEntity code = .ok c) ∨ decodeEntity code = .error decodeError := by
  rw [decodeEntity]
  split_ifs
  all_goals first | exact .inl ⟨_, rfl⟩ | exact .inr rfl

/-- An unknown name is an error. -/
theorem decodeEntity_unknown {name : Bytes} (h : IsUnknown name) :
    decodeEntity name = .error decodeError := by
  obtain ⟨hhead, hentities⟩ := h
  have hne {entity : Bytes} {b : UInt8} (he : (entity, b) ∈ entities) : name ≠ entity :=
    fun heq => hentities b (heq ▸ he)
  rw [decodeEntity, if_neg hhead, if_neg (hne (b := 38) (by decide)),
    if_neg (hne (b := 60) (by decide)), if_neg (hne (b := 62) (by decide)),
    if_neg (hne (b := 39) (by decide)), if_neg (hne (b := 34) (by decide))]
  rfl

/-- An ampersand stands in a numeric reference: behind the last semicolon before it, the first
ampersand is followed by `#`. -/
def InNumeric (before : Bytes) : Prop :=
  ∃ front plain rest : Bytes, before = front ++ (plain ++ 38 :: 35 :: rest) ∧
    (front = [] ∨ front.getLast? = some 59) ∧ 38 ∉ plain ∧ 59 ∉ plain ∧ 59 ∉ rest

/-- Behind a semicolon nothing of what is in front of it counts. -/
theorem InNumeric.append {before : Bytes} (h : InNumeric before) (code : Bytes) :
    InNumeric (code ++ 59 :: before) := by
  obtain ⟨front, plain, rest, rfl, hfront, hrest⟩ := h
  refine ⟨code ++ 59 :: front, plain, rest, by simp, .inr ?_, hrest⟩
  rcases hfront with rfl | hfront
  · simp
  · rw [List.getLast?_append_cons, List.getLast?_cons, hfront]
    rfl

/-- Outside of a reference a byte other than the ampersand does not count. -/
theorem InNumeric.cons {before : Bytes} (h : InNumeric before) {b : UInt8} (hb : b ≠ 38) :
    InNumeric (b :: before) := by
  by_cases hsemicolon : b = 59
  · rw [hsemicolon]
    exact h.append []
  · obtain ⟨front, plain, rest, rfl, hfront, hplain, hplain', hrest⟩ := h
    rcases hfront with rfl | hfront
    · exact ⟨[], b :: plain, rest, rfl, .inl rfl, by simp [hplain, hb.symm],
        by simp [hplain', Ne.symm hsemicolon], hrest⟩
    · refine ⟨b :: front, plain, rest, rfl, .inr ?_, hplain, hplain', hrest⟩
      rw [List.getLast?_cons, hfront]
      rfl

/-- An ampersand without a semicolon behind it is an error, in a reference or outside. -/
theorem decodeFrom_ampersand {state : Option Bytes} {before after : Bytes} (h : 59 ∉ after) :
    decodeFrom state (before ++ 38 :: after) = .error decodeError := by
  have hmore : (59 : UInt8) ∉ 38 :: after := by
    rw [List.mem_cons, not_or]
    exact ⟨by decide, h⟩
  induction before generalizing state with
  | nil =>
    cases state with
    | none =>
      rw [List.nil_append, decodeFrom, if_pos rfl]
      exact decodeFrom_unclosed h
    | some code => exact decodeFrom_unclosed hmore
  | cons b before ih =>
    cases state with
    | none =>
      rw [List.cons_append, decodeFrom]
      split
      · exact ih
      · rw [ih]
        rfl
    | some code =>
      rw [List.cons_append, decodeFrom]
      split
      · rcases decodeEntity_cases code with ⟨c, hc⟩ | hc
        · rw [hc, ih]
          rfl
        · rw [hc]
          rfl
      · exact ih

/-- What starts with neither `#` nor a name and has an ampersand in it is unknown. -/
theorem isUnknown_of_mem {name : Bytes} (h : 38 ∈ name) (hhead : name.head? ≠ some 35) :
    IsUnknown name := by
  refine ⟨hhead, fun b hb => ?_⟩
  have hnames : ∀ e ∈ entities, 38 ∉ e.1 := by decide
  exact hnames _ hb h

/-- An ampersand with an unknown name is an error where it does not stand in a numeric reference. -/
theorem decodeFrom_unknown {before name rest : Bytes} (hname : 59 ∉ name) (hunknown : IsUnknown name)
    (hbefore : ¬ InNumeric before) :
    decodeFrom none (before ++ 38 :: (name ++ 59 :: rest)) = .error decodeError := by
  induction hlength : before.length using Nat.strong_induction_on generalizing before with
  | _ n ih =>
  cases before with
  | nil =>
    rw [List.nil_append, decodeFrom, if_pos rfl, decodeFrom_reference hname, List.nil_append,
      decodeEntity_unknown hunknown]
    rfl
  | cons b before =>
    rw [List.length_cons] at hlength
    rw [List.cons_append, decodeFrom]
    by_cases hb : b = 38
    · rw [if_pos hb]
      by_cases hsemicolon : 59 ∈ before
      · -- the reference ends before the ampersand
        obtain ⟨code, before, rfl, hcode⟩ := List.eq_append_cons_of_mem hsemicolon
        have hnext : ¬ InNumeric before := fun h => hbefore (h.append (b :: code))
        rw [List.length_append, List.length_cons] at hlength
        rw [List.append_assoc, List.cons_append, decodeFrom_reference hcode,
          ih before.length (by omega) hnext rfl]
        rcases decodeEntity_cases ([] ++ code) with ⟨c, hc⟩ | hc
        · rw [hc]
          rfl
        · rw [hc]
          rfl
      · -- the reference goes on over the ampersand, and does not start with `#`
        have hhead : (before ++ 38 :: name).head? ≠ some 35 := by
          intro hhead
          cases before with
          | nil => exact absurd (Option.some.inj hhead) (by decide)
          | cons c before =>
            have hc : c = 35 := Option.some.inj hhead
            subst hc
            refine hbefore ⟨[], [], before, by rw [hb]; rfl, .inl rfl, by simp, by simp, ?_⟩
            exact fun h => hsemicolon (List.mem_cons_of_mem _ h)
        have hcode : 59 ∉ before ++ 38 :: name := by
          simp [hsemicolon, hname]
        have hmem : 38 ∈ before ++ 38 :: name := by simp
        have hsplit : before ++ 38 :: (name ++ 59 :: rest) = (before ++ 38 :: name) ++ 59 :: rest := by
          simp
        rw [hsplit, decodeFrom_reference hcode, List.nil_append,
          decodeEntity_unknown (isUnknown_of_mem hmem hhead)]
        rfl
    · rw [if_neg hb, ih before.length (by omega) (fun h => hbefore (h.cons hb)) rfl]
      rfl

/-- Every spelling of a byte string is decoded to it; an ampersand without a semicolon behind it is
an error, and so is one that does not stand in a numeric reference and has an unknown name before the
next semicolon. -/
theorem decodeXML_references :
    (∀ s text, Spelled s text → decodeXML text = .ok s) ∧
    (∀ before after : Bytes, 59 ∉ after →
      decodeXML (before ++ 38 :: after) = .error decodeError) ∧
    ∀ before name rest : Bytes, 59 ∉ name → IsUnknown name → ¬ InNumeric before →
      decodeXML (before ++ 38 :: (name ++ 59 :: rest)) = .error decodeError :=
  ⟨fun _ _ => decodeXML_spelled, fun _ _ => decodeFrom_ampersand,
    fun _ _ _ => decodeFrom_unknown⟩

/-- A byte written as itself, by its name and by its number. -/
theorem decodeXML_references_lt :
    decodeXML (ascii "a&lt;&#060;") = .ok (ascii "a<<") ∧
      decodeXML (ascii "a&lt") = .error decodeError ∧
      decodeXML (ascii "a&le;") = .error decodeError := by
  have hlt : (ascii "lt", 60) ∈ entities := by decide
  have hspelled : Spelled (ascii "a<<") (ascii "a&lt;&#060;") :=
    .cons (.literal (by decide)) (.cons (.named hlt) (.cons (.decimal 60 1) .nil))
  have hbefore : ¬ InNumeric (ascii "a") := by
    rintro ⟨front, plain, rest, h, -⟩
    have hlength := congrArg List.length h
    simp only [ascii, List.length_append, List.length_cons, List.length_map] at hlength
    have hone : "a".toList.length = 1 := rfl
    omega
  have hunknown : IsUnknown (ascii "le") := by
    refine ⟨by decide, fun b hb => ?_⟩
    have hnames : ∀ e ∈ entities, e.1 ≠ ascii "le" := by decide
    exact hnames _ hb rfl
  exact ⟨decodeXML_references.1 _ _ hspelled,
    decodeXML_references.2.1 (ascii "a") (ascii "lt") (by decide),
    decodeXML_references.2.2 (ascii "a") (ascii "le") [] (by decide) hunknown hbefore⟩

/-- In a numeric reference any name is passed over. -/
theorem not_decodeXML_unknown :
    ¬ ∀ before name rest : Bytes, 59 ∉ name → IsUnknown name →
      decodeXML (before ++ 38 :: (name ++ 59 :: rest)) = .error decodeError := by
  intro h
  have hunknown : IsUnknown (ascii "foo") := by
    refine ⟨by decide, fun b hb => ?_⟩
    have hnames : ∀ e ∈ entities, e.1 ≠ ascii "foo" := by decide
    exact hnames _ hb rfl
  have hrun := h (ascii "&#38") (ascii "foo") [] (by decide) hunknown
  have hread : decodeXML (ascii "&#38" ++ 38 :: (ascii "foo" ++ [59])) = .ok [38] := by
    decide +kernel
  rw [hread] at hrun
  cases hrun

end VplJail.Xml
