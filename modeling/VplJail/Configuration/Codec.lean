import VplJail.Configuration.ReadBack

/-!
# Reading back a whole configuration

A configuration of upper case keys and plain values should be read as it was written. But the key of
a line may contain `=`: the regular expression takes the longest key, so that an `=` in the first
word of a value, or right behind it, moves the end of the key. `readConfiguration_serialize_iff` says
which configurations are read back.
-/

namespace VplJail.ConfigurationFile

open Util

/-- A key that the format is made for: not empty, upper case and free of blanks, `=` and `#`. -/
structure IsSimpleKey (key : Bytes) : Prop where
  ne_nil : key ≠ []
  upper : toUppercase key = key
  free : ∀ b ∈ key, isBlank b = false ∧ b ≠ 61 ∧ b ≠ 35

/-- A value that the format is made for: on one line, without NUL and `#`, and without blanks or
quotes around it. -/
structure IsSimpleValue (value : Bytes) : Prop where
  free : ∀ b ∈ value, b ≠ 0 ∧ b ≠ 13 ∧ b ≠ 10 ∧ b ≠ 35
  head : ∀ b ∈ value.head?, isBlank b = false
  last : ∀ b ∈ value.getLast?, isBlank b = false
  quotes : ∀ quote ∈ ([39, 34] : Bytes), removeQuotes quote value = none

/-- A configuration that the format is made for. -/
def IsSimple (data : ConfigData) : Prop :=
  ∀ (key value : Bytes), data[key]? = some value → IsSimpleKey key ∧ IsSimpleValue value

/-- An `=` in the first word of a value, or with only blanks between that word and it. -/
def Misread (value : Bytes) : Prop :=
  ∃ word blanks rest, value = word ++ blanks ++ 61 :: rest ∧ (∀ b ∈ word, isBlank b = false) ∧
    ∀ b ∈ blanks, isBlank b = true

/-- A value without `=` is not misread. -/
theorem not_misread {value : Bytes} (h : (61 : UInt8) ∉ value) : ¬ Misread value := by
  rintro ⟨word, blanks, rest, rfl, -⟩
  simp at h

/-- A key without NUL and line feed is one that lines are read with. -/
theorem IsSimpleKey.isKey {key : Bytes} (h : IsSimpleKey key) (hnul : (0 : UInt8) ∉ key)
    (hnewline : (10 : UInt8) ∉ key) : IsKey key where
  ne_nil := h.ne_nil
  upper := h.upper
  head := by
    intro hhead
    exact (h.free 35 (List.mem_of_mem_head? hhead)).2.2 rfl
  noBlank := fun b hb => (h.free b hb).1
  noNul := hnul
  noNewline := hnewline

namespace IsSimpleValue

variable {value : Bytes}

theorem isValue (h : IsSimpleValue value) : IsValue value where
  noHash := fun hb => (h.free 35 hb).2.2.2 rfl
  noNul := fun hb => (h.free 0 hb).1 rfl
  noNewline := fun hb => (h.free 10 hb).2.2.1 rfl

/-- There is nothing to trim. -/
theorem trim (h : IsSimpleValue value) : trimAndRemoveQuotes value = value := by
  have hdrop : value.dropWhile (· = 32) = value := by
    cases value with
    | nil => rfl
    | cons b s =>
      refine List.dropWhile_cons_of_neg ?_
      rw [decide_eq_true_eq]
      rintro rfl
      cases h.head 32 rfl
  have hrdrop : value.rdropWhile (· = 32) = value := by
    refine List.rdropWhile_eq_self_iff.mpr fun hne => ?_
    rw [decide_eq_true_eq]
    intro h32
    have hblank := h.last (value.getLast hne) (List.getLast?_eq_some_getLast hne)
    rw [h32] at hblank
    cases hblank
  simp only [trimAndRemoveQuotes, hdrop, hrdrop, h.quotes 39 (.head _),
    h.quotes 34 (.tail _ (.head _)), Option.getD_none]

end IsSimpleValue

/-! ## One line -/

section Line

variable {key value : Bytes}

/-- The line of an entry is read with a key that the search has found: the own key, or that key with
an `=` and more behind it. -/
theorem exists_search_entryLine (h : IsEntry (key, value)) :
    ∃ more b2 b3 value', PosixRegex.search paramPattern (cstr (entryLine (key, value))) =
        some [[], key ++ more, b2, [61], b3, value'] ∧
      readLine (entryLine (key, value)) =
        .param (toUppercase (key ++ more)) (trimAndRemoveQuotes value') ∧
      more ++ b2 ++ 61 :: (b3 ++ value') = 61 :: value ∧ (∀ b ∈ more, isBlank b = false) ∧
      (∀ b ∈ b2, isBlank b = true) ∧ ∀ b ∈ b3, isBlank b = true := by
  obtain ⟨k, v, hr⟩ := readLine_entryLine h.1 value
  have hcomment : isComment (cstr (entryLine (key, value))) = false := by
    rw [readLine] at hr
    split at hr
    · cases hr
    · rename_i hcomment
      exact Bool.eq_false_of_not_eq_true hcomment
  rw [readLine, if_neg (Bool.eq_false_iff.mp hcomment)] at hr
  cases hs : PosixRegex.search paramPattern (cstr (entryLine (key, value))) with
  | none =>
    rw [hs] at hr
    cases hr
  | some m =>
    obtain ⟨param, b2, b3, value', rfl, heq, hlen, hb2, hb3⟩ := search_entryLine h hs
    obtain ⟨_, _, _, _, _, _, hm, -, -, -, hparam, -⟩ := search_param_cases hs
    obtain ⟨-, rfl, -⟩ := List.cons.inj hm |>.imp id fun h => List.cons.inj h
    have hprefix : key <+: param := by
      rw [List.append_assoc] at heq
      exact List.prefix_of_prefix_length_le (List.prefix_append key (61 :: value))
        (heq ▸ List.prefix_append param _) hlen
    obtain ⟨more, rfl⟩ := hprefix
    refine ⟨more, b2, b3, value', rfl, ?_, ?_, ?_, hb2, hb3⟩
    · rw [readLine, if_neg (Bool.eq_false_iff.mp hcomment), hs]
    · simpa only [List.append_assoc, List.append_cancel_left_eq] using heq
    · exact fun b hb => hparam b (List.mem_append_right _ hb)

/-- A value that is not misread is read back. -/
theorem readLine_entryLine_simple (h : IsEntry (key, value)) (hvalue : IsSimpleValue value)
    (hmisread : ¬ Misread value) : readLine (entryLine (key, value)) = .param key value := by
  obtain ⟨more, b2, b3, value', -, hr, heq, hmore, hb2, hb3⟩ := exists_search_entryLine h
  cases more with
  | cons c more =>
    -- the value would be misread
    rw [List.cons_append, List.cons_append] at heq
    obtain ⟨rfl, rfl⟩ := List.cons.inj heq
    exact absurd ⟨more, b2, b3 ++ value', rfl, fun b hb => hmore b (List.mem_cons_of_mem _ hb),
      hb2⟩ hmisread
  | nil =>
    have hb2_nil : b2 = [] := by
      cases b2 with
      | nil => rfl
      | cons b b2 =>
        obtain rfl := (List.cons.inj heq).1
        cases hb2 61 List.mem_cons_self
    rw [hb2_nil] at heq
    obtain rfl := (List.cons.inj heq).2
    have hb3_nil : b3 = [] := by
      cases b3 with
      | nil => rfl
      | cons b b3 =>
        have hblank := hb3 b List.mem_cons_self
        rw [hvalue.head b rfl] at hblank
        cases hblank
    obtain rfl := hb3_nil
    rw [hr, List.append_nil, h.1.upper]
    exact congrArg (ConfigLine.param key) hvalue.trim

/-- A value that is misread makes a longer key. -/
theorem readLine_entryLine_misread (h : IsEntry (key, value)) (hmisread : Misread value) :
    ∃ k v, readLine (entryLine (key, value)) = .param k v ∧ (61 : UInt8) ∈ k := by
  obtain ⟨word, blanks, rest, rfl, hword, hblanks⟩ := hmisread
  obtain ⟨more, b2, b3, value', hs, hr, heq, -⟩ := exists_search_entryLine h
  refine ⟨_, _, hr, ?_⟩
  -- the search could have found a key that ends behind the first word
  have hacc : List.Forall₂ PosixRegex.Item.Accepts paramPattern
      [[], key ++ 61 :: word, blanks, [61], [], rest] := by
    refine .cons (PosixRegex.Item.accepts_star nofun) (.cons ?_
      (.cons (PosixRegex.Item.accepts_star hblanks) (.cons (PosixRegex.Item.accepts_one rfl)
        (.cons (PosixRegex.Item.accepts_star nofun) (.cons (PosixRegex.Item.accepts_star ?_)
          .nil)))))
    · refine PosixRegex.Item.accepts_plus ?_ (by simp)
      intro b hb
      rcases List.mem_append.mp hb with hb | hb
      · rw [h.1.noBlank b hb]
        rfl
      · rcases List.mem_cons.mp hb with rfl | hb
        · rfl
        · rw [hword b hb]
          rfl
    · intro b hb
      refine bne_iff_ne.mpr fun h35 => h.2.noHash ?_
      rw [← h35]
      simp [hb]
  have hline : cstr (entryLine (key, word ++ blanks ++ 61 :: rest)) =
      [[], key ++ 61 :: word, blanks, [61], [], rest].flatten ++ [] := by
    rw [cstr_entryLine h]
    simp
  have hlen : [[], key ++ 61 :: word, blanks, [61], [], rest].flatten.length =
      [[], key ++ more, b2, [61], b3, value'].flatten.length := by
    have hsame := congrArg List.length heq
    simp only [List.length_append, List.length_cons] at hsame
    simp only [List.flatten_cons, List.flatten_nil, List.length_append, List.length_cons,
      List.length_nil]
    omega
  have hle : (key ++ 61 :: word).length ≤ (key ++ more).length := by
    rcases (PosixRegex.search_spec hs hacc hline).2 hlen with hself | hlonger
    · rw [(List.cons.inj (List.cons.inj hself).2).1]
    · rcases hlonger with hlt | ⟨-, hlt | ⟨hsame, -⟩⟩
      · exact absurd hlt (lt_irrefl _)
      · exact hlt.le
      · exact hsame.ge
  cases more with
  | nil => simp at hle
  | cons c more =>
    rw [List.cons_append, List.cons_append] at heq
    obtain rfl := (List.cons.inj heq).1
    exact List.mem_map.mpr ⟨61, by simp, by decide⟩

end Line

/-! ## The whole file -/

/-- The assignments of a stored configuration are those of its entry lines. -/
theorem assignments_serialize_all {data : ConfigData} (h : Storable data) :
    assignments (lines (serialize data)) = assignments (data.toList.map entryLine) := by
  have hentries : ∀ p ∈ data.toList, IsEntry p := fun p hp =>
    h _ _ (Std.TreeMap.mem_toList_iff_getElem?_eq_some.mp hp)
  have hlines : lines (serialize data) =
      [ascii "#Autogenerated Config file of VPL "] ++
        (data.toList.map entryLine ++ [ascii "#End Config file of VPL "]) := by
    have hhead : (10 : UInt8) ∉ ascii "#Autogenerated Config file of VPL " := by decide +kernel
    have hfoot : (10 : UInt8) ∉ ascii "#End Config file of VPL " := by decide +kernel
    simp only [serialize, List.append_assoc, List.nil_append, List.cons_append]
    rw [lines_append_newline hhead, lines_entryLines hentries, lines_append_newline hfoot, lines]
  have hhead : assignments [ascii "#Autogenerated Config file of VPL "] = some [] := by
    decide +kernel
  have hfoot : assignments [ascii "#End Config file of VPL "] = some [] := by decide +kernel
  rw [hlines, assignments_append, assignments_append, hhead, hfoot]
  cases assignments (data.toList.map entryLine) <;> simp

/-- The entries of a configuration are assignments of its values. -/
theorem lastValue_toList (data : ConfigData) (key : Bytes) :
    lastValue data.toList key = data[key]? := by
  have hmem {value : Bytes} : (key, value) ∈ data.toList ↔ data[key]? = some value :=
    Std.TreeMap.mem_toList_iff_getElem?_eq_some
  rw [lastValue]
  cases hfind : data.toList.reverse.find? fun p => p.1 == key with
  | none =>
    cases hvalue : data[key]? with
    | none => rfl
    | some value =>
      refine absurd (List.find?_eq_none.mp hfind (key, value) ?_) (by simp)
      exact List.mem_reverse.mpr (hmem.mpr hvalue)
  | some p =>
    obtain rfl : p.1 = key := by simpa using List.find?_some hfind
    exact (hmem.mp (List.mem_reverse.mp (List.mem_of_find?_eq_some hfind))).symm

/-- A key that lines assign has a value in what is read. -/
theorem exists_getElem?_of_mem {ps : List (Bytes × Bytes)} {p : Bytes × Bytes} (hp : p ∈ ps) :
    ∃ value, (ps.foldl (fun d p => d.insert p.1 p.2) (∅ : ConfigData))[p.1]? = some value := by
  rw [getElem?_foldl_insert, lastValue]
  cases hfind : ps.reverse.find? fun q => q.1 == p.1 with
  | none =>
    refine absurd (List.find?_eq_none.mp hfind p ?_) (by simp)
    exact List.mem_reverse.mpr hp
  | some q => exact ⟨q.2, rfl⟩

/-- Lines that are all read as the entries they were written for. -/
theorem assignments_of_readLine {ps : List (Bytes × Bytes)}
    (h : ∀ p ∈ ps, readLine (entryLine p) = .param p.1 p.2) :
    assignments (ps.map entryLine) = some ps := by
  induction ps with
  | nil => rfl
  | cons p ps ih =>
    obtain ⟨hp, hps⟩ := List.forall_mem_cons.mp h
    rw [List.map_cons, assignments, hp, ih hps]
    rfl

/-- The parameter that a line is read as is among the assignments. -/
theorem mem_of_assignments {ls : List Bytes} {as : List (Bytes × Bytes)}
    (has : assignments ls = some as) {line key value : Bytes} (hline : line ∈ ls)
    (h : readLine line = .param key value) : (key, value) ∈ as := by
  induction ls generalizing as with
  | nil => cases hline
  | cons l ls ih =>
    rw [assignments] at has
    rcases List.mem_cons.mp hline with rfl | hline
    · rw [h] at has
      obtain ⟨bs, -, rfl⟩ := Option.map_eq_some_iff.mp has
      exact List.mem_cons_self
    · cases hr : readLine l with
      | comment =>
        rw [hr] at has
        exact ih has hline
      | incorrect =>
        rw [hr] at has
        cases has
      | param k v =>
        rw [hr] at has
        obtain ⟨bs, hbs, rfl⟩ := Option.map_eq_some_iff.mp has
        exact List.mem_cons_of_mem _ (ih hbs hline)

/-- A configuration is read as it was written if each of its lines is. -/
theorem exists_readConfiguration_of_readLine {data : ConfigData} (h : Storable data)
    (hlines : ∀ p ∈ data.toList, readLine (entryLine p) = .param p.1 p.2) :
    ∃ data', readConfiguration (serialize data) ∅ = some data' ∧
      ∀ key : Bytes, data'[key]? = data[key]? := by
  rw [readConfiguration_empty, assignments_serialize_all h, assignments_of_readLine hlines]
  refine ⟨_, rfl, fun key => ?_⟩
  rw [getElem?_foldl_insert, lastValue_toList]
  cases data[key]? <;> simp

/-- A configuration of upper case keys and plain values is read as it was written exactly when no
key has a NUL or a line feed and no value is misread. -/
theorem readConfiguration_serialize_iff {data : ConfigData} (h : IsSimple data) :
    (∃ data', readConfiguration (serialize data) ∅ = some data' ∧
        ∀ key : Bytes, data'[key]? = data[key]?) ↔
      ∀ key value : Bytes, data[key]? = some value →
        (0 : UInt8) ∉ key ∧ (10 : UInt8) ∉ key ∧ ¬ Misread value := by
  constructor
  · rintro ⟨data', hread, heq⟩ key value hvalue
    have hstorable : Storable data := fun k v hk =>
      storable_readConfiguration hread k v ((heq k).trans hk)
    have hentry := hstorable key value hvalue
    refine ⟨hentry.1.noNul, hentry.1.noNewline, fun hmisread => ?_⟩
    obtain ⟨k, v, hr, h61⟩ := readLine_entryLine_misread hentry hmisread
    rw [readConfiguration_empty, assignments_serialize_all hstorable] at hread
    obtain ⟨as, has, rfl⟩ := Option.map_eq_some_iff.mp hread
    have hline : entryLine (key, value) ∈ data.toList.map entryLine :=
      List.mem_map_of_mem (Std.TreeMap.mem_toList_iff_getElem?_eq_some.mpr hvalue)
    obtain ⟨v', hv'⟩ := exists_getElem?_of_mem (mem_of_assignments has hline hr)
    -- no key of the configuration has an `=`
    rw [heq] at hv'
    exact ((h k v' hv').1.free 61 h61).2.1 rfl
  · intro hall
    have hstorable : Storable data := fun key value hvalue =>
      ⟨(h key value hvalue).1.isKey (hall key value hvalue).1 (hall key value hvalue).2.1,
        (h key value hvalue).2.isValue⟩
    refine exists_readConfiguration_of_readLine hstorable ?_
    rintro ⟨key, value⟩ hp
    have hvalue := Std.TreeMap.mem_toList_iff_getElem?_eq_some.mp hp
    exact readLine_entryLine_simple (hstorable key value hvalue) (h key value hvalue).2
      (hall key value hvalue).2.2

/-- One simple entry is a simple configuration. -/
theorem isSimple_insert {key value : Bytes} (hkey : IsSimpleKey key) (hvalue : IsSimpleValue value) :
    IsSimple ((∅ : ConfigData).insert key value) := by
  intro k v hk
  rw [Std.TreeMap.getElem?_insert] at hk
  split at hk
  · rename_i heq
    obtain rfl := Std.LawfulEqCmp.compare_eq_iff_eq.mp heq
    obtain rfl := Option.some.inj hk
    exact ⟨hkey, hvalue⟩
  · simp at hk

theorem isSimpleKey_lang : IsSimpleKey (ascii "LANG") :=
  ⟨by decide +kernel, by decide +kernel, by decide +kernel⟩

/-- A usual language is read back. -/
theorem readConfiguration_serialize_iff_lang :
    ∃ data', readConfiguration
        (serialize ((∅ : ConfigData).insert (ascii "LANG") (ascii "es_ES.UTF-8"))) ∅ = some data' ∧
      ∀ key : Bytes,
        data'[key]? = ((∅ : ConfigData).insert (ascii "LANG") (ascii "es_ES.UTF-8"))[key]? := by
  have hvalue : IsSimpleValue (ascii "es_ES.UTF-8") :=
    ⟨by decide +kernel, by decide +kernel, by decide +kernel, by decide +kernel⟩
  refine (readConfiguration_serialize_iff (isSimple_insert isSimpleKey_lang hvalue)).mpr ?_
  intro key value hk
  rw [Std.TreeMap.getElem?_insert] at hk
  split at hk
  · rename_i heq
    obtain rfl := Std.LawfulEqCmp.compare_eq_iff_eq.mp heq
    obtain rfl := Option.some.inj hk
    exact ⟨by decide +kernel, by decide +kernel, not_misread (by decide +kernel)⟩
  · simp at hk

/-- A language with an `=` is lost: the key of its line is `LANG=A`. -/
theorem not_readConfiguration_serialize :
    ¬ ∀ data : ConfigData, IsSimple data →
      ∃ data', readConfiguration (serialize data) ∅ = some data' ∧
        ∀ key : Bytes, data'[key]? = data[key]? := by
  intro hall
  have hvalue : IsSimpleValue (ascii "a=b") :=
    ⟨by decide +kernel, by decide +kernel, by decide +kernel, by decide +kernel⟩
  obtain ⟨data', hread, heq⟩ := hall _ (isSimple_insert isSimpleKey_lang hvalue)
  have hlost : (readConfiguration
      (serialize ((∅ : ConfigData).insert (ascii "LANG") (ascii "a=b"))) ∅).map
        (·[ascii "LANG"]?) = some none := by
    decide +kernel
  rw [hread, Option.map_some, heq] at hlost
  revert hlost
  decide +kernel

end VplJail.ConfigurationFile
