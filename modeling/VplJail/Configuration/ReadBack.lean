import VplJail.Configuration.ConfigFile

/-!
# Reading back a stored entry

The line of an entry is read as a parameter whose key starts with the key of the entry, so that the
lines behind an entry in the file never set it. An entry whose key and value stand for themselves is
read back whatever the other entries are.
-/

namespace VplJail.ConfigurationFile

open Util

/-- A line that stands for itself: the first `=` is the one behind the key, and nothing around the
value is removed. -/
structure IsPlain (key value : Bytes) : Prop where
  key_noEquals : (61 : UInt8) ∉ key
  value_noEquals : (61 : UInt8) ∉ value
  head : ∀ b ∈ value.head?, isBlank b = false
  trim : trimAndRemoveQuotes value = value

/-- An entry line has no NUL. -/
theorem cstr_entryLine {key value : Bytes} (h : IsEntry (key, value)) :
    cstr (entryLine (key, value)) = key ++ 61 :: value := by
  have hline : entryLine (key, value) = key ++ 61 :: value := by
    rw [entryLine, List.append_assoc]
    rfl
  rw [hline]
  refine cstr_eq_self fun h0 => ?_
  rcases List.mem_append.mp h0 with h0 | h0
  · exact h.1.noNul h0
  · rcases List.mem_cons.mp h0 with h0 | h0
    · cases h0
    · exact h.2.noNul h0

/-- The segments of an entry's own division are accepted. -/
theorem accepts_entry {key value : Bytes} (h : IsEntry (key, value)) :
    List.Forall₂ PosixRegex.Item.Accepts paramPattern [[], key, [], [61], [], value] := by
  have hstar (cls : UInt8 → Bool) : (PosixRegex.Item.star cls).Accepts [] :=
    ⟨by simp, by simp [PosixRegex.Item.star], by simp [PosixRegex.Item.star]⟩
  have hlen : 1 ≤ key.length := List.length_pos_iff.mpr h.1.ne_nil
  refine .cons (hstar _) (.cons ?_ (.cons (hstar _) (.cons ?_ (.cons (hstar _) (.cons ?_ .nil)))))
  · exact ⟨fun b hb => by simp [PosixRegex.Item.plus, h.1.noBlank b hb], hlen,
      by simp [PosixRegex.Item.plus]⟩
  · exact ⟨by simp [PosixRegex.Item.one], by simp [PosixRegex.Item.one],
      by simp [PosixRegex.Item.one]⟩
  · refine ⟨fun b hb => ?_, by simp [PosixRegex.Item.star], by simp [PosixRegex.Item.star]⟩
    exact bne_iff_ne.mpr fun h35 => h.2.noHash (h35 ▸ hb)

/-- The line of an entry is matched whole, with at least the key of the entry as its key. -/
theorem search_entryLine {key value : Bytes} (h : IsEntry (key, value)) {m : List Bytes}
    (hm : PosixRegex.search paramPattern (cstr (entryLine (key, value))) = some m) :
    ∃ param b2 b3 value', m = [[], param, b2, [61], b3, value'] ∧
      param ++ b2 ++ 61 :: (b3 ++ value') = key ++ 61 :: value ∧ key.length ≤ param.length ∧
      (∀ b ∈ b2, isBlank b = true) ∧ (∀ b ∈ b3, isBlank b = true) := by
  obtain ⟨hacc, rest, hrest⟩ := PosixRegex.accepts_of_search hm
  have hwhole : cstr (entryLine (key, value)) =
      [[], key, [], [61], [], value].flatten ++ [] := by
    rw [cstr_entryLine h]
    simp
  obtain ⟨hle, hlonger⟩ := PosixRegex.search_spec hm (accepts_entry h) hwhole
  have hlen := congrArg List.length hrest
  rw [hwhole, List.append_nil, List.length_append] at hlen
  have hrest_nil : rest = [] := List.eq_nil_of_length_eq_zero (by omega)
  have hlonger := hlonger (by omega)
  rw [hrest_nil, List.append_nil, cstr_entryLine h] at hrest
  rw [paramPattern] at hacc
  cases hacc with | @cons _ b1 _ m h1 hacc =>
  cases hacc with | @cons _ param _ m hparam hacc =>
  cases hacc with | @cons _ b2 _ m h2 hacc =>
  cases hacc with | @cons _ eq _ m heq hacc =>
  cases hacc with | @cons _ b3 _ m h3 hacc =>
  cases hacc with | @cons _ value' _ m hvalue hacc =>
  cases hacc
  -- the key does not start with a blank
  have hb1 : b1 = [] := by
    cases hk : key with
    | nil => exact absurd hk h.1.ne_nil
    | cons b key' =>
        cases b1 with
        | nil => rfl
        | cons c b1 =>
            rw [hk] at hrest
            obtain rfl := (List.cons.inj hrest).1
            have hblank : isBlank b = true := h1.1 b List.mem_cons_self
            have := h.1.noBlank b (hk ▸ List.mem_cons_self)
            rw [hblank] at this
            cases this
  obtain rfl := hb1
  obtain ⟨c, rfl⟩ := List.length_eq_one_iff.mp (le_antisymm (heq.2.2 1 rfl) heq.2.1)
  obtain rfl : c = 61 := by simpa [PosixRegex.Item.one] using heq.1
  refine ⟨param, b2, b3, value', rfl, by simpa using hrest.symm, ?_, h2.1, h3.1⟩
  rcases hlonger with hself | hlonger
  · exact ((List.cons.inj (List.cons.inj hself).2).1 ▸ le_rfl)
  · rcases hlonger with hlt | ⟨-, hlt | ⟨heq, -⟩⟩
    · exact absurd hlt (lt_irrefl _)
    · exact hlt.le
    · exact heq.ge

/-- The key that is read starts with the key that was written. -/
theorem prefix_of_readLine {key value k v : Bytes} (h : IsEntry (key, value))
    (hr : readLine (entryLine (key, value)) = .param k v) : key <+: k := by
  rw [readLine] at hr
  split at hr
  · cases hr
  cases hs : PosixRegex.search paramPattern (cstr (entryLine (key, value))) with
  | none => simp [hs] at hr
  | some m =>
      obtain ⟨param, b2, b3, value', rfl, heq, hlen, -⟩ := search_entryLine h hs
      rw [hs] at hr
      obtain ⟨rfl, -⟩ := ConfigLine.param.inj hr
      have hprefix : key <+: param := by
        rw [List.append_assoc] at heq
        have hparam : param <+: key ++ 61 :: value := heq ▸ List.prefix_append _ _
        exact List.prefix_of_prefix_length_le (List.prefix_append _ _) hparam hlen
      have hmap : toUppercase key <+: toUppercase param := hprefix.map toupper
      rwa [h.1.upper] at hmap

/-- A plain entry is read as it was written. -/
theorem readLine_entryLine_plain {key value : Bytes} (h : IsEntry (key, value))
    (hplain : IsPlain key value) : readLine (entryLine (key, value)) = .param key value := by
  obtain ⟨k, v, hr⟩ := readLine_entryLine h.1 value
  rw [hr]
  rw [readLine] at hr
  split at hr
  · cases hr
  cases hs : PosixRegex.search paramPattern (cstr (entryLine (key, value))) with
  | none => simp [hs] at hr
  | some m =>
      obtain ⟨param, b2, b3, value', rfl, heq, hlen, hb2, hb3⟩ := search_entryLine h hs
      rw [hs] at hr
      obtain ⟨rfl, rfl⟩ := ConfigLine.param.inj hr
      obtain ⟨hkey, -, hvalue⟩ := (List.append_cons_inj_of_notMem hplain.key_noEquals
        hplain.value_noEquals).mp heq.symm
      have hb2_nil : b2 = [] := by
        refine List.eq_nil_of_length_eq_zero ?_
        have := congrArg List.length hkey
        rw [List.length_append] at this
        omega
      have hb3_nil : b3 = [] := by
        cases b3 with
        | nil => rfl
        | cons b b3 =>
            have hblank := hb3 b List.mem_cons_self
            have := hplain.head b (by rw [hvalue]; rfl)
            rw [hblank] at this
            cases this
      rw [hb2_nil, List.append_nil] at hkey
      rw [hb3_nil, List.nil_append] at hvalue
      rw [← hkey, ← hvalue, h.1.upper, hplain.trim]

/-- A list does not come behind one that it starts. -/
theorem compare_ne_gt_of_prefix {key k : Bytes} (h : key <+: k) : compare key k ≠ .gt := by
  obtain ⟨rest, rfl⟩ := h
  induction key with
  | nil => cases rest <;> simp
  | cons b key ih => simpa [Std.ReflCmp.compare_self] using ih

/-- An entry is written on a line of its own. -/
theorem lines_entryLine {key value : Bytes} (h : IsEntry (key, value)) :
    lines (entryLine (key, value) ++ [10]) = [entryLine (key, value)] := by
  have hlines := lines_entryLines (List.forall_mem_singleton.mpr h) []
  simpa [entryLines, lines] using hlines

/-- Lines of greater keys do not set a key. -/
theorem lastValue_of_gt {key : Bytes} {ps as : List (Bytes × Bytes)} (h : ∀ p ∈ ps, IsEntry p)
    (hgt : ∀ p ∈ ps, compare p.1 key = .gt) (has : assignments (ps.map entryLine) = some as) :
    lastValue as key = none := by
  induction ps generalizing as with
  | nil =>
      obtain rfl := Option.some.inj has
      rfl
  | cons p ps ih =>
      obtain ⟨hp, h⟩ := List.forall_mem_cons.mp h
      obtain ⟨hpgt, hgt⟩ := List.forall_mem_cons.mp hgt
      obtain ⟨k, v, hr⟩ := readLine_entryLine hp.1 p.2
      rw [List.map_cons, assignments, hr] at has
      obtain ⟨bs, hbs, rfl⟩ := Option.map_eq_some_iff.mp has
      have hne : k ≠ key := by
        rintro rfl
        exact compare_ne_gt_of_prefix (prefix_of_readLine hp hr) hpgt
      rw [← List.singleton_append, lastValue_append, ih h hgt hbs, lastValue]
      simp [hne]

/-- The lines behind an entry do not set it. -/
theorem lastValue_behind {data : ConfigData} {key : Bytes} {as : List (Bytes × Bytes)}
    (h : ∀ p ∈ entriesBehind data key, IsEntry p)
    (has : assignments ((entriesBehind data key).map entryLine) = some as) :
    lastValue as key = none :=
  lastValue_of_gt h (fun p hp => by simpa using (List.mem_filter.mp hp).2) has

/-- Among lines in the order of their keys, the one of a plain entry sets it. -/
theorem lastValue_of_sorted {key value : Bytes} {ps as : List (Bytes × Bytes)}
    (h : ∀ p ∈ ps, IsEntry p) (hsorted : ps.Pairwise fun p q => compare p.1 q.1 = .lt)
    (hmem : (key, value) ∈ ps) (hplain : IsPlain key value)
    (has : assignments (ps.map entryLine) = some as) : lastValue as key = some value := by
  obtain ⟨front, back, rfl⟩ := List.append_of_mem hmem
  have hentry := h _ hmem
  have hback : ∀ p ∈ back, compare p.1 key = .gt := fun p hp => by
    have htail := List.pairwise_cons.mp (List.pairwise_append.mp hsorted).2.1
    exact Std.OrientedCmp.gt_iff_lt.mpr (htail.1 p hp)
  have hfrontEntries : ∀ p ∈ front, IsEntry p := fun p hp => h p (List.mem_append_left _ hp)
  have hbackEntries : ∀ p ∈ back, IsEntry p := fun p hp =>
    h p (List.mem_append_right _ (List.mem_cons_of_mem _ hp))
  obtain ⟨fs, hfs⟩ := exists_assignments hfrontEntries
  obtain ⟨bs, hbs⟩ := exists_assignments hbackEntries
  have hone : assignments (((key, value) :: back).map entryLine) = some ((key, value) :: bs) := by
    rw [List.map_cons, assignments, readLine_entryLine_plain hentry hplain, hbs]
    rfl
  rw [List.map_append, assignments_append, hfs, hone] at has
  obtain rfl := Option.some.inj has
  rw [lastValue_append, ← List.singleton_append, lastValue_append,
    lastValue_of_gt hbackEntries hback hbs]
  simp [lastValue]

/-- A plain entry is read back though another value may spread over lines: these do not set its key,
or they come before it. -/
theorem getElem?_of_readConfiguration_around {data data' : ConfigData} {key₀ value₀ key value : Bytes}
    (hvalue₀ : data[key₀]? = some value₀)
    (hrest : ∀ k v, k ≠ key₀ → data[k]? = some v → IsEntry (k, v))
    (hvalue : data[key]? = some value) (hplain : IsPlain key value)
    (hlines : compare key key₀ = .gt ∨ compare key key₀ = .lt ∧
      ∀ os, assignments (lines (entryLine (key₀, value₀) ++ [10])) = some os →
        lastValue os key = none)
    (h : readConfiguration (serialize data) ∅ = some data') : data'[key]? = some value := by
  have haround (p : Bytes × Bytes)
      (hp : p ∈ entriesBefore data key₀ ∨ p ∈ entriesBehind data key₀) : IsEntry p :=
    hrest _ _ (getElem?_of_mem_entriesAround hp).2 (getElem?_of_mem_entriesAround hp).1
  have hsorted (o : Ordering) : (data.toList.filter fun p => compare p.1 key₀ == o).Pairwise
      fun p q => compare p.1 q.1 = .lt := Std.TreeMap.ordered_keys_toList.filter _
  have hmem : (key, value) ∈ data.toList :=
    Std.TreeMap.mem_toList_iff_getElem?_eq_some.mpr hvalue
  rw [readConfiguration_empty, assignments_serialize hvalue₀ (fun p hp => haround p (.inl hp))
    fun p hp => haround p (.inr hp), assignments_append, assignments_append] at h
  obtain ⟨as, has⟩ := exists_assignments fun p hp => haround p (.inl hp)
  obtain ⟨bs, hbs⟩ := exists_assignments fun p hp => haround p (.inr hp)
  rw [has, hbs] at h
  cases hos : assignments (lines (entryLine (key₀, value₀) ++ [10])) with
  | none => simp [hos] at h
  | some os =>
    rw [hos] at h
    obtain rfl := Option.some.inj h
    rw [getElem?_foldl_insert, lastValue_append, lastValue_append]
    rcases hlines with hgt | ⟨hlt, hnone⟩
    · have hbehind : (key, value) ∈ entriesBehind data key₀ :=
        List.mem_filter.mpr ⟨hmem, beq_iff_eq.mpr hgt⟩
      rw [lastValue_of_sorted (fun p hp => haround p (.inr hp)) (hsorted .gt) hbehind hplain hbs]
      simp
    · have hbefore : (key, value) ∈ entriesBefore data key₀ :=
        List.mem_filter.mpr ⟨hmem, beq_iff_eq.mpr hlt⟩
      -- the keys behind are greater still
      have hbehind : ∀ p ∈ entriesBehind data key₀, compare p.1 key = .gt := fun p hp => by
        have hp : compare p.1 key₀ = .gt := by simpa using (List.mem_filter.mp hp).2
        exact Std.TransCmp.gt_trans hp (Std.OrientedCmp.gt_iff_lt.mpr hlt)
      rw [lastValue_of_gt (fun p hp => haround p (.inr hp)) hbehind hbs, hnone os hos,
        lastValue_of_sorted (fun p hp => haround p (.inl hp)) (hsorted .lt) hbefore hplain has]
      simp

/-- A plain entry of a stored configuration is read back. -/
theorem getElem?_of_readConfiguration_serialize {data data' : ConfigData} {key value : Bytes}
    (hdata : Storable data) (hvalue : data[key]? = some value) (hplain : IsPlain key value)
    (h : readConfiguration (serialize data) ∅ = some data') : data'[key]? = some value := by
  have hentry := hdata key value hvalue
  have haround (p : Bytes × Bytes)
      (hp : p ∈ entriesBefore data key ∨ p ∈ entriesBehind data key) : IsEntry p :=
    hdata _ _ (getElem?_of_mem_entriesAround hp).1
  have hown := lines_entryLine hentry
  rw [readConfiguration_empty, assignments_serialize hvalue (fun p hp => haround p (.inl hp))
    fun p hp => haround p (.inr hp), hown] at h
  obtain ⟨as, has⟩ := exists_assignments fun p hp => haround p (.inl hp)
  obtain ⟨bs, hbs⟩ := exists_assignments fun p hp => haround p (.inr hp)
  have hone : assignments [entryLine (key, value)] = some [(key, value)] := by
    rw [assignments, readLine_entryLine_plain hentry hplain]
    rfl
  rw [assignments_append, assignments_append, has, hbs, hone] at h
  obtain rfl := Option.some.inj h
  rw [getElem?_foldl_insert, lastValue_append, lastValue_append,
    lastValue_behind (fun p hp => haround p (.inr hp)) hbs]
  simp [lastValue]

/-! ## Defaults -/

/-- The defaults leave what has been set. -/
theorem getElem?_addDefaults {data : ConfigData} {key value : Bytes} (h : data[key]? = some value)
    (defaultData : ConfigData) : (addDefaults data defaultData)[key]? = some value := by
  rw [addDefaults]
  generalize defaultData.toList = ps
  induction ps generalizing data with
  | nil => exact h
  | cons p ps ih =>
    rw [List.foldl_cons]
    refine ih ?_
    split
    · exact h
    · rename_i hnot
      rw [Std.TreeMap.getElem?_insert, if_neg, h]
      intro hkey
      rw [Std.LawfulEqCmp.compare_eq_iff_eq.mp hkey] at hnot
      exact hnot (Std.TreeMap.mem_iff_isSome_getElem?.mpr (h ▸ rfl))

/-- What is read without defaults is read with them. -/
theorem readConfiguration_of_empty {content : Bytes} {data : ConfigData}
    (h : readConfiguration content ∅ = some data) (defaultData : ConfigData) :
    readConfiguration content defaultData = some (addDefaults data defaultData) := by
  rw [readConfiguration_empty, Option.map_eq_some_iff] at h
  obtain ⟨ps, hps, rfl⟩ := h
  rw [readConfiguration, foldlM_parseConfigLine, hps]
  rfl
end VplJail.ConfigurationFile
