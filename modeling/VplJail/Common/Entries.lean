import Std.Data.TreeMap.Lemmas
import Mathlib.Data.List.Perm.Basic
import Mathlib.Data.List.Nodup

/-!
# The entries of a map around a key

A sorted map is written out in the order of its keys. `toList_eq_around` divides the entries into
those in front of a key, its own, and those behind it; the ones around it do not depend on the value
of the key (`entriesAround_congr`). A map that entries are put into one by one has each of them if
their keys differ.
-/

namespace VplJail

variable {α β : Type*} [Ord α] [Std.TransOrd α] [Std.LawfulEqOrd α]

/-- The entries of a map in front of `key`. -/
def entriesBefore (t : Std.TreeMap α β compare) (key : α) : List (α × β) :=
  t.toList.filter fun p => compare p.1 key == .lt

/-- The entries of a map behind `key`. -/
def entriesBehind (t : Std.TreeMap α β compare) (key : α) : List (α × β) :=
  t.toList.filter fun p => compare p.1 key == .gt

/-- The entries of a map around one of them. -/
theorem toList_eq_around {t : Std.TreeMap α β compare} {key : α} {value : β}
    (h : t[key]? = some value) :
    t.toList = entriesBefore t key ++ (key, value) :: entriesBehind t key := by
  have hsorted : t.toList.Pairwise fun p q => compare p.1 q.1 = .lt :=
    Std.TreeMap.ordered_keys_toList
  have hmem : (key, value) ∈ t.toList := Std.TreeMap.mem_toList_iff_getElem?_eq_some.mpr h
  rw [entriesBefore, entriesBehind]
  generalize t.toList = ps at hsorted hmem ⊢
  induction ps with
  | nil => exact absurd hmem List.not_mem_nil
  | cons p ps ih =>
      obtain ⟨hp, hps⟩ := List.pairwise_cons.mp hsorted
      rcases List.mem_cons.mp hmem with rfl | hmem
      · -- the entries that follow have greater keys
        have hgt : ∀ q ∈ ps, compare q.1 key = .gt := fun q hq =>
          Std.OrientedCmp.gt_iff_lt.mpr (hp q hq)
        have hbefore : ps.filter (fun q => compare q.1 key == .lt) = [] :=
          List.filter_eq_nil_iff.mpr fun q hq => by simp [hgt q hq]
        have hbehind : ps.filter (fun q => compare q.1 key == .gt) = ps :=
          List.filter_eq_self.mpr fun q hq => by simp [hgt q hq]
        rw [List.filter_cons, List.filter_cons, hbefore, hbehind]
        simp
      · have hlt : compare p.1 key = .lt := hp _ hmem
        rw [List.filter_cons, List.filter_cons]
        simpa [hlt] using ih hps hmem

/-- Sorted lists of entries with the same entries are equal. -/
theorem eq_of_pairwise_of_mem_iff {ps qs : List (α × β)}
    (hps : ps.Pairwise fun p q => compare p.1 q.1 = .lt)
    (hqs : qs.Pairwise fun p q => compare p.1 q.1 = .lt) (h : ∀ p, p ∈ ps ↔ p ∈ qs) : ps = qs := by
  have hnodup {l : List (α × β)} (hl : l.Pairwise fun p q => compare p.1 q.1 = .lt) :
      l.Nodup := hl.imp fun {p q} hpq heq => by
    simp [heq] at hpq
  refine List.Perm.eq_of_pairwise ?_ hps hqs
    ((List.perm_ext_iff_of_nodup (hnodup hps) (hnodup hqs)).mpr h)
  intro p q _ _ hpq hqp
  have hswap : compare p.1 q.1 = (compare q.1 p.1).swap := Std.OrientedCmp.eq_swap
  rw [hqp, hpq] at hswap
  cases hswap

/-- Another value for a key leaves the entries around it. -/
theorem entriesAround_congr {t t' : Std.TreeMap α β compare} {key : α}
    (h : ∀ k, k ≠ key → t[k]? = t'[k]?) :
    entriesBefore t key = entriesBefore t' key ∧ entriesBehind t key = entriesBehind t' key := by
  have hmem (o : Ordering) (ho : o ≠ .eq) (p : α × β) :
      p ∈ t.toList.filter (fun p => compare p.1 key == o) ↔
        p ∈ t'.toList.filter (fun p => compare p.1 key == o) := by
    obtain ⟨k, v⟩ := p
    rw [List.mem_filter, List.mem_filter, Std.TreeMap.mem_toList_iff_getElem?_eq_some,
      Std.TreeMap.mem_toList_iff_getElem?_eq_some, beq_iff_eq]
    refine and_congr_left fun hk => ?_
    rw [h k]
    rintro rfl
    exact ho (by simp [← hk])
  have hsorted (t : Std.TreeMap α β compare) (f : α × β → Bool) :
      (t.toList.filter f).Pairwise fun p q => compare p.1 q.1 = .lt :=
    Std.TreeMap.ordered_keys_toList.filter f
  exact ⟨eq_of_pairwise_of_mem_iff (hsorted _ _) (hsorted _ _) (hmem .lt (by decide)),
    eq_of_pairwise_of_mem_iff (hsorted _ _) (hsorted _ _) (hmem .gt (by decide))⟩

/-- The entries around a key are entries of the map for other keys. -/
theorem getElem?_of_mem_entriesAround {t : Std.TreeMap α β compare} {key : α} {p : α × β}
    (h : p ∈ entriesBefore t key ∨ p ∈ entriesBehind t key) : t[p.1]? = some p.2 ∧ p.1 ≠ key := by
  rcases h with h | h <;>
  · obtain ⟨hp, hcmp⟩ := List.mem_filter.mp h
    refine ⟨Std.TreeMap.mem_toList_iff_getElem?_eq_some.mp hp, ?_⟩
    rintro rfl
    simp at hcmp

/-! ## Entries put into a map -/

section Insert

variable {ps : List (α × β)} {key : α} {value : β} {acc : Std.TreeMap α β compare}

theorem getElem?_foldl_insert_of_ne (h : ∀ p ∈ ps, p.1 ≠ key) :
    (ps.foldl (fun m p => m.insert p.1 p.2) acc)[key]? = acc[key]? := by
  induction ps generalizing acc with
  | nil => rfl
  | cons p ps ih =>
    obtain ⟨hp, hps⟩ := List.forall_mem_cons.mp h
    have hne : compare p.1 key ≠ .eq := fun heq => hp (Std.LawfulEqCmp.compare_eq_iff_eq.mp heq)
    rw [List.foldl_cons, ih hps, Std.TreeMap.getElem?_insert, if_neg hne]

theorem getElem?_foldl_insert_of_mem (hnodup : (ps.map Prod.fst).Nodup) (h : (key, value) ∈ ps) :
    (ps.foldl (fun m p => m.insert p.1 p.2) acc)[key]? = some value := by
  induction ps generalizing acc with
  | nil => cases h
  | cons p ps ih =>
    rw [List.map_cons, List.nodup_cons] at hnodup
    rw [List.foldl_cons]
    rcases List.mem_cons.mp h with rfl | h
    · have hne : ∀ q ∈ ps, q.1 ≠ key := by
        intro q hq heq
        apply hnodup.1
        show key ∈ ps.map Prod.fst
        rw [← heq]
        exact List.mem_map_of_mem hq
      rw [getElem?_foldl_insert_of_ne hne]
      exact Std.TreeMap.getElem?_insert_self
    · exact ih hnodup.2 h

end Insert

end VplJail
