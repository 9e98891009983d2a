import Mathlib.Data.List.TakeWhile
import Mathlib.Data.List.Flatten
import Mathlib.Data.List.Forall2
import Mathlib.Data.List.Infix
import Mathlib.Order.Lattice

/-!
# POSIX matching of sequence patterns

A pattern is a sequence of items, each a class of symbols with the number of repetitions allowed,
matched at the start of the input. POSIX takes the longest match, and among the longest ones the one
whose earlier items are longer. `splits` lists the matches in that second order, `search` takes the
first of the longest.
-/

namespace VplJail.PosixRegex

variable {α : Type*}

/-- An item of a pattern: a class of symbols, and the least and the most repetitions. -/
structure Item (α : Type*) where
  cls : α → Bool
  least : ℕ
  most : Option ℕ

namespace Item

/-- One symbol of the class. -/
def one (cls : α → Bool) : Item α := ⟨cls, 1, some 1⟩

/-- The class with `*`. -/
def star (cls : α → Bool) : Item α := ⟨cls, 0, none⟩

/-- The class with `+`. -/
def plus (cls : α → Bool) : Item α := ⟨cls, 1, none⟩

/-- The class with `?`. -/
def opt (cls : α → Bool) : Item α := ⟨cls, 0, some 1⟩

/-- A segment that the item matches. -/
def Accepts (i : Item α) (seg : List α) : Prop :=
  (∀ a ∈ seg, i.cls a) ∧ i.least ≤ seg.length ∧ ∀ n ∈ i.most, seg.length ≤ n

/-- A segment that `*` matches. -/
theorem accepts_star {cls : α → Bool} {seg : List α} (h : ∀ a ∈ seg, cls a) :
    (star cls).Accepts seg :=
  ⟨h, Nat.zero_le _, nofun⟩

/-- A segment that `+` matches. -/
theorem accepts_plus {cls : α → Bool} {seg : List α} (h : ∀ a ∈ seg, cls a) (hne : seg ≠ []) :
    (plus cls).Accepts seg :=
  ⟨h, List.length_pos_iff.mpr hne, nofun⟩

/-- A segment that a class matches. -/
theorem accepts_one {cls : α → Bool} {a : α} (h : cls a) : (one cls).Accepts [a] :=
  ⟨List.forall_mem_singleton.mpr h, Nat.le_refl 1, fun _ hn => (Option.some.inj hn).le⟩

/-- The most symbols that the item can take off `s`. -/
def bound (i : Item α) (s : List α) : ℕ :=
  i.most.elim (s.takeWhile i.cls).length (min (s.takeWhile i.cls).length)

/-- The numbers of symbols that the item can take off `s`, from the greatest on. -/
def takes (i : Item α) (s : List α) : List ℕ :=
  (List.range (i.bound s + 1)).reverse.filter fun n => decide (i.least ≤ n)

/-- The numbers listed by `takes` are those of the segments accepted. -/
theorem mem_takes {i : Item α} {s : List α} {n : ℕ} :
    n ∈ i.takes s ↔ n ≤ s.length ∧ i.Accepts (s.take n) := by
  have hrun : n ≤ (s.takeWhile i.cls).length ↔ n ≤ s.length ∧ ∀ a ∈ s.take n, i.cls a := by
    induction s generalizing n with
    | nil => cases n <;> simp
    | cons a s ih =>
        cases n with
        | zero => simp
        | succ n =>
            by_cases ha : i.cls a
            · simp [ha, ih]
            · simp [ha]
  have hbound : n ≤ i.bound s ↔
      n ≤ (s.takeWhile i.cls).length ∧ ∀ k ∈ i.most, n ≤ k := by
    rw [bound]
    cases i.most <;> simp
  simp only [takes, List.mem_filter, List.mem_reverse, List.mem_range, decide_eq_true_eq,
    Nat.lt_succ_iff, hbound, hrun, Accepts, List.length_take]
  constructor
  · rintro ⟨⟨⟨hn, hcls⟩, hmost⟩, hleast⟩
    rw [min_eq_left hn]
    exact ⟨hn, hcls, hleast, hmost⟩
  · rintro ⟨hn, hcls, hleast, hmost⟩
    rw [min_eq_left hn] at hleast hmost
    exact ⟨⟨⟨hn, hcls⟩, hmost⟩, hleast⟩

end Item

/-- The matches of the items with a start of `s`, each as the segments of the items. -/
def splits : List (Item α) → List α → List (List (List α))
  | [], _ => [[]]
  | i :: is, s => (i.takes s).flatMap fun n => (splits is (s.drop n)).map (s.take n :: ·)

/-- A match is a division of a start of `s` into segments that the items accept. -/
theorem mem_splits {is : List (Item α)} {s : List α} {m : List (List α)} :
    m ∈ splits is s ↔ List.Forall₂ Item.Accepts is m ∧ ∃ rest, s = m.flatten ++ rest := by
  induction is generalizing s m with
  | nil =>
      rw [splits, List.mem_singleton]
      constructor
      · rintro rfl
        exact ⟨.nil, s, rfl⟩
      · rintro ⟨h, -⟩
        cases h
        rfl
  | cons i is ih =>
      simp only [splits, List.mem_flatMap, List.mem_map, Item.mem_takes, ih]
      constructor
      · rintro ⟨n, ⟨hn, hacc⟩, m, ⟨hm, rest, hrest⟩, rfl⟩
        refine ⟨.cons hacc hm, rest, ?_⟩
        rw [List.flatten_cons, List.append_assoc, ← hrest, List.take_append_drop]
      · rintro ⟨h, rest, rfl⟩
        cases h with
        | @cons _ seg _ m hacc hm =>
            refine ⟨seg.length, ⟨by simp, by simpa using hacc⟩, m, ⟨hm, rest, ?_⟩, ?_⟩
            · simp [List.flatten_cons]
            · simp [List.flatten_cons]

/-- The first of the longest matches. -/
def longest : List (List (List α)) → Option (List (List α))
  | [] => none
  | m :: ms =>
      match longest ms with
      | none => some m
      | some m' => if m.flatten.length < m'.flatten.length then some m' else some m

/-- There is a longest match unless there is none. -/
theorem longest_eq_none {ms : List (List (List α))} : longest ms = none ↔ ms = [] := by
  cases ms with
  | nil => exact iff_of_true rfl rfl
  | cons m ms =>
      rw [longest]
      split
      · simp
      · split <;> simp

/-- The longest match is one of the matches. -/
theorem mem_of_longest {ms : List (List (List α))} {m : List (List α)}
    (h : longest ms = some m) : m ∈ ms := by
  induction ms with
  | nil => cases h
  | cons m' ms ih =>
      rw [longest] at h
      split at h
      · rw [Option.some.inj h]
        exact List.mem_cons_self
      · rename_i m'' hm''
        split at h
        · rw [Option.some.inj h] at hm''
          exact List.mem_cons_of_mem _ (ih hm'')
        · rw [Option.some.inj h]
          exact List.mem_cons_self

/-- The match of a pattern anchored at the start of `s`. -/
def search (is : List (Item α)) (s : List α) : Option (List (List α)) :=
  longest (splits is s)

/-- Whether a pattern anchored at both ends matches `s`. -/
def matchesWhole (is : List (Item α)) (s : List α) : Bool :=
  (splits is s).any fun m => m.flatten.length == s.length

/-- The match of a pattern anchored at both ends of `s`. -/
def searchWhole (is : List (Item α)) (s : List α) : Option (List (List α)) :=
  (splits is s).find? fun m => m.flatten.length == s.length

/-- The match of a pattern that is not anchored: at the first place where there is one. -/
def searchAnywhere (is : List (Item α)) (s : List α) : Option (List (List α)) :=
  s.tails.findSome? (search is)

/-- A search fails when nothing matches. -/
theorem search_eq_none {is : List (Item α)} {s : List α} :
    search is s = none ↔ ∀ m rest, List.Forall₂ Item.Accepts is m → s ≠ m.flatten ++ rest := by
  rw [search, longest_eq_none, List.eq_nil_iff_forall_not_mem]
  simp only [mem_splits, not_and, not_exists]
  exact ⟨fun h m rest hm => h m hm rest, fun h m hm rest => h m rest hm⟩

/-- The segments of a search are a start of the input. -/
theorem accepts_of_search {is : List (Item α)} {s : List α} {m : List (List α)}
    (h : search is s = some m) : List.Forall₂ Item.Accepts is m ∧ ∃ rest, s = m.flatten ++ rest :=
  mem_splits.mp (mem_of_longest h)

/-- A pattern anchored at both ends matches the divisions of the whole input. -/
theorem matchesWhole_iff {is : List (Item α)} {s : List α} :
    matchesWhole is s = true ↔ ∃ m, List.Forall₂ Item.Accepts is m ∧ s = m.flatten := by
  simp only [matchesWhole, List.any_eq_true, mem_splits, beq_iff_eq]
  constructor
  · rintro ⟨m, ⟨hm, rest, rfl⟩, hlen⟩
    have : rest = [] := List.eq_nil_of_length_eq_zero (by
      rw [List.length_append] at hlen
      omega)
    exact ⟨m, hm, by rw [this, List.append_nil]⟩
  · rintro ⟨m, hm, rfl⟩
    exact ⟨m, ⟨hm, [], (List.append_nil _).symm⟩, rfl⟩

/-! ## The match chosen -/

/-- The earlier of two matches in the order of `splits`: the first segment that differs is longer. -/
def Longer : List (List α) → List (List α) → Prop
  | a :: m, b :: m' => b.length < a.length ∨ (a.length = b.length ∧ Longer m m')
  | _, _ => False

theorem pairwise_takes (i : Item α) (s : List α) : (i.takes s).Pairwise (· > ·) := by
  rw [Item.takes]
  exact (List.pairwise_reverse.mpr List.pairwise_lt_range).filter _

/-- The matches are listed with longer segments first. -/
theorem pairwise_splits (is : List (Item α)) (s : List α) : (splits is s).Pairwise Longer := by
  induction is generalizing s with
  | nil => exact List.pairwise_singleton _ _
  | cons i is ih =>
      rw [splits, List.pairwise_flatMap]
      refine ⟨fun n _ => List.pairwise_map.mpr ((ih _).imp fun h => .inr ⟨rfl, h⟩), ?_⟩
      refine (pairwise_takes i s).imp_of_mem fun {n k} hn hk hnk m hm m' hm' => ?_
      obtain ⟨m, -, rfl⟩ := List.mem_map.mp hm
      obtain ⟨m', -, rfl⟩ := List.mem_map.mp hm'
      have hns := (Item.mem_takes.mp hn).1
      refine .inl ?_
      rw [List.length_take, List.length_take]
      omega

/-- The match chosen is a longest one, and comes first among those. -/
theorem longest_spec {ms : List (List (List α))} {m m' : List (List α)} (h : longest ms = some m)
    (hm' : m' ∈ ms) (hpair : ms.Pairwise Longer) :
    m'.flatten.length ≤ m.flatten.length ∧
      (m'.flatten.length = m.flatten.length → m' = m ∨ Longer m m') := by
  induction ms generalizing m with
  | nil => cases h
  | cons a ms ih =>
      obtain ⟨ha, hpair⟩ := List.pairwise_cons.mp hpair
      rw [longest] at h
      cases hl : longest ms with
      | none =>
          rw [hl] at h
          obtain rfl := Option.some.inj h
          rw [longest_eq_none.mp hl] at hm'
          obtain rfl := List.mem_singleton.mp hm'
          exact ⟨le_rfl, fun _ => .inl rfl⟩
      | some b =>
          rw [hl] at h
          dsimp only at h
          split at h
          · obtain rfl := Option.some.inj h
            rcases List.mem_cons.mp hm' with rfl | hm'
            · exact ⟨by omega, fun h => by omega⟩
            · exact ih hl hm' hpair
          · obtain rfl := Option.some.inj h
            rcases List.mem_cons.mp hm' with rfl | hm'
            · exact ⟨le_rfl, fun _ => .inl rfl⟩
            · obtain ⟨hle, -⟩ := ih hl hm' hpair
              exact ⟨by omega, fun _ => .inr (ha m' hm')⟩

/-- Any match of the pattern is at most as long as the one that a search finds, and one of the same
length does not have a longer segment first. -/
theorem search_spec {is : List (Item α)} {s rest : List α} {m m' : List (List α)}
    (h : search is s = some m) (hm' : List.Forall₂ Item.Accepts is m')
    (hs : s = m'.flatten ++ rest) :
    m'.flatten.length ≤ m.flatten.length ∧
      (m'.flatten.length = m.flatten.length → m' = m ∨ Longer m m') :=
  longest_spec h (mem_splits.mpr ⟨hm', rest, hs⟩) (pairwise_splits is s)

/-! ## The first division -/

/-- Nothing matches where there is no division of the whole input. -/
theorem searchWhole_eq_none {is : List (Item α)} {s : List α}
    (h : ∀ m, List.Forall₂ Item.Accepts is m → s ≠ m.flatten) : searchWhole is s = none := by
  rw [searchWhole, List.find?_eq_none]
  intro m hm hlen
  obtain ⟨hacc, rest, hs⟩ := mem_splits.mp hm
  have hrest : rest = [] := List.eq_nil_of_length_eq_zero (by
    have hlen := beq_iff_eq.mp hlen
    rw [hs, List.length_append] at hlen
    omega)
  rw [hrest, List.append_nil] at hs
  exact h m hacc hs

theorem Item.bound_le (i : Item α) (s : List α) : i.bound s ≤ s.length := by
  have hrun := (List.takeWhile_sublist i.cls (l := s)).length_le
  rw [Item.bound]
  cases i.most with
  | none => exact hrun
  | some n => exact (min_le_left _ _).trans hrun

/-- The first item takes as much as it can if the others match what it leaves. -/
theorem searchWhole_cons {i : Item α} {is : List (Item α)} {s : List α} {m : List (List α)}
    (hleast : i.least ≤ i.bound s) (h : searchWhole is (s.drop (i.bound s)) = some m) :
    searchWhole (i :: is) s = some (s.take (i.bound s) :: m) := by
  have htakes : ∃ fewer, i.takes s = i.bound s :: fewer := by
    rw [Item.takes, List.range_succ, List.reverse_append, List.reverse_singleton,
      List.singleton_append, List.filter_cons, if_pos (decide_eq_true hleast)]
    exact ⟨_, rfl⟩
  obtain ⟨fewer, htakes⟩ := htakes
  have hbound := i.bound_le s
  have hlen (m : List (List α)) : ((s.take (i.bound s) :: m).flatten.length == s.length) =
      (m.flatten.length == (s.drop (i.bound s)).length) := by
    rw [List.flatten_cons, List.length_append, List.length_take, List.length_drop,
      min_eq_left hbound, Bool.eq_iff_iff, beq_iff_eq, beq_iff_eq]
    omega
  have hfirst : ((splits is (s.drop (i.bound s))).map (s.take (i.bound s) :: ·)).find?
      (fun m => m.flatten.length == s.length) = some (s.take (i.bound s) :: m) := by
    rw [List.find?_map]
    have hcomp : ((fun m : List (List α) => m.flatten.length == s.length) ∘
        (s.take (i.bound s) :: ·)) = fun m => m.flatten.length == (s.drop (i.bound s)).length :=
      funext hlen
    rw [hcomp, show List.find? _ _ = some m from h]
    rfl
  rw [searchWhole, splits, htakes, List.flatMap_cons, List.find?_append, hfirst, Option.some_or]

section Runs

variable {cls : α → Bool} {is : List (Item α)} {seg rest : List α} {m : List (List α)}

/-- A run of the class in front of something else. -/
theorem takeWhile_run (hseg : ∀ a ∈ seg, cls a = true) (hrest : ∀ a ∈ rest.head?, cls a = false) :
    (seg ++ rest).takeWhile cls = seg := by
  rw [List.takeWhile_append_of_pos hseg]
  cases rest with
  | nil => rw [List.takeWhile_nil, List.append_nil]
  | cons a rest =>
    rw [List.takeWhile_cons_of_neg (by rw [hrest a rfl]; exact Bool.false_ne_true), List.append_nil]

theorem searchWhole_star (hseg : ∀ a ∈ seg, cls a = true)
    (hrest : ∀ a ∈ rest.head?, cls a = false) (h : searchWhole is rest = some m) :
    searchWhole (.star cls :: is) (seg ++ rest) = some (seg :: m) := by
  have hbound : (Item.star cls).bound (seg ++ rest) = seg.length :=
    congrArg List.length (takeWhile_run hseg hrest)
  have hcons : searchWhole (.star cls :: is) (seg ++ rest) =
      some ((seg ++ rest).take ((Item.star cls).bound (seg ++ rest)) :: m) := searchWhole_cons
    (Nat.zero_le _) (by rw [hbound, List.drop_left]; exact h)
  rwa [hbound, List.take_left] at hcons

theorem searchWhole_plus (hne : seg ≠ []) (hseg : ∀ a ∈ seg, cls a = true)
    (hrest : ∀ a ∈ rest.head?, cls a = false) (h : searchWhole is rest = some m) :
    searchWhole (.plus cls :: is) (seg ++ rest) = some (seg :: m) := by
  have hbound : (Item.plus cls).bound (seg ++ rest) = seg.length :=
    congrArg List.length (takeWhile_run hseg hrest)
  have hcons : searchWhole (.plus cls :: is) (seg ++ rest) =
      some ((seg ++ rest).take ((Item.plus cls).bound (seg ++ rest)) :: m) := searchWhole_cons
    (by rw [hbound]; exact List.length_pos_iff.mpr hne) (by rw [hbound, List.drop_left]; exact h)
  rwa [hbound, List.take_left] at hcons

theorem searchWhole_one {a : α} (ha : cls a = true) (h : searchWhole is rest = some m) :
    searchWhole (.one cls :: is) (a :: rest) = some ([a] :: m) := by
  have hbound : (Item.one cls).bound (a :: rest) = 1 := by
    rw [Item.bound, show (Item.one cls).cls = cls from rfl, List.takeWhile_cons_of_pos ha]
    exact min_eq_right (Nat.succ_pos _)
  have hcons : searchWhole (.one cls :: is) (a :: rest) =
      some ((a :: rest).take ((Item.one cls).bound (a :: rest)) :: m) := searchWhole_cons
    hbound.ge (by rw [hbound]; exact h)
  rwa [hbound] at hcons

theorem searchWhole_opt {a : α} (ha : cls a = true) (h : searchWhole is rest = some m) :
    searchWhole (.opt cls :: is) (a :: rest) = some ([a] :: m) := by
  have hbound : (Item.opt cls).bound (a :: rest) = 1 := by
    rw [Item.bound, show (Item.opt cls).cls = cls from rfl, List.takeWhile_cons_of_pos ha]
    exact min_eq_right (Nat.succ_pos _)
  have hcons : searchWhole (.opt cls :: is) (a :: rest) =
      some ((a :: rest).take ((Item.opt cls).bound (a :: rest)) :: m) := searchWhole_cons
    (Nat.zero_le _) (by rw [hbound]; exact h)
  rwa [hbound] at hcons

theorem searchWhole_opt_nil (h : searchWhole is [] = some m) :
    searchWhole (.opt cls :: is) [] = some ([] :: m) :=
  searchWhole_cons (i := .opt cls) (Nat.zero_le _) h

/-- Symbols of the class in front of something are within the run of the class. -/
theorem exists_of_append_eq_run {run after : List α} (hseg : ∀ a ∈ seg, cls a = true)
    (hrest : ∀ a ∈ rest.head?, cls a = false) (h : seg ++ after = run ++ rest) :
    ∃ left, run = seg ++ left ∧ after = left ++ rest := by
  obtain ⟨left, rfl, hafter⟩ | ⟨more, rfl, hmore⟩ := List.append_eq_append_iff.mp h
  · exact ⟨left, rfl, hafter⟩
  · cases more with
    | nil => exact ⟨[], by simp, by simpa using hmore.symm⟩
    | cons a more =>
      have ha := hseg a (List.mem_append_right _ List.mem_cons_self)
      rw [hrest a (by rw [hmore]; rfl)] at ha
      exact absurd ha Bool.false_ne_true

end Runs

/-! ## Alternations -/

/-- What a class matches. -/
theorem exists_of_accepts_one {cls : α → Bool} {seg : List α} (h : (Item.one cls).Accepts seg) :
    ∃ a, seg = [a] ∧ cls a = true := by
  obtain ⟨hcls, hleast, hmost⟩ := h
  obtain ⟨a, rfl⟩ := List.length_eq_one_iff.mp (Nat.le_antisymm (hmost 1 rfl) hleast)
  exact ⟨a, rfl, hcls a List.mem_cons_self⟩

/-- What a sequence of classes matches is a sequence of symbols of these classes. -/
theorem forall₂_of_accepts_ones {cs : List (α → Bool)} {m : List (List α)}
    (h : List.Forall₂ Item.Accepts (cs.map Item.one) m) :
    List.Forall₂ (fun cls a => cls a = true) cs m.flatten := by
  induction cs generalizing m with
  | nil =>
    cases h
    exact .nil
  | cons cls cs ih =>
    rw [List.map_cons] at h
    cases h with
    | cons hseg hrest =>
      obtain ⟨a, rfl, ha⟩ := exists_of_accepts_one hseg
      exact .cons ha (ih hrest)

/-- A sequence of symbols of the classes is matched. -/
theorem accepts_ones_of_forall₂ {cs : List (α → Bool)} {s : List α}
    (h : List.Forall₂ (fun cls a => cls a = true) cs s) :
    ∃ m, List.Forall₂ Item.Accepts (cs.map Item.one) m ∧ m.flatten = s := by
  induction h with
  | nil => exact ⟨[], .nil, rfl⟩
  | cons ha _ ih =>
    obtain ⟨m, hm, rfl⟩ := ih
    exact ⟨[_] :: m, .cons (Item.accepts_one ha) hm, rfl⟩

/-- What a literal matches is the literal. -/
theorem flatten_of_accepts_literal [BEq α] [LawfulBEq α] {literal : List α} {m : List (List α)}
    (h : List.Forall₂ Item.Accepts (literal.map fun a => Item.one (· == a)) m) :
    m.flatten = literal := by
  have hones : literal.map (fun a => Item.one (· == a)) =
      (literal.map fun a b => b == a).map Item.one := by
    rw [List.map_map]
    rfl
  rw [hones] at h
  have hsymbols := forall₂_of_accepts_ones h
  rw [List.forall₂_map_left_iff] at hsymbols
  have hsame : List.Forall₂ (fun a b => a = b) literal m.flatten :=
    hsymbols.imp fun _ _ hab => (beq_iff_eq.mp hab).symm
  exact (List.forall₂_eq_eq_eq ▸ hsame : literal = m.flatten).symm

/-- A branch of an alternation, which may be anchored at the start and at the end of the input. -/
structure Branch (α : Type*) where
  atStart : Bool
  items : List (Item α)
  atEnd : Bool

/-- Whether a branch matches somewhere in `s`. -/
def Branch.occurs (b : Branch α) (s : List α) : Bool :=
  (if b.atStart then [s] else s.tails).any fun t =>
    (splits b.items t).any fun m => !b.atEnd || m.flatten.length == t.length

/-- Whether an alternation matches somewhere in `s`. -/
def occursAny (bs : List (Branch α)) (s : List α) : Bool :=
  bs.any fun b => b.occurs s

/-- A branch matches a part of the input, at an end if it is anchored there. -/
theorem Branch.occurs_iff {b : Branch α} {s : List α} :
    b.occurs s = true ↔ ∃ front m rest, s = front ++ (m.flatten ++ rest) ∧
      List.Forall₂ Item.Accepts b.items m ∧ (b.atStart = true → front = []) ∧
      (b.atEnd = true → rest = []) := by
  -- the match that begins at the front of `t`
  have hpart {t : List α} : (splits b.items t).any
        (fun m => !b.atEnd || m.flatten.length == t.length) = true ↔
      ∃ m rest, t = m.flatten ++ rest ∧ List.Forall₂ Item.Accepts b.items m ∧
        (b.atEnd = true → rest = []) := by
    simp only [List.any_eq_true, mem_splits, Bool.or_eq_true, Bool.not_eq_true', beq_iff_eq]
    constructor
    · rintro ⟨m, ⟨hm, rest, rfl⟩, hend⟩
      refine ⟨m, rest, rfl, hm, fun h => ?_⟩
      have hlen := hend.resolve_left (by simp [h])
      rw [List.length_append] at hlen
      exact List.eq_nil_of_length_eq_zero (by omega)
    · rintro ⟨m, rest, rfl, hm, hend⟩
      refine ⟨m, ⟨hm, rest, rfl⟩, ?_⟩
      cases h : b.atEnd with
      | false => exact .inl rfl
      | true => rw [hend h, List.append_nil]; exact .inr rfl
  unfold Branch.occurs
  rw [List.any_eq_true]
  simp only [hpart]
  constructor
  · rintro ⟨t, ht, m, rest, rfl, hm, hend⟩
    cases h : b.atStart with
    | true =>
      rw [h, if_pos rfl, List.mem_singleton] at ht
      exact ⟨[], m, rest, ht.symm, hm, fun _ => rfl, hend⟩
    | false =>
      rw [h, if_neg Bool.false_ne_true, List.mem_tails] at ht
      obtain ⟨front, rfl⟩ := ht
      exact ⟨front, m, rest, rfl, hm, fun h => (Bool.false_ne_true h).elim, hend⟩
  · rintro ⟨front, m, rest, rfl, hm, hstart, hend⟩
    refine ⟨m.flatten ++ rest, ?_, m, rest, rfl, hm, hend⟩
    cases h : b.atStart with
    | true =>
      rw [hstart h]
      exact List.mem_singleton.mpr rfl
    | false =>
      rw [if_neg Bool.false_ne_true, List.mem_tails]
      exact List.suffix_append front _

/-- A branch of classes matches where there are symbols of these classes. -/
theorem occurs_ones {atStart atEnd : Bool} {cs : List (α → Bool)} {s : List α} :
    (Branch.mk atStart (cs.map Item.one) atEnd).occurs s = true ↔
      ∃ front part rest, s = front ++ (part ++ rest) ∧
        List.Forall₂ (fun cls a => cls a = true) cs part ∧ (atStart = true → front = []) ∧
        (atEnd = true → rest = []) := by
  rw [Branch.occurs_iff]
  constructor
  · rintro ⟨front, m, rest, rfl, hm, hstart, hend⟩
    exact ⟨front, m.flatten, rest, rfl, forall₂_of_accepts_ones hm, hstart, hend⟩
  · rintro ⟨front, part, rest, rfl, hpart, hstart, hend⟩
    obtain ⟨m, hm, rfl⟩ := accepts_ones_of_forall₂ hpart
    exact ⟨front, m, rest, rfl, hm, hstart, hend⟩

/-- A class matches somewhere. -/
theorem occurs_class {cls : α → Bool} {s : List α} :
    (Branch.mk false [.one cls] false).occurs s = true ↔ ∃ a ∈ s, cls a = true := by
  have hcs := @occurs_ones α false false [cls] s
  refine hcs.trans ⟨?_, ?_⟩
  · rintro ⟨front, part, rest, rfl, hpart, -⟩
    obtain ⟨a, _, ha, hnil, rfl⟩ := List.forall₂_cons_left_iff.mp hpart
    cases hnil
    exact ⟨a, List.mem_append_right front List.mem_cons_self, ha⟩
  · rintro ⟨a, ha, hcls⟩
    obtain ⟨front, rest, rfl⟩ := List.append_of_mem ha
    exact ⟨front, [a], rest, rfl, .cons hcls .nil, nofun, nofun⟩

/-- A class matches at the start. -/
theorem occurs_class_start {cls : α → Bool} {s : List α} :
    (Branch.mk true [.one cls] false).occurs s = true ↔ ∃ a, s.head? = some a ∧ cls a = true := by
  have hcs := @occurs_ones α true false [cls] s
  refine hcs.trans ⟨?_, ?_⟩
  · rintro ⟨front, part, rest, rfl, hpart, hfront, -⟩
    obtain ⟨a, _, ha, hnil, rfl⟩ := List.forall₂_cons_left_iff.mp hpart
    cases hnil
    rw [hfront rfl]
    exact ⟨a, rfl, ha⟩
  · rintro ⟨a, ha, hcls⟩
    exact ⟨[], [a], s.tail, (List.cons_head?_tail ha).symm, .cons hcls .nil, fun _ => rfl, nofun⟩

/-- A class matches at the end. -/
theorem occurs_class_end {cls : α → Bool} {s : List α} :
    (Branch.mk false [.one cls] true).occurs s = true ↔
      ∃ a, s.getLast? = some a ∧ cls a = true := by
  have hcs := @occurs_ones α false true [cls] s
  refine hcs.trans ⟨?_, ?_⟩
  · rintro ⟨front, part, rest, rfl, hpart, -, hrest⟩
    obtain ⟨a, _, ha, hnil, rfl⟩ := List.forall₂_cons_left_iff.mp hpart
    cases hnil
    rw [hrest rfl, List.append_nil]
    exact ⟨a, List.getLast?_concat, ha⟩
  · rintro ⟨a, ha, hcls⟩
    obtain ⟨front, rfl⟩ := List.getLast?_eq_some_iff.mp ha
    exact ⟨front, [a], [], rfl, .cons hcls .nil, nofun, fun _ => rfl⟩

/-- A branch of classes that is anchored at both ends matches the whole input. -/
theorem occurs_whole {cs : List (α → Bool)} {s : List α} :
    (Branch.mk true (cs.map Item.one) true).occurs s = true ↔
      List.Forall₂ (fun cls a => cls a = true) cs s := by
  rw [occurs_ones]
  constructor
  · rintro ⟨front, part, rest, rfl, hpart, hfront, hrest⟩
    rwa [hfront rfl, hrest rfl, List.nil_append, List.append_nil]
  · intro h
    exact ⟨[], s, [], (List.append_nil s).symm, h, fun _ => rfl, fun _ => rfl⟩

end VplJail.PosixRegex
