import VplJail.Common.Bytes
import VplJail.Common.PosixRegex

/-!
# Expressions for lines

Expressions of the form `pre^post`, compiled so that `^` stands at the start of every line. Where `pre`
is `.*`, which stays in its line, it takes nothing, and the expression looks for the first line that
starts with `post` (`searchLine_append`). Expressions of the form `(^|x)is(x|$)`, where the ends are those
of the whole text, look for a line that `is` matches whole (`searchFramed_found`).
-/

namespace VplJail.PosixRegex

/-! ## Runs that are taken whole -/

section Runs

variable {α : Type*} {cls : α → Bool} {is : List (Item α)} {s seg rest : List α}

theorem longest_map_cons (seg : List α) (ms : List (List (List α))) :
    longest (ms.map (seg :: ·)) = (longest ms).map (seg :: ·) := by
  induction ms with
  | nil => rfl
  | cons m ms ih =>
    rw [List.map_cons, longest, longest, ih]
    cases longest ms with
    | none => rfl
    | some m' =>
      simp only [Option.map_some, List.flatten_cons, List.length_append, Nat.add_lt_add_iff_left]
      split <;> rfl

/-- The first item takes as much as it can if the others match nothing where it takes less. -/
theorem search_cons {i : Item α} (hleast : i.least ≤ i.bound s)
    (hfewer : ∀ n ∈ i.takes s, n < i.bound s → search is (s.drop n) = none) :
    search (i :: is) s = (search is (s.drop (i.bound s))).map (s.take (i.bound s) :: ·) := by
  have htakes : ∃ fewer, i.takes s = i.bound s :: fewer := by
    rw [Item.takes, List.range_succ, List.reverse_append, List.reverse_singleton,
      List.singleton_append, List.filter_cons, if_pos (decide_eq_true hleast)]
    exact ⟨_, rfl⟩
  obtain ⟨fewer, htakes⟩ := htakes
  have hless := pairwise_takes i s
  rw [htakes] at hless hfewer
  have hnone : (fewer.flatMap fun n => (splits is (s.drop n)).map (s.take n :: ·)) = [] := by
    rw [List.flatMap_eq_nil_iff]
    intro n hn
    have hlt := (List.pairwise_cons.mp hless).1 n hn
    rw [longest_eq_none.mp (hfewer n (List.mem_cons_of_mem _ hn) hlt), List.map_nil]
  rw [search, splits, htakes, List.flatMap_cons, hnone, List.append_nil, longest_map_cons]
  rfl

theorem search_one {a : α} (ha : cls a = true) :
    search (.one cls :: is) (a :: rest) = (search is rest).map ([a] :: ·) := by
  have hbound : (Item.one cls).bound (a :: rest) = 1 := by
    rw [Item.bound, show (Item.one cls).cls = cls from rfl, List.takeWhile_cons_of_pos ha]
    exact min_eq_right (Nat.succ_le_succ (Nat.zero_le _))
  have hcons : search (.one cls :: is) (a :: rest) = _ :=
    search_cons (by rw [hbound]; rfl) fun n hn hlt => by
      have hleast := (Item.mem_takes.mp hn).2.2.1
      rw [hbound] at hlt
      rw [List.length_take, show (Item.one cls).least = 1 from rfl] at hleast
      omega
  rw [hcons, hbound]
  rfl

theorem search_one_eq_none {a : α} (ha : cls a = false) :
    search (.one cls :: is) (a :: rest) = none := by
  refine search_eq_none.mpr fun m rest' hm heq => ?_
  obtain ⟨seg, more, hseg, -, rfl⟩ := List.forall₂_cons_left_iff.mp hm
  obtain ⟨b, rfl, hb⟩ := exists_of_accepts_one hseg
  rw [← (List.cons.inj heq).1, ha] at hb
  cases hb

theorem search_plus_eq_none {a : α} (ha : cls a = false) :
    search (.plus cls :: is) (a :: rest) = none := by
  refine search_eq_none.mpr fun m rest' hm heq => ?_
  obtain ⟨seg, more, hseg, -, rfl⟩ := List.forall₂_cons_left_iff.mp hm
  cases seg with
  | nil => exact absurd hseg.2.1 (Nat.not_succ_le_zero 0)
  | cons b seg =>
    have hb : cls b = true := hseg.1 b List.mem_cons_self
    rw [← (List.cons.inj heq).1, ha] at hb
    cases hb

/-- A run is taken whole if the others match nothing that starts within it. -/
theorem search_plus (hne : seg ≠ []) (hseg : ∀ a ∈ seg, cls a = true)
    (hrest : ∀ a ∈ rest.head?, cls a = false)
    (hfewer : ∀ a ∈ seg.tail, ∀ t, search is (a :: t) = none) :
    search (.plus cls :: is) (seg ++ rest) = (search is rest).map (seg :: ·) := by
  have hbound : (Item.plus cls).bound (seg ++ rest) = seg.length :=
    congrArg List.length (takeWhile_run hseg hrest)
  have hcons : search (.plus cls :: is) (seg ++ rest) = _ :=
    search_cons (by rw [hbound]; exact List.length_pos_iff.mpr hne) fun n hn hlt => by
      rw [hbound] at hlt
      have hleast : 1 ≤ ((seg ++ rest).take n).length := (Item.mem_takes.mp hn).2.2.1
      rw [List.length_take] at hleast
      obtain ⟨k, rfl⟩ : ∃ k, n = k + 1 := ⟨n - 1, by omega⟩
      rw [List.drop_append_of_le_length hlt.le, List.drop_eq_getElem_cons hlt]
      refine hfewer _ ?_ _
      rw [← List.getElem_tail (i := k) (by rw [List.length_tail]; omega)]
      exact List.getElem_mem _
  rw [hcons, hbound, List.drop_left, List.take_left]

/-- The match that is found is the only one that is as long. -/
theorem search_eq_some_of_unique {m : List (List α)} (hm : List.Forall₂ Item.Accepts is m)
    (hs : s = m.flatten ++ rest)
    (hunique : ∀ m' rest', List.Forall₂ Item.Accepts is m' → s = m'.flatten ++ rest' →
      m.flatten.length ≤ m'.flatten.length → m' = m) : search is s = some m := by
  cases h : search is s with
  | none => exact absurd hs (search_eq_none.mp h m rest hm)
  | some m' =>
    obtain ⟨haccepts, rest', hrest'⟩ := accepts_of_search h
    rw [hunique m' rest' haccepts hrest' (search_spec h hm hs).1]

/-- A last run is taken whole, whether one symbol is needed or none. -/
theorem search_last {i : Item α} (hi : i = .plus cls ∨ i = .star cls) (hne : i.least ≤ seg.length)
    (hseg : ∀ a ∈ seg, cls a = true) (hrest : ∀ a ∈ rest.head?, cls a = false) :
    search [i] (seg ++ rest) = some [seg] := by
  have hcls : i.cls = cls ∧ i.most = none := by
    rcases hi with rfl | rfl <;> exact ⟨rfl, rfl⟩
  have haccepts : i.Accepts seg :=
    ⟨by rwa [hcls.1], hne, by rw [hcls.2]; exact nofun⟩
  refine search_eq_some_of_unique (.cons haccepts .nil) (by rw [List.flatten_singleton]) ?_
  intro m' rest' hm' hs' hlength
  obtain ⟨seg', more, hseg', hmore, rfl⟩ := List.forall₂_cons_left_iff.mp hm'
  obtain rfl := List.forall₂_nil_left_iff.mp hmore
  rw [List.flatten_singleton] at hs' hlength
  obtain ⟨left, hleft, -⟩ := exists_of_append_eq_run (hcls.1 ▸ hseg'.1) hrest hs'.symm
  rw [List.flatten_singleton] at hlength
  have hnil : left = [] := by
    have hlen := congrArg List.length hleft
    rw [List.length_append] at hlen
    exact List.length_eq_zero_iff.mp (by omega)
  rw [hleft, hnil, List.append_nil]

end Runs

/-! ## Lines -/

variable {α : Type*} [DecidableEq α]

/-- The matches of `pre^post` from here on. `atLine` tells whether a line starts here. -/
def lineMatches (nl : α) (pre post : List (Item α)) (atLine : Bool) (s : List α) :
    List (List (List α)) :=
  (splits pre s).flatMap fun m =>
    if (m.flatten.getLast?.map fun a => decide (a = nl)).getD atLine then
      (splits post (s.drop m.flatten.length)).map (m ++ ·)
    else []

/-- The match of `pre^post`: at the first place where there is one. -/
def searchLine (nl : α) (pre post : List (Item α)) (atLine : Bool) : List α → Option (List (List α))
  | [] => longest (lineMatches nl pre post atLine [])
  | a :: s => (longest (lineMatches nl pre post atLine (a :: s))).or
      (searchLine nl pre post (decide (a = nl)) s)

/-- `.*`: anything but the end of a line. -/
def dotStar (nl : α) : List (Item α) :=
  [.star fun a => decide (a ≠ nl)]

section DotStar

variable {nl : α} {post : List (Item α)} {m : List (List α)} {s line rest : List α}

/-- In front of `^`, `.*` takes nothing. -/
theorem lineMatches_dotStar (atLine : Bool) (s : List α) :
    lineMatches nl (dotStar nl) post atLine s =
      if atLine then (splits post s).map ([] :: ·) else [] := by
  have htakes : (Item.star fun a => decide (a ≠ nl)).takes s =
      ((List.range ((Item.star fun a => decide (a ≠ nl)).bound s)).map Nat.succ).reverse ++ [0] := by
    have hall : ∀ n ∈ (List.range ((Item.star fun a => decide (a ≠ nl)).bound s + 1)).reverse,
        decide ((Item.star fun a => decide (a ≠ nl)).least ≤ n) = true :=
      fun n _ => decide_eq_true (Nat.zero_le n)
    rw [Item.takes, List.filter_eq_self.mpr hall, List.range_succ_eq_map, List.reverse_cons]
  -- a segment that is not empty ends in a symbol of its line
  have hnone (n : ℕ) (hn : n + 1 ∈ (Item.star fun a => decide (a ≠ nl)).takes s) :
      ((s.take (n + 1)).getLast?.map fun a => decide (a = nl)).getD atLine = false := by
    obtain ⟨hle, hcls, -, -⟩ := Item.mem_takes.mp hn
    have hne : s.take (n + 1) ≠ [] := by
      intro hnil
      have hlen := congrArg List.length hnil
      rw [List.length_take_of_le hle] at hlen
      cases hlen
    have hlast := of_decide_eq_true (hcls _ (List.getLast_mem hne))
    rw [List.getLast?_eq_some_getLast hne, Option.map_some, Option.getD_some]
    exact decide_eq_false hlast
  have hsplits : lineMatches nl (dotStar nl) post atLine s =
      ((Item.star fun a => decide (a ≠ nl)).takes s).flatMap fun n =>
        if ((s.take n).getLast?.map fun a => decide (a = nl)).getD atLine then
          (splits post (s.drop n)).map ([s.take n] ++ ·)
        else [] := by
    rw [lineMatches, dotStar, splits, List.flatMap_assoc]
    refine List.flatMap_congr fun n hn => ?_
    have hlength : (s.take n).length = n := List.length_take_of_le (Item.mem_takes.mp hn).1
    simp only [splits, List.map_cons, List.map_nil, List.flatMap_singleton, List.flatten_cons,
      List.flatten_nil, List.append_nil, hlength]
  have hzero : ∀ n ∈ ((List.range ((Item.star fun a => decide (a ≠ nl)).bound s)).map
      Nat.succ).reverse, (if ((s.take n).getLast?.map fun a => decide (a = nl)).getD atLine then
          (splits post (s.drop n)).map ([s.take n] ++ ·) else []) = [] := by
    intro n hn
    have hmem : n ∈ (Item.star fun a => decide (a ≠ nl)).takes s := by
      rw [htakes]
      exact List.mem_append_left _ hn
    obtain ⟨k, -, rfl⟩ := List.mem_map.mp (List.mem_reverse.mp hn)
    rw [if_neg (ne_true_of_eq_false (hnone k hmem))]
  rw [hsplits, htakes, List.flatMap_append, List.flatMap_eq_nil_iff.mpr hzero, List.nil_append,
    List.flatMap_singleton]
  rfl

/-- Where a line starts that the expression matches, it is found. -/
theorem searchLine_of_search (h : search post s = some m) :
    searchLine nl (dotStar nl) post true s = some ([] :: m) := by
  have hlongest : longest (lineMatches nl (dotStar nl) post true s) = some ([] :: m) := by
    rw [lineMatches_dotStar, if_pos rfl, longest_map_cons]
    exact congrArg (Option.map ([] :: ·)) h
  cases s with
  | nil => exact hlongest
  | cons a s => rw [searchLine, hlongest, Option.some_or]

/-- In the middle of a line there is no match: the search goes on with the next line. -/
theorem searchLine_middle (hline : nl ∉ line) :
    searchLine nl (dotStar nl) post false (line ++ nl :: rest) =
      searchLine nl (dotStar nl) post true rest := by
  have hnone (t : List α) : longest (lineMatches nl (dotStar nl) post false t) = none := by
    rw [lineMatches_dotStar, if_neg Bool.false_ne_true]
    rfl
  induction line with
  | nil => rw [List.nil_append, searchLine, hnone, Option.none_or, decide_eq_true rfl]
  | cons a line ih =>
    rw [List.mem_cons, not_or] at hline
    rw [List.cons_append, searchLine, hnone, Option.none_or, decide_eq_false (Ne.symm hline.1)]
    exact ih hline.2

/-- A line that the expression does not match is skipped. -/
theorem searchLine_skip (hline : nl ∉ line) (hnone : search post (line ++ nl :: rest) = none) :
    searchLine nl (dotStar nl) post true (line ++ nl :: rest) =
      searchLine nl (dotStar nl) post true rest := by
  have hlongest : longest (lineMatches nl (dotStar nl) post true (line ++ nl :: rest)) = none := by
    rw [lineMatches_dotStar, if_pos rfl, longest_map_cons]
    exact congrArg (Option.map ([] :: ·)) hnone
  cases line with
  | nil =>
    rw [List.nil_append] at hlongest ⊢
    rw [searchLine, hlongest, Option.none_or, decide_eq_true rfl]
  | cons a line =>
    rw [List.mem_cons, not_or] at hline
    rw [List.cons_append] at hlongest ⊢
    rw [searchLine, hlongest, Option.none_or, decide_eq_false (Ne.symm hline.1)]
    exact searchLine_middle hline.2

/-- The text of some lines. -/
def linesText (nl : α) (lines : List (List α)) : List α :=
  lines.flatMap fun line => line ++ [nl]

/-- Lines that the expression does not match are skipped. -/
theorem searchLine_append {lines : List (List α)} (hlines : ∀ line ∈ lines, nl ∉ line)
    (hnone : ∀ line ∈ lines, ∀ rest, search post (line ++ nl :: rest) = none) (rest : List α) :
    searchLine nl (dotStar nl) post true (linesText nl lines ++ rest) =
      searchLine nl (dotStar nl) post true rest := by
  induction lines with
  | nil => rfl
  | cons line lines ih =>
    obtain ⟨hline, hlines⟩ := List.forall_mem_cons.mp hlines
    obtain ⟨hfirst, hnone⟩ := List.forall_mem_cons.mp hnone
    have htext : linesText nl (line :: lines) ++ rest =
        line ++ nl :: (linesText nl lines ++ rest) := by
      rw [linesText, List.flatMap_cons, List.append_assoc, List.append_assoc]
      rfl
    rw [htext, searchLine_skip hline (hfirst _), ih hlines hnone]

/-- Behind the last line there is nothing to match. -/
theorem searchLine_nil (hnone : search post ([] : List α) = none) :
    searchLine nl (dotStar nl) post true [] = none := by
  rw [searchLine, lineMatches_dotStar, if_pos rfl, longest_map_cons]
  exact congrArg (Option.map ([] :: ·)) hnone

end DotStar

/-! ## Whole lines -/

omit [DecidableEq α] in
/-- A match of two patterns in a row. -/
theorem accepts_append_iff {is is' : List (Item α)} {m : List (List α)} :
    List.Forall₂ Item.Accepts (is ++ is') m ↔ ∃ front back, m = front ++ back ∧
      List.Forall₂ Item.Accepts is front ∧ List.Forall₂ Item.Accepts is' back := by
  constructor
  · intro h
    exact ⟨m.take is.length, m.drop is.length, (List.take_append_drop ..).symm,
      (List.forall₂_take_append _ _ _ h.flip).flip, (List.forall₂_drop_append _ _ _ h.flip).flip⟩
  · rintro ⟨front, back, rfl, hfront, hback⟩
    exact List.rel_append hfront hback

/-- What a literal matches, symbol by symbol. -/
theorem accepts_literal_iff {literal : List α} {m : List (List α)} :
    List.Forall₂ Item.Accepts (literal.map fun a => Item.one (· == a)) m ↔
      m = literal.map ([·]) := by
  constructor
  · intro h
    induction literal generalizing m with
    | nil => exact List.forall₂_nil_left_iff.mp h
    | cons a literal ih =>
      obtain ⟨seg, more, hseg, hmore, rfl⟩ := List.forall₂_cons_left_iff.mp h
      obtain ⟨b, rfl, hb⟩ := exists_of_accepts_one hseg
      rw [beq_iff_eq.mp hb, ih hmore]
      rfl
  · rintro rfl
    induction literal with
    | nil => exact .nil
    | cons a literal ih => exact .cons (Item.accepts_one (beq_self_eq_true a)) ih

/-- `(^|x)is(x|$)` without what the ends ask for. -/
def framed (nl : α) (is : List (Item α)) : List (Item α) :=
  .opt (fun a => decide (a = nl)) :: (is ++ [.opt fun a => decide (a = nl)])

/-- The matches of `(^|x)is(x|$)` from here on. -/
def framedMatches (nl : α) (is : List (Item α)) (atStart : Bool) (s : List α) :
    List (List (List α)) :=
  (splits (framed nl is) s).filter fun m =>
    (atStart || decide (m.head? ≠ some [])) &&
      (decide (m.getLast? ≠ some []) || decide (m.flatten.length = s.length))

/-- The match of `(^|x)is(x|$)`: at the first place where there is one. -/
def searchFramed (nl : α) (is : List (Item α)) (atStart : Bool) : List α → Option (List (List α))
  | [] => longest (framedMatches nl is atStart [])
  | a :: s => (longest (framedMatches nl is atStart (a :: s))).or (searchFramed nl is false s)

section Framed

variable {nl : α} {is : List (Item α)} {m : List (List α)} {s line rest : List α} {atStart : Bool}

theorem accepts_end_iff {seg : List α} :
    (Item.opt fun a => decide (a = nl)).Accepts seg ↔ seg = [] ∨ seg = [nl] := by
  constructor
  · rintro ⟨hcls, -, hmost⟩
    match seg with
    | [] => exact .inl rfl
    | [a] => exact .inr (by rw [of_decide_eq_true (hcls a List.mem_cons_self)])
    | a :: b :: seg => exact absurd (hmost 1 rfl) (by simp)
  · rintro (rfl | rfl)
    · exact ⟨nofun, Nat.zero_le _, fun n hn => Nat.zero_le n⟩
    · exact ⟨by simp [Item.opt], Nat.zero_le _, fun n hn => (Option.some.inj hn).le⟩

/-- The segments of a match: the ends and what is between them. -/
theorem accepts_framed_iff : List.Forall₂ Item.Accepts (framed nl is) m ↔ ∃ ms front back,
    m = front :: (ms ++ [back]) ∧ List.Forall₂ Item.Accepts is ms ∧
      (front = [] ∨ front = [nl]) ∧ (back = [] ∨ back = [nl]) := by
  rw [framed]
  constructor
  · intro h
    obtain ⟨front, more, hfront, hmore, rfl⟩ := List.forall₂_cons_left_iff.mp h
    obtain ⟨ms, back, rfl, hms, hback⟩ := accepts_append_iff.mp hmore
    obtain ⟨back, last, haccepts, hlast, rfl⟩ := List.forall₂_cons_left_iff.mp hback
    obtain rfl := List.forall₂_nil_left_iff.mp hlast
    exact ⟨ms, front, back, rfl, hms, accepts_end_iff.mp hfront, accepts_end_iff.mp haccepts⟩
  · rintro ⟨ms, front, back, rfl, hms, hfront, hback⟩
    exact .cons (accepts_end_iff.mpr hfront)
      (accepts_append_iff.mpr ⟨ms, [back], rfl, hms, .cons (accepts_end_iff.mpr hback) .nil⟩)

/-- A match begins at the start or with an end of line, and it ends likewise. -/
theorem mem_framedMatches : m ∈ framedMatches nl is atStart s ↔ ∃ ms front back rest,
    m = front :: (ms ++ [back]) ∧ s = front ++ (ms.flatten ++ (back ++ rest)) ∧
      List.Forall₂ Item.Accepts is ms ∧ (front = [nl] ∨ front = [] ∧ atStart = true) ∧
      (back = [nl] ∨ back = [] ∧ rest = []) := by
  have hflatten (ms : List (List α)) (front back rest : List α) :
      (front :: (ms ++ [back])).flatten ++ rest = front ++ (ms.flatten ++ (back ++ rest)) := by
    rw [List.flatten_cons, List.flatten_append, List.flatten_singleton]
    simp only [List.append_assoc]
  rw [framedMatches, List.mem_filter, mem_splits, accepts_framed_iff, Bool.and_eq_true,
    Bool.or_eq_true, Bool.or_eq_true, decide_eq_true_eq, decide_eq_true_eq, decide_eq_true_eq]
  constructor
  · rintro ⟨⟨⟨ms, front, back, rfl, hms, hfront, hback⟩, rest, hs⟩, hstart, hend⟩
    refine ⟨ms, front, back, rest, rfl, hs.trans (hflatten ..), hms, ?_, ?_⟩
    · rcases hfront with rfl | rfl
      · exact .inr ⟨rfl, hstart.resolve_right fun h => h rfl⟩
      · exact .inl rfl
    · rcases hback with rfl | rfl
      · refine .inr ⟨rfl, ?_⟩
        have hlength := hend.resolve_left fun h => h (by
          rw [← List.cons_append, List.getLast?_append, List.getLast?_singleton]; rfl)
        rw [hs, List.length_append] at hlength
        exact List.length_eq_zero_iff.mp (by omega)
      · exact .inl rfl
  · rintro ⟨ms, front, back, rest, rfl, rfl, hms, hfront, hback⟩
    refine ⟨⟨⟨ms, front, back, rfl, hms, ?_, ?_⟩, rest, (hflatten ..).symm⟩, ?_, ?_⟩
    · exact hfront.elim .inr fun h => .inl h.1
    · exact hback.elim .inr fun h => .inl h.1
    · rcases hfront with rfl | ⟨-, h⟩
      · exact .inr (by simp)
      · exact .inl h
    · rcases hback with rfl | ⟨rfl, rfl⟩
      · exact .inl (by rw [← List.cons_append, List.getLast?_append]; simp)
      · exact .inr (by rw [← hflatten, List.append_nil])

omit [DecidableEq α] in
/-- What a match begins with, where the text goes on with a line. -/
theorem eq_front_of_line {front front' more : List α} (hline : nl ∉ line)
    (hfront : front = [nl] ∧ atStart = false ∨ front = [] ∧ atStart = true ∧ line ≠ [])
    (hfront' : front' = [nl] ∨ front' = [] ∧ atStart = true)
    (hs : front ++ (line ++ nl :: rest) = front' ++ more) : front' = front := by
  rcases hfront with ⟨rfl, rfl⟩ | ⟨rfl, rfl, hne⟩
  · exact hfront'.resolve_right fun h => Bool.false_ne_true h.2
  · rcases hfront' with rfl | ⟨rfl, -⟩
    · obtain ⟨a, more', rfl⟩ := List.exists_cons_of_ne_nil hne
      exact absurd (List.cons.inj hs).1 fun h => hline (h ▸ List.mem_cons_self)
    · rfl

/-- Where the text goes on with a line, only the whole line is matched. -/
theorem mem_framedMatches_line (his : ∀ ms, List.Forall₂ Item.Accepts is ms → nl ∉ ms.flatten)
    (hline : nl ∉ line) {front : List α} (hfront : front = [nl] ∧ atStart = false ∨
      front = [] ∧ atStart = true ∧ line ≠ []) :
    m ∈ framedMatches nl is atStart (front ++ (line ++ nl :: rest)) ↔ ∃ ms,
      m = front :: (ms ++ [[nl]]) ∧ List.Forall₂ Item.Accepts is ms ∧ ms.flatten = line := by
  rw [mem_framedMatches]
  constructor
  · rintro ⟨ms, front', back, rest', rfl, hs, hms, hfront', hback⟩
    obtain rfl := eq_front_of_line hline hfront hfront' hs
    have hs := List.append_cancel_left hs
    rcases hback with rfl | ⟨rfl, rfl⟩
    · exact ⟨ms, rfl, hms, ((append_cons_inj hline (his ms hms)).mp hs).1.symm⟩
    · rw [List.nil_append, List.append_nil] at hs
      exact absurd (hs ▸ List.mem_append_right line List.mem_cons_self) (his ms hms)
  · rintro ⟨ms, rfl, hms, rfl⟩
    refine ⟨ms, front, [nl], rest, rfl, rfl, hms, ?_, .inl rfl⟩
    exact hfront.imp (·.1) fun h => ⟨h.1, h.2.1⟩

/-- In the middle of a line there is no match: the search goes on at the end of the line. -/
theorem searchFramed_middle (hline : nl ∉ line) :
    searchFramed nl is false (line ++ nl :: rest) = searchFramed nl is false (nl :: rest) := by
  induction line with
  | nil => rfl
  | cons a line ih =>
    rw [List.mem_cons, not_or] at hline
    have hnone : framedMatches nl is false (a :: (line ++ nl :: rest)) = [] := by
      refine List.eq_nil_iff_forall_not_mem.mpr fun m hm => ?_
      obtain ⟨ms, front, back, rest', -, hs, -, hfront, -⟩ := mem_framedMatches.mp hm
      rcases hfront with rfl | ⟨-, h⟩
      · exact hline.1 (List.cons.inj hs).1.symm
      · cases h
    rw [List.cons_append, searchFramed, hnone]
    exact ih hline.2

/-- A line that is not matched whole is skipped. -/
theorem searchFramed_skip (his : ∀ ms, List.Forall₂ Item.Accepts is ms → nl ∉ ms.flatten)
    (hline : nl ∉ line) (hnone : ∀ ms, List.Forall₂ Item.Accepts is ms → ms.flatten ≠ line)
    {front : List α} (hfront : front = [nl] ∧ atStart = false ∨
      front = [] ∧ atStart = true ∧ line ≠ []) :
    searchFramed nl is atStart (front ++ (line ++ nl :: rest)) =
      searchFramed nl is false (nl :: rest) := by
  have hempty : framedMatches nl is atStart (front ++ (line ++ nl :: rest)) = [] := by
    refine List.eq_nil_iff_forall_not_mem.mpr fun m hm => ?_
    obtain ⟨ms, -, hms, hflatten⟩ := (mem_framedMatches_line his hline hfront).mp hm
    exact hnone ms hms hflatten
  rcases hfront with ⟨rfl, rfl⟩ | ⟨rfl, rfl, hne⟩
  · rw [List.singleton_append] at hempty ⊢
    rw [searchFramed, hempty]
    exact searchFramed_middle hline
  · obtain ⟨a, line, rfl⟩ := List.exists_cons_of_ne_nil hne
    rw [List.nil_append, List.cons_append] at hempty ⊢
    rw [searchFramed, hempty]
    exact searchFramed_middle fun h => hline (List.mem_cons_of_mem a h)

/-- A line that is matched whole is found. -/
theorem searchFramed_line (his : ∀ ms, List.Forall₂ Item.Accepts is ms → nl ∉ ms.flatten)
    (hline : nl ∉ line) {ms : List (List α)} (hms : List.Forall₂ Item.Accepts is ms)
    (hflatten : ms.flatten = line)
    (hunique : ∀ ms', List.Forall₂ Item.Accepts is ms' → ms'.flatten = line → ms' = ms)
    {front : List α} (hfront : front = [nl] ∧ atStart = false ∨
      front = [] ∧ atStart = true ∧ line ≠ []) :
    searchFramed nl is atStart (front ++ (line ++ nl :: rest)) =
      some (front :: (ms ++ [[nl]])) := by
  have hlongest : longest (framedMatches nl is atStart (front ++ (line ++ nl :: rest))) =
      some (front :: (ms ++ [[nl]])) := by
    cases h : longest (framedMatches nl is atStart (front ++ (line ++ nl :: rest))) with
    | none =>
      have hmem : front :: (ms ++ [[nl]]) ∈
          framedMatches nl is atStart (front ++ (line ++ nl :: rest)) :=
        (mem_framedMatches_line his hline hfront).mpr ⟨ms, rfl, hms, hflatten⟩
      rw [longest_eq_none.mp h] at hmem
      cases hmem
    | some m =>
      obtain ⟨ms', rfl, hms', hflatten'⟩ :=
        (mem_framedMatches_line his hline hfront).mp (mem_of_longest h)
      rw [hunique ms' hms' hflatten']
  cases htext : front ++ (line ++ nl :: rest) with
  | nil => simp at htext
  | cons a s =>
    rw [htext] at hlongest
    rw [searchFramed, hlongest, Option.some_or]

/-- Lines that are not matched whole are skipped. -/
theorem searchFramed_append (his : ∀ ms, List.Forall₂ Item.Accepts is ms → nl ∉ ms.flatten)
    {lines : List (List α)} (hlines : ∀ line ∈ lines, nl ∉ line)
    (hnone : ∀ line ∈ lines, ∀ ms, List.Forall₂ Item.Accepts is ms → ms.flatten ≠ line)
    (rest : List α) :
    searchFramed nl is false (nl :: (linesText nl lines ++ rest)) =
      searchFramed nl is false (nl :: rest) := by
  induction lines with
  | nil => rfl
  | cons line lines ih =>
    obtain ⟨hline, hlines⟩ := List.forall_mem_cons.mp hlines
    obtain ⟨hfirst, hnone⟩ := List.forall_mem_cons.mp hnone
    have htext : nl :: (linesText nl (line :: lines) ++ rest) =
        [nl] ++ (line ++ nl :: (linesText nl lines ++ rest)) := by
      rw [linesText, List.flatMap_cons, List.append_assoc, List.append_assoc]
      rfl
    rw [htext, searchFramed_skip his hline hfirst (.inl ⟨rfl, rfl⟩), ih hlines hnone]

section Lines

variable {before after : List (List α)} {ms : List (List α)}

/-- The first line that is matched whole is found. -/
theorem searchFramed_found (his : ∀ ms, List.Forall₂ Item.Accepts is ms → nl ∉ ms.flatten)
    (hbefore : ∀ l ∈ before, nl ∉ l ∧ l ≠ [])
    (hnone : ∀ l ∈ before, ∀ ms, List.Forall₂ Item.Accepts is ms → ms.flatten ≠ l)
    (hline : nl ∉ line) (hne : line ≠ []) (hms : List.Forall₂ Item.Accepts is ms)
    (hflatten : ms.flatten = line)
    (hunique : ∀ ms', List.Forall₂ Item.Accepts is ms' → ms'.flatten = line → ms' = ms) :
    ∃ front, searchFramed nl is true (linesText nl (before ++ line :: after)) =
      some (front :: (ms ++ [[nl]])) := by
  have htext (lines : List (List α)) (l : List α) :
      linesText nl (l :: lines) = [] ++ (l ++ nl :: linesText nl lines) := by
    rw [linesText, List.flatMap_cons, List.append_assoc]
    rfl
  cases before with
  | nil =>
    rw [List.nil_append, htext]
    exact ⟨_, searchFramed_line his hline hms hflatten hunique (.inr ⟨rfl, rfl, hne⟩)⟩
  | cons l before =>
    obtain ⟨⟨hl, hlne⟩, hbefore⟩ := List.forall_mem_cons.mp hbefore
    obtain ⟨hfirst, hnone⟩ := List.forall_mem_cons.mp hnone
    have hrest : nl :: linesText nl (before ++ line :: after) =
        nl :: (linesText nl before ++ (line ++ nl :: linesText nl after)) := by
      rw [linesText, List.flatMap_append, List.flatMap_cons, List.append_assoc]
      rfl
    rw [List.cons_append, htext, searchFramed_skip his hl hfirst (.inr ⟨rfl, rfl, hlne⟩), hrest,
      searchFramed_append his (fun l hl => (hbefore l hl).1) hnone, ← List.singleton_append]
    exact ⟨_, searchFramed_line his hline hms hflatten hunique (.inl ⟨rfl, rfl⟩)⟩

/-- Nothing is found where no line is matched whole. -/
theorem searchFramed_not_found (his : ∀ ms, List.Forall₂ Item.Accepts is ms → nl ∉ ms.flatten)
    (hempty : ∀ ms, List.Forall₂ Item.Accepts is ms → ms.flatten ≠ [])
    {lines : List (List α)} (hlines : ∀ l ∈ lines, nl ∉ l ∧ l ≠ [])
    (hnone : ∀ l ∈ lines, ∀ ms, List.Forall₂ Item.Accepts is ms → ms.flatten ≠ l) :
    searchFramed nl is true (linesText nl lines) = none := by
  have hfirst : framedMatches nl is true ([] : List α) = [] := by
    refine List.eq_nil_iff_forall_not_mem.mpr fun m hm => ?_
    obtain ⟨ms, front, back, rest, -, hs, hms, -, -⟩ := mem_framedMatches.mp hm
    exact hempty ms hms (List.append_eq_nil_iff.mp (List.append_eq_nil_iff.mp hs.symm).2).1
  have hlast (s : List α) (hs : s = [nl] ∨ s = []) : framedMatches nl is false s = [] := by
    refine List.eq_nil_iff_forall_not_mem.mpr fun m hm => ?_
    obtain ⟨ms, front, back, rest, -, heq, hms, hfront, -⟩ := mem_framedMatches.mp hm
    obtain rfl := hfront.resolve_right fun h => Bool.false_ne_true h.2
    rcases hs with rfl | rfl
    · have hmore := List.append_eq_nil_iff.mp (List.cons.inj heq).2.symm
      exact hempty ms hms (List.append_eq_nil_iff.mp hmore.2).1
    · cases heq
  cases lines with
  | nil =>
    change longest (framedMatches nl is true []) = none
    rw [hfirst]
    rfl
  | cons l lines =>
    obtain ⟨⟨hl, hlne⟩, hlines⟩ := List.forall_mem_cons.mp hlines
    obtain ⟨hskip, hnone⟩ := List.forall_mem_cons.mp hnone
    have htext : linesText nl (l :: lines) = [] ++ (l ++ nl :: (linesText nl lines ++ [])) := by
      rw [linesText, List.flatMap_cons, List.append_assoc, List.append_nil]
      rfl
    rw [htext, searchFramed_skip his hl hskip (.inr ⟨rfl, rfl, hlne⟩),
      searchFramed_append his (fun l hl => (hlines l hl).1) hnone, searchFramed, searchFramed,
      hlast _ (.inl rfl), hlast _ (.inr rfl)]
    rfl

end Lines

end Framed

end VplJail.PosixRegex
