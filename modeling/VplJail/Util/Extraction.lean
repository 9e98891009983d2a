import VplJail.Util.Text

/-!
# The words of a stream

`in >> word` skips blanks and takes what is in front of the next blank. `words` is the loop that does
so until nothing is left; it gives back words that stand apart by blanks (`words_intercalate`).
-/

namespace VplJail.Util

/-- `in >> word`: the word and the rest of the stream; `none` if there is no word. -/
def extract (s : Bytes) : Option (Bytes × Bytes) :=
  let s := s.dropWhile isSpace
  if s = [] then none else some (s.takeWhile (!isSpace ·), s.dropWhile (!isSpace ·))

/-- The loop `while (in >> word)`. Every word takes a byte or more off the stream. -/
def wordsLoop : ℕ → Bytes → List Bytes
  | 0, _ => []
  | fuel + 1, s =>
      match extract s with
      | none => []
      | some (word, rest) => word :: wordsLoop fuel rest

/-- The words of a stream. -/
def words (s : Bytes) : List Bytes :=
  wordsLoop s.length s

/-- A word: some bytes without a blank. -/
structure IsWord (w : Bytes) : Prop where
  ne_nil : w ≠ []
  isSpace_eq : ∀ b ∈ w, isSpace b = false

section Extract

variable {w rest : Bytes}

/-- A blank is skipped. -/
theorem extract_cons_of_isSpace {b : UInt8} (h : isSpace b = true) (s : Bytes) :
    extract (b :: s) = extract s := by
  rw [extract, extract, List.dropWhile_cons_of_pos h]

/-- A word in front of a blank, or of nothing, is taken. -/
theorem extract_append (hw : IsWord w) (hrest : ∀ b ∈ rest.head?, isSpace b = true) :
    extract (w ++ rest) = some (w, rest) := by
  obtain ⟨b, w', rfl⟩ := List.exists_cons_of_ne_nil hw.ne_nil
  have hskip : ((b :: w') ++ rest).dropWhile isSpace = (b :: w') ++ rest := by
    rw [List.cons_append, List.dropWhile_cons_of_neg]
    rw [hw.isSpace_eq b List.mem_cons_self]
    exact Bool.false_ne_true
  have hword : ∀ c ∈ b :: w', (!isSpace c) = true := fun c hc => by rw [hw.isSpace_eq c hc]; rfl
  have htake : rest.takeWhile (!isSpace ·) = [] ∧ rest.dropWhile (!isSpace ·) = rest := by
    cases rest with
    | nil => exact ⟨rfl, rfl⟩
    | cons c rest =>
      have hc : ¬ (!isSpace c) = true := by
        rw [hrest c rfl]
        exact Bool.false_ne_true
      exact ⟨List.takeWhile_cons_of_neg hc, List.dropWhile_cons_of_neg hc⟩
  rw [extract, hskip, if_neg (List.append_ne_nil_of_left_ne_nil hw.ne_nil _),
    List.takeWhile_append_of_pos hword, List.dropWhile_append_of_pos hword, htake.1, htake.2,
    List.append_nil]

/-- Words that stand apart by single blanks are taken one by one. -/
theorem wordsLoop_intercalate {ws : List Bytes} (h : ∀ w ∈ ws, IsWord w) {fuel : ℕ}
    (hfuel : ws.length ≤ fuel) : wordsLoop fuel ([32].intercalate ws) = ws := by
  have hend (fuel : ℕ) : wordsLoop fuel [] = [] := by cases fuel <;> rfl
  induction ws generalizing fuel with
  | nil => exact hend fuel
  | cons w ws ih =>
    obtain ⟨hw, hws⟩ := List.forall_mem_cons.mp h
    obtain ⟨fuel, rfl⟩ := Nat.exists_eq_add_one_of_ne_zero (Nat.ne_of_gt
      ((Nat.succ_pos _).trans_le hfuel))
    have ih := ih hws (Nat.le_of_succ_le_succ hfuel)
    cases ws with
    | nil =>
      have htake : extract (w ++ []) = some (w, []) := extract_append hw fun b hb => by cases hb
      rw [List.append_nil] at htake
      rw [wordsLoop, List.intercalate_singleton, htake]
      exact congrArg (w :: ·) (hend fuel)
    | cons w' ws =>
      have hblank : ∀ b ∈ ([32] ++ [32].intercalate (w' :: ws)).head?, isSpace b = true := by
        intro b hb
        rw [List.singleton_append, List.head?_cons] at hb
        exact Option.some.inj hb ▸ rfl
      rw [wordsLoop, List.intercalate_cons_cons, List.append_assoc, extract_append hw hblank]
      dsimp only
      -- the next word is behind the blank
      have hskip : wordsLoop fuel ([32] ++ [32].intercalate (w' :: ws)) =
          wordsLoop fuel ([32].intercalate (w' :: ws)) := by
        cases fuel with
        | zero => rfl
        | succ fuel =>
          rw [wordsLoop, wordsLoop, List.singleton_append, extract_cons_of_isSpace rfl]
      rw [hskip, ih]

theorem length_le_length_intercalate {ws : List Bytes} (h : ∀ w ∈ ws, IsWord w) :
    ws.length ≤ ([32].intercalate ws).length := by
  induction ws with
  | nil => exact Nat.zero_le _
  | cons w ws ih =>
    obtain ⟨hw, hws⟩ := List.forall_mem_cons.mp h
    have hlength := List.length_pos_iff.mpr hw.ne_nil
    cases ws with
    | nil =>
      rw [List.intercalate_singleton]
      exact hlength
    | cons w' ws =>
      have ih := ih hws
      rw [List.intercalate_cons_cons, List.length_append, List.length_append]
      rw [List.length_cons (a := w)]
      omega

/-- Words that stand apart by single blanks are read back. -/
theorem words_intercalate {ws : List Bytes} (h : ∀ w ∈ ws, IsWord w) :
    words ([32].intercalate ws) = ws :=
  wordsLoop_intercalate h (length_le_length_intercalate h)

/-- A text that begins with no blank is a word and what follows it. -/
theorem exists_eq_append_of_not_isSpace {b : UInt8} (hb : isSpace b = false) (s : Bytes) :
    ∃ w rest, b :: s = w ++ rest ∧ IsWord w ∧ ∀ c ∈ rest.head?, isSpace c = true := by
  refine ⟨(b :: s).takeWhile (!isSpace ·), (b :: s).dropWhile (!isSpace ·),
    List.takeWhile_append_dropWhile.symm, ⟨?_, fun c hc => ?_⟩, fun c hc => ?_⟩
  · rw [List.takeWhile_cons_of_pos (by rw [hb]; rfl)]
    exact List.cons_ne_nil _ _
  · simpa using List.mem_takeWhile_imp hc
  · have hnot := List.head?_dropWhile_not (!isSpace ·) (b :: s)
    rw [Option.mem_def.mp hc] at hnot
    simpa using hnot

/-- The words are the parts between the blanks that are not empty. -/
theorem wordsLoop_eq_splitOnP {fuel : ℕ} {s : Bytes} (hfuel : s.length ≤ fuel) :
    wordsLoop fuel s = (s.splitOnP isSpace).filter (· ≠ []) := by
  induction fuel generalizing s with
  | zero =>
    obtain rfl := List.length_eq_zero_iff.mp (Nat.le_zero.mp hfuel)
    rfl
  | succ fuel ih =>
    induction s with
    | nil => rfl
    | cons b s ihs =>
      have hlength : (b :: s).length = s.length + 1 := rfl
      by_cases hb : isSpace b = true
      · -- a blank is skipped
        rw [List.splitOnP_cons_eq_if_modifyHead, if_pos hb, List.filter_cons_of_neg (by simp),
          ← ihs (by omega), wordsLoop, wordsLoop, extract_cons_of_isSpace hb]
      · -- a word is taken, and the blank behind it is one more empty part
        obtain ⟨w, rest, hs, hw, hrest⟩ :=
          exists_eq_append_of_not_isSpace (Bool.eq_false_iff.mpr hb) s
        have hwlength := List.length_pos_iff.mpr hw.ne_nil
        rw [hs] at hfuel ⊢
        rw [List.length_append] at hfuel
        rw [wordsLoop, extract_append hw hrest]
        dsimp only
        rw [ih (by omega)]
        cases rest with
        | nil =>
          rw [List.append_nil, List.splitOnP_eq_singleton hw.isSpace_eq]
          simp [hw.ne_nil]
        | cons c rest =>
          have hc := hrest c rfl
          rw [List.splitOnP_append_cons_of_forall_mem hw.isSpace_eq c hc,
            List.splitOnP_cons_eq_if_modifyHead, if_pos hc]
          simp [hw.ne_nil]

theorem words_eq_splitOnP (s : Bytes) : words s = (s.splitOnP isSpace).filter (· ≠ []) :=
  wordsLoop_eq_splitOnP le_rfl

/-- A blank separates words. -/
theorem words_append_cons {c : UInt8} (h : isSpace c = true) (s t : Bytes) :
    words (s ++ c :: t) = words s ++ words t := by
  rw [words_eq_splitOnP, words_eq_splitOnP, words_eq_splitOnP, List.splitOnP_append_cons s t h,
    List.filter_append]

theorem words_eq_singleton (h : IsWord w) : words w = [w] := by
  rw [words_eq_splitOnP, List.splitOnP_eq_singleton h.isSpace_eq]
  simp [h.ne_nil]

/-- The steps of the loop, whose number is of no matter. -/
theorem words_eq (s : Bytes) :
    words s = match extract s with
      | none => []
      | some (word, rest) => word :: words rest := by
  rw [words_eq_splitOnP, ← wordsLoop_eq_splitOnP (Nat.le_succ s.length), wordsLoop]
  cases h : extract s with
  | none => rfl
  | some r =>
    obtain ⟨word, rest⟩ := r
    have hlength : rest.length ≤ s.length := by
      rw [extract] at h
      split_ifs at h
      obtain ⟨-, rfl⟩ := Prod.mk.inj (Option.some.inj h)
      exact (List.length_dropWhile_le _ _).trans (List.length_dropWhile_le _ _)
    dsimp only
    rw [wordsLoop_eq_splitOnP hlength, words_eq_splitOnP]

theorem getElem?_words_zero (s : Bytes) : (words s)[0]? = (extract s).map Prod.fst := by
  rw [words_eq]
  cases extract s <;> rfl

theorem getElem?_words_succ (s : Bytes) (n : ℕ) :
    (words s)[n + 1]? = (extract s).bind fun r => (words r.2)[n]? := by
  rw [words_eq]
  cases extract s <;> rfl

end Extract

end VplJail.Util
