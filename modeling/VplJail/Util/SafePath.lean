import VplJail.Common.PosixRegex
import VplJail.Util.Containment

/-!
# Safe paths

`correctPath` accepts the paths whose components are safe names (`correctPath_iff`). A safe name is
a name for the system too, so that a path `base/name` that is accepted stays below `base` when its
components are followed without looking at the disk.
-/

namespace VplJail.Util

open PosixRegex FileTree

/-! ## Names -/

/-- `[[:cntrl:]]` in the C locale. -/
def isCntrl (b : UInt8) : Bool := decide (b < 32) || b == 127

/-- `correctFileNameReg`: what makes a name incorrect. -/
def correctFileNameReg : List (Branch UInt8) :=
  [⟨false, [.one isCntrl], false⟩,
    ⟨false, [.one fun b => b == 34 || b == 39], false⟩,
    ⟨false, [.one (· == 92)], false⟩,
    ⟨false, [.one fun b => b == 92 || b == 47 || b == 94 || b == 96], false⟩,
    ⟨true, [.one (· == 32)], false⟩,
    ⟨false, [.one (· == 32)], true⟩,
    ⟨true, [(· == 46), (· == 46)].map .one, true⟩,
    ⟨true, [(· == 46)].map .one, true⟩]

/-- The bytes that the branches without anchors find. -/
theorem isIncorrectByte_eq (b : UInt8) : isIncorrectByte b =
    (isCntrl b || (b == 34 || b == 39) || b == 92 || (b == 92 || b == 47 || b == 94 || b == 96)) := by
  unfold isIncorrectByte isCntrl
  cases b == 92 <;> simp [Bool.or_assoc]

/-- `findsIncorrect` is the search of the expression. -/
theorem findsIncorrect_eq (fn : Bytes) :
    findsIncorrect fn = occursAny correctFileNameReg (cstr fn) := by
  have hdot : cstr fn = ascii "." ↔
      List.Forall₂ (fun cls a => cls a = true) [(· == 46)] (cstr fn) := by
    have h46 : ascii "." = [46] := by decide
    rw [h46]
    simp [List.forall₂_cons_left_iff]
  have hdotdot : cstr fn = ascii ".." ↔
      List.Forall₂ (fun cls a => cls a = true) [(· == 46), (· == 46)] (cstr fn) := by
    have h46 : ascii ".." = [46, 46] := by decide
    rw [h46]
    simp [List.forall₂_cons_left_iff]
  rw [Bool.eq_iff_iff]
  unfold findsIncorrect occursAny correctFileNameReg
  simp only [List.any_cons, List.any_nil, Bool.or_false, Bool.or_eq_true, occurs_class,
    occurs_class_start, occurs_class_end, occurs_whole, List.any_eq_true, isIncorrectByte_eq,
    beq_iff_eq, ← hdot, ← hdotdot]
  simp only [and_or_left, exists_or, exists_eq_right, or_assoc]

/-- The names that are safe: no longer than the limit, without special bytes, no blank at an end, and
neither of the names that every directory has. -/
structure IsSafeName (fn : Bytes) : Prop where
  one_le : 1 ≤ fn.length
  le_limit : fn.length ≤ filenameSizeLimit
  bytes : ∀ b ∈ fn, ¬ (b < 32 ∨ b = 127) ∧ b ≠ 0 ∧ b ≠ 39 ∧ b ≠ 34 ∧ b ≠ 92 ∧ b ≠ 96 ∧ b ≠ 94
  first : fn.head? ≠ some 32
  last : fn.getLast? ≠ some 32
  not_here : fn ≠ ascii "."
  not_up : fn ≠ ascii ".."

/-- Without a slash, the names that `correctFileName` accepts are the safe ones. -/
theorem correctFileName_iff {fn : Bytes} (hslash : (47 : UInt8) ∉ fn) :
    correctFileName fn = true ↔ IsSafeName fn := by
  constructor
  · intro h
    have hzero := zero_notMem_of_correctFileName h
    simp only [correctFileName, findsIncorrect, cstr_eq_self hzero, Bool.and_eq_true,
      decide_eq_true_eq, Bool.not_eq_true', Bool.or_eq_false_iff, beq_eq_false_iff_ne,
      List.any_eq_false] at h
    obtain ⟨⟨⟨hone, hlimit⟩, -⟩, ⟨⟨⟨hbytes, hfirst⟩, hlast⟩, hup⟩, hhere⟩ := h
    refine ⟨hone, hlimit, fun b hb => ?_, hfirst, hlast, hhere, hup⟩
    have hb0 : b ≠ 0 := fun h0 => hzero (h0 ▸ hb)
    have hincorrect := hbytes b hb
    simp only [isIncorrectByte, Bool.or_eq_true, decide_eq_true_eq, beq_iff_eq, not_or] at hincorrect
    tauto
  · intro h
    have hzero : (0 : UInt8) ∉ fn := fun h0 => (h.bytes 0 h0).2.1 rfl
    have hbytes : fn.any isIncorrectByte = false := by
      refine List.any_eq_false.mpr fun b hb => ?_
      have hb47 : b ≠ 47 := fun h47 => hslash (h47 ▸ hb)
      have hb' := h.bytes b hb
      simp only [isIncorrectByte, Bool.or_eq_true, decide_eq_true_eq, beq_iff_eq, not_or]
      tauto
    simp [correctFileName, findsIncorrect, cstr_eq_self hzero, hbytes, h.one_le, h.le_limit, h.first,
      h.last, h.not_here, h.not_up, hzero]

/-! ## Paths -/

/-- A path behind one leading `/` or `./`. -/
def behindPrefix : Bytes → Bytes
  | 47 :: rest => rest
  | 46 :: 47 :: rest => rest
  | path => path

/-- The paths that are safe. -/
structure IsSafePath (path : Bytes) : Prop where
  one_le : 1 ≤ path.length
  le_limit : path.length ≤ pathSizeLimit
  rest : behindPrefix path ≠ []
  names : ∀ fn ∈ (behindPrefix path).splitOn 47, IsSafeName fn

theorem drop_pathStart (path : Bytes) : path.drop (pathStart path) = behindPrefix path := by
  have h : ascii "./" = [46, 47] := by decide
  unfold pathStart
  rw [h]
  fun_cases behindPrefix path with
  | case1 rest => simp
  | case2 rest => simp
  | case3 path hslash hdot =>
    rw [if_neg, if_neg, List.drop_zero]
    · intro hhead
      obtain ⟨rest, rfl⟩ := List.head?_eq_some_iff.mp hhead
      exact hslash rest rfl
    · intro htake
      refine hdot (path.drop 2) ?_
      rw [← List.take_append_drop 2 path, htake, List.drop_append]
      rfl

/-- No piece between slashes has a slash. -/
theorem slash_notMem_of_mem_splitOn {s fn : Bytes} (h : fn ∈ s.splitOn 47) : (47 : UInt8) ∉ fn := by
  induction s generalizing fn with
  | nil =>
    rw [List.splitOn_nil, List.mem_singleton] at h
    exact h ▸ List.not_mem_nil
  | cons b s ih =>
    rw [List.splitOn_cons_eq_if_modifyHead] at h
    split at h
    · rcases List.mem_cons.mp h with rfl | h
      · exact List.not_mem_nil
      · exact ih h
    · rename_i hb
      -- the byte goes to the first piece
      cases hs : s.splitOn 47 with
      | nil => exact absurd hs (List.splitOn_ne_nil _ _)
      | cons c cs =>
        rw [hs] at h ih
        rcases List.mem_cons.mp h with rfl | h
        · rw [List.mem_cons, not_or]
          exact ⟨fun h47 => hb (beq_iff_eq.mpr h47.symm), ih List.mem_cons_self⟩
        · exact ih (List.mem_cons_of_mem c h)

/-- `correctPath` accepts exactly the safe paths. -/
theorem correctPath_iff (path : Bytes) : correctPath path = true ↔ IsSafePath path := by
  have hrest : pathStart path < path.length ↔ behindPrefix path ≠ [] := by
    rw [← drop_pathStart, ne_eq, List.drop_eq_nil_iff, not_le]
  have hnames : ((path.drop (pathStart path)).splitOn 47).all correctFileName = true ↔
      ∀ fn ∈ (behindPrefix path).splitOn 47, IsSafeName fn := by
    rw [drop_pathStart, List.all_eq_true]
    exact forall₂_congr fun fn hfn => correctFileName_iff (slash_notMem_of_mem_splitOn hfn)
  unfold correctPath
  rw [Bool.and_eq_true, hnames]
  simp only [Bool.and_eq_true, decide_eq_true_eq, hrest]
  constructor
  · rintro ⟨⟨⟨hone, hlimit⟩, hne⟩, hall⟩
    exact ⟨hone, hlimit, hne, hall⟩
  · intro h
    exact ⟨⟨⟨h.one_le, h.le_limit⟩, h.rest⟩, h.names⟩

/-! ## Lexical paths -/

/-- A path without the components that can be resolved without the disk: whether it starts at the
root, how many `..` stand before its names, and the names. -/
structure LexicalPath where
  rooted : Bool
  ups : ℕ
  names : List Bytes

/-- A component behind a path. The root is its own parent. -/
def LexicalPath.push (l : LexicalPath) : Component Bytes → LexicalPath
  | .here => l
  | .up =>
      if l.names ≠ [] then { l with names := l.names.dropLast }
      else if l.rooted then l else { l with ups := l.ups + 1 }
  | .name x => { l with names := l.names ++ [x] }

/-- The lexical normal form of a path. -/
def normalise (path : Bytes) : LexicalPath :=
  (components path).foldl .push ⟨path.head? == some 47, 0, []⟩

/-- The path is strictly below the other one: it has further names. -/
def IsBelow (base path : LexicalPath) : Prop :=
  ∃ names ≠ [], path = { base with names := base.names ++ names }

/-- The directory of `base + "/"`, where the empty base is the root. -/
def directoryOf (base : Bytes) : Bytes := if base = [] then [47] else base

theorem LexicalPath.foldl_push (l : LexicalPath) (names : List Bytes) :
    (names.map Component.name).foldl .push l = { l with names := l.names ++ names } := by
  induction names generalizing l with
  | nil => simp
  | cons x names ih =>
    rw [List.map_cons, List.foldl_cons, ih]
    simp [push]

theorem normalise_append (base name : Bytes) : normalise (base ++ 47 :: name) =
    (components name).foldl .push (normalise (directoryOf base)) := by
  unfold normalise directoryOf
  rw [components_append, List.foldl_append]
  split
  · rename_i hbase
    subst hbase
    rfl
  · rename_i hbase
    rw [List.head?_append_of_ne_nil _ hbase]

/-- A path of names. -/
theorem components_of_isSafeName {name : Bytes} (h : ∀ fn ∈ name.splitOn 47, IsSafeName fn) :
    components name = (name.splitOn 47).map .name := by
  have hne : ∀ fn ∈ name.splitOn 47, decide (fn ≠ []) = true := fun fn hfn =>
    decide_eq_true (List.ne_nil_of_length_pos (h fn hfn).one_le)
  unfold components
  rw [List.filter_eq_self.mpr hne]
  refine List.map_congr_left fun fn hfn => ?_
  have hzero : (0 : UInt8) ∉ fn := fun h0 => ((h fn hfn).bytes 0 h0).2.1 rfl
  rw [componentOf, cstr_eq_self hzero, if_neg (h fn hfn).not_here, if_neg (h fn hfn).not_up]

/-- A path that is accepted is below its base. -/
theorem isBelow_of_correctPath {base name : Bytes} (h : correctPath (base ++ 47 :: name) = true) :
    IsBelow (normalise (directoryOf base)) (normalise (base ++ 47 :: name)) := by
  have hsafe : ∀ fn ∈ name.splitOn 47, IsSafeName fn := fun fn hfn =>
    (correctFileName_iff (slash_notMem_of_mem_splitOn hfn)).mp
      (correctFileName_of_correctPath h fn hfn)
  refine ⟨name.splitOn 47, List.splitOn_ne_nil 47 name, ?_⟩
  rw [normalise_append, components_of_isSafeName hsafe, LexicalPath.foldl_push]

/-- `correctPath` accepts exactly the safe paths, and what it accepts is below its base. -/
theorem correctPath_exact : (∀ path, correctPath path = true ↔ IsSafePath path) ∧
    ∀ base name, correctPath (base ++ 47 :: name) = true →
      IsBelow (normalise (directoryOf base)) (normalise (base ++ 47 :: name)) :=
  ⟨correctPath_iff, fun _ _ => isBelow_of_correctPath⟩

/-- `work/sub/a` is below `work`. -/
theorem correctPath_exact_sub : IsSafePath (ascii "/work/sub/a") ∧
    IsBelow (normalise (ascii "/work")) (normalise (ascii "/work/sub/a")) :=
  ⟨(correctPath_exact.1 _).mp (by decide),
    correctPath_exact.2 (ascii "/work") (ascii "sub/a") (by decide)⟩

end VplJail.Util
