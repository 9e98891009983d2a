import VplJail.Common.Bytes

/-!
# File names and paths

The checks of `util.h` on the names of files and on paths.
-/

namespace VplJail.Util

/-- `JAIL_FILENAME_SIZE_LIMIT`: the limit for a name. -/
def filenameSizeLimit : ℕ := 128

/-- `JAIL_PATH_SIZE_LIMIT`: the limit for a path. -/
def pathSizeLimit : ℕ := 256

/-- The bytes of the classes `[[:cntrl:]]`, `["']`, `\\` and `[\/\^`]` of `correctFileNameReg`. -/
def isIncorrectByte (b : UInt8) : Bool :=
  decide (b < 32) || b == 127 || b == 34 || b == 39 || b == 92 || b == 47 || b == 94 || b == 96

/-- The search of `correctFileNameReg`, which also finds a blank at either end and the names `..` and
`.`. It sees the name up to its first NUL. -/
def findsIncorrect (fn : Bytes) : Bool :=
  (cstr fn).any isIncorrectByte || (cstr fn).head? == some 32 || (cstr fn).getLast? == some 32 ||
    cstr fn == ascii ".." || cstr fn == ascii "."

/-- `correctFileName`: a name that may be given to a file. -/
def correctFileName (fn : Bytes) : Bool :=
  decide (1 ≤ fn.length) && decide (fn.length ≤ filenameSizeLimit) && !fn.contains 0 &&
    !findsIncorrect fn

/-- Where `correctPath` starts: behind a leading `/` or `./`. -/
def pathStart (path : Bytes) : ℕ :=
  if path.take 2 = ascii "./" then 2 else if path.head? = some 47 then 1 else 0

/-- `correctPath`: a path of such names. -/
def correctPath (path : Bytes) : Bool :=
  decide (1 ≤ path.length) && decide (path.length ≤ pathSizeLimit) &&
    decide (pathStart path < path.length) &&
    ((path.drop (pathStart path)).splitOn 47).all correctFileName

/-- A correct file name has no NUL. -/
theorem zero_notMem_of_correctFileName {fn : Bytes} (h : correctFileName fn = true) :
    (0 : UInt8) ∉ fn := by
  simp only [correctFileName, Bool.and_eq_true, Bool.not_eq_true', List.contains_eq_mem,
    decide_eq_false_iff_not] at h
  exact h.1.2

/-- A joined list has the elements of its pieces and of the separator. -/
theorem mem_of_mem_intercalate {α : Type*} {sep : List α} {pieces : List (List α)} {a : α}
    (h : a ∈ sep.intercalate pieces) : a ∈ sep ∨ ∃ piece ∈ pieces, a ∈ piece := by
  induction pieces with
  | nil => simp [List.intercalate] at h
  | cons piece pieces ih =>
      cases pieces with
      | nil =>
          rw [List.intercalate_singleton] at h
          exact .inr ⟨piece, List.mem_cons_self, h⟩
      | cons piece' pieces =>
          rw [List.intercalate_cons_cons, List.mem_append, List.mem_append] at h
          rcases h with (h | h) | h
          · exact .inr ⟨piece, List.mem_cons_self, h⟩
          · exact .inl h
          · rcases ih h with h | ⟨p, hp, h⟩
            · exact .inl h
            · exact .inr ⟨p, List.mem_cons_of_mem _ hp, h⟩

/-- A correct path has no NUL. -/
theorem zero_notMem_of_correctPath {path : Bytes} (h : correctPath path = true) :
    (0 : UInt8) ∉ path := by
  simp only [correctPath, Bool.and_eq_true, List.all_eq_true] at h
  have hstart : (0 : UInt8) ∉ path.take (pathStart path) := by
    rw [pathStart]
    split
    · rename_i h2
      rw [h2]
      decide
    · split
      · rename_i h1
        cases path with
        | nil => cases h1
        | cons b path =>
            obtain rfl := Option.some.inj h1
            simp
      · exact List.not_mem_nil
  have hrest : (0 : UInt8) ∉ path.drop (pathStart path) := by
    have hjoin : [47].intercalate ((path.drop (pathStart path)).splitOn 47) =
        path.drop (pathStart path) := List.intercalate_splitOn 47
    rw [← hjoin]
    intro h0
    rcases mem_of_mem_intercalate h0 with h0 | ⟨piece, hpiece, h0⟩
    · cases List.mem_singleton.mp h0
    · exact zero_notMem_of_correctFileName (h.2 piece hpiece) h0
  rw [← List.take_append_drop (pathStart path) path, List.mem_append]
  exact not_or.mpr ⟨hstart, hrest⟩

end VplJail.Util
