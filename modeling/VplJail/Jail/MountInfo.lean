import VplJail.Configuration.ConfigFile
import VplJail.Util.Extraction

/-!
# The mount points of mountinfo

`listMountPoints` takes the fifth word of every line of `/proc/self/mountinfo`. The kernel divides
the fields by spaces and escapes the space, the tab, the line feed and the backslash in a path; the
other blanks of `>>` it writes as they are. So a path is read as its parts between them (`pieces`),
and what is taken is the second part of the root and the mount point (`listMountPoints_mountinfo`).
-/

namespace VplJail.Jail

open Util

/-! ## Reading -/

/-- `isOctalDigit`: a digit of an escape. -/
def isOctalDigit (c : UInt8) : Bool :=
  decide (48 ≤ c) && decide (c ≤ 55)

/-- `unescapeMountInfoPath`: a backslash with three octal digits stands for a byte. -/
def unescapeMountInfoPath : Bytes → Bytes
  | [] => []
  | [b] => [b]
  | [b, c] => [b, c]
  | [b, c, d] => [b, c, d]
  | b :: c :: d :: e :: rest =>
      if b = 92 ∧ isOctalDigit c ∧ isOctalDigit d ∧ isOctalDigit e then
        ((c - 48) * 64 + (d - 48) * 8 + (e - 48)) :: unescapeMountInfoPath rest
      else b :: unescapeMountInfoPath (c :: d :: e :: rest)

/-- The mount point of a line: `id`, `parent`, `majmin` and `root` are extracted in front of it. -/
def mountPointOfLine (line : Bytes) : Option Bytes := do
  let (_, iss) ← extract line
  let (_, iss) ← extract iss
  let (_, iss) ← extract iss
  let (_, iss) ← extract iss
  let (mountPoint, _) ← extract iss
  return unescapeMountInfoPath mountPoint

/-- `listMountPoints`, on what is read from `/proc/self/mountinfo`. -/
def listMountPoints (mountinfo : Bytes) : List Bytes :=
  (ConfigurationFile.lines mountinfo).filterMap mountPointOfLine

/-! ## Writing -/

/-- Whether the kernel escapes a byte of a path. -/
def isEscaped (b : UInt8) : Bool :=
  b = 32 ∨ b = 9 ∨ b = 10 ∨ b = 92

/-- How the kernel writes a byte of a path: as it is, or as three octal digits. -/
def escapeByte (b : UInt8) : Bytes :=
  if isEscaped b then [92, 48 + b / 64, 48 + b / 8 % 8, 48 + b % 8] else [b]

/-- How the kernel writes a path. -/
def escapeMountInfoPath (path : Bytes) : Bytes :=
  path.flatMap escapeByte

/-- A mount as the kernel lists it: the fields in front of the mount point, the mount point, which is
an absolute path, and the rest of the line. -/
structure MountEntry where
  id : ℕ
  parent : ℕ
  major : ℕ
  minor : ℕ
  root : Bytes
  mountPoint : Bytes
  rest : Bytes
  root_ne_nil : root ≠ []
  absolute : mountPoint.head? = some 47
  zero_notMem : (0 : UInt8) ∉ mountPoint
  newline_notMem : (10 : UInt8) ∉ rest

/-- A line of mountinfo, without its line feed. -/
def MountEntry.line (e : MountEntry) : Bytes :=
  decimal e.id ++ 32 :: (decimal e.parent ++ 32 :: ((decimal e.major ++ 58 :: decimal e.minor) ++
    32 :: (escapeMountInfoPath e.root ++ 32 :: (escapeMountInfoPath e.mountPoint ++ 32 :: e.rest))))

/-- What the kernel writes. -/
def mountinfo (entries : List MountEntry) : Bytes :=
  entries.flatMap fun e => e.line ++ [10]

/-! ## Paths -/

theorem unescapeMountInfoPath_cons {b : UInt8} (h : b ≠ 92) (s : Bytes) :
    unescapeMountInfoPath (b :: s) = b :: unescapeMountInfoPath s := by
  rcases s with _ | ⟨c, _ | ⟨d, _ | ⟨e, rest⟩⟩⟩
  · rfl
  · rfl
  · rfl
  · rw [unescapeMountInfoPath, if_neg fun hb => h hb.1]

theorem unescape_escapeByte (b : UInt8) (s : Bytes) :
    unescapeMountInfoPath (escapeByte b ++ s) = b :: unescapeMountInfoPath s := by
  unfold escapeByte
  split
  · next h =>
      simp only [isEscaped, decide_eq_true_eq] at h
      rcases h with rfl | rfl | rfl | rfl <;> rfl
  · next h =>
      have hb : b ≠ 92 := fun hb => h (hb ▸ rfl)
      exact unescapeMountInfoPath_cons hb s

/-- A path that the kernel has escaped is restored. -/
theorem unescape_escape (path : Bytes) :
    unescapeMountInfoPath (escapeMountInfoPath path) = path := by
  induction path with
  | nil => rfl
  | cons b path ih =>
      rw [escapeMountInfoPath, List.flatMap_cons, unescape_escapeByte]
      exact congrArg (b :: ·) ih

/-! ## Words -/

/-- Whether a byte is a blank that the kernel does not escape. -/
def isUnescapedBlank (b : UInt8) : Bool :=
  isSpace b && !isEscaped b

/-- The parts of a path between the blanks that the kernel does not escape. -/
def pieces (path : Bytes) : List Bytes :=
  (path.splitOnP isUnescapedBlank).filter (· ≠ [])

/-- The mount point that is read for an entry. -/
def MountEntry.read (e : MountEntry) : Option Bytes :=
  (pieces e.root ++ pieces e.mountPoint ++ (words e.rest).map unescapeMountInfoPath)[1]?

/-- The fifth word of a line is taken. -/
theorem mountPointOfLine_eq (line : Bytes) :
    mountPointOfLine line = (words line)[4]?.map unescapeMountInfoPath := by
  simp only [getElem?_words_succ, getElem?_words_zero, Option.map_bind, Option.map_map,
    Function.comp_def]
  simp only [Option.map_eq_bind]
  rfl

theorem isSpace_of_mem_escapeByte {b c : UInt8} (hb : isUnescapedBlank b = false)
    (hc : c ∈ escapeByte b) : isSpace c = false := by
  unfold escapeByte at hc
  split at hc
  · next h =>
      simp only [isEscaped, decide_eq_true_eq] at h
      rcases h with rfl | rfl | rfl | rfl <;> revert hc <;> revert c <;> decide +kernel
  · next h =>
      obtain rfl := List.mem_singleton.mp hc
      simpa [isUnescapedBlank, h] using hb

theorem splitOnP_append_of_forall_mem {p : UInt8 → Bool} {u : Bytes} (h : ∀ b ∈ u, p b = false)
    (s : Bytes) : (u ++ s).splitOnP p = (s.splitOnP p).modifyHead (u ++ ·) := by
  induction u with
  | nil => cases hs : s.splitOnP p <;> simp [hs]
  | cons b u ih =>
      obtain ⟨hb, hu⟩ := List.forall_mem_cons.mp h
      rw [List.cons_append, List.splitOnP_cons_eq_if_modifyHead, if_neg (by simp [hb]), ih hu,
        List.modifyHead_modifyHead]
      rfl

/-- Escaping leaves the parts of a path apart. -/
theorem splitOnP_escapeMountInfoPath (path : Bytes) :
    (escapeMountInfoPath path).splitOnP isSpace =
      (path.splitOnP isUnescapedBlank).map escapeMountInfoPath := by
  induction path with
  | nil => rfl
  | cons b path ih =>
      have hcons : escapeMountInfoPath (b :: path) = escapeByte b ++ escapeMountInfoPath path :=
        List.flatMap_cons
      rw [hcons, List.splitOnP_cons_eq_if_modifyHead]
      by_cases hb : isUnescapedBlank b = true
      · -- the blank is written as it is, and separates on both sides
        have hbyte : escapeByte b = [b] ∧ isSpace b = true := by
          simp only [isUnescapedBlank, Bool.and_eq_true, Bool.not_eq_true'] at hb
          exact ⟨if_neg (by simp [hb.2]), hb.1⟩
        rw [hbyte.1, List.singleton_append, List.splitOnP_cons_eq_if_modifyHead, if_pos hbyte.2,
          if_pos hb, ih]
        rfl
      · -- what is written for any other byte stays in its part
        have hbyte : ∀ c ∈ escapeByte b, isSpace c = false := fun c hc =>
          isSpace_of_mem_escapeByte (Bool.eq_false_iff.mpr hb) hc
        rw [if_neg hb, splitOnP_append_of_forall_mem hbyte, ih]
        cases path.splitOnP isUnescapedBlank <;> rfl

theorem words_escapeMountInfoPath (path : Bytes) :
    words (escapeMountInfoPath path) = (pieces path).map escapeMountInfoPath := by
  have hne (part : Bytes) : escapeMountInfoPath part = [] ↔ part = [] := by
    constructor
    · intro h
      rw [← unescape_escape part, h]
      rfl
    · rintro rfl
      rfl
  rw [words_eq_splitOnP, splitOnP_escapeMountInfoPath, pieces, List.filter_map]
  congr 2
  funext part
  simp [hne]

theorem isWord_decimal (n : ℕ) : IsWord (decimal n) where
  ne_nil h := by
    obtain ⟨d, ds, hd, -⟩ := exists_decimal_eq_cons n
    rw [h] at hd
    cases hd
  isSpace_eq b hb := isSpace_eq_false_of_isDigit (isDigit_of_mem_decimal hb)

theorem words_line (e : MountEntry) :
    words e.line =
      [decimal e.id, decimal e.parent, decimal e.major ++ 58 :: decimal e.minor] ++
        ((pieces e.root ++ pieces e.mountPoint).map escapeMountInfoPath ++ words e.rest) := by
  have hmajmin : IsWord (decimal e.major ++ 58 :: decimal e.minor) := by
    refine ⟨by simp, fun b hb => ?_⟩
    rcases List.mem_append.mp hb with hb | hb
    · exact (isWord_decimal _).isSpace_eq b hb
    · rcases List.mem_cons.mp hb with rfl | hb
      · rfl
      · exact (isWord_decimal _).isSpace_eq b hb
  have hblank : isSpace 32 = true := rfl
  rw [MountEntry.line, words_append_cons hblank, words_append_cons hblank,
    words_append_cons hblank, words_append_cons hblank, words_append_cons hblank,
    words_eq_singleton (isWord_decimal _), words_eq_singleton (isWord_decimal _),
    words_eq_singleton hmajmin, words_escapeMountInfoPath, words_escapeMountInfoPath]
  simp

theorem mountPointOfLine_line (e : MountEntry) : mountPointOfLine e.line = e.read := by
  rw [mountPointOfLine_eq, words_line, MountEntry.read]
  simp only [List.cons_append, List.nil_append, List.getElem?_cons_succ]
  rw [← List.getElem?_map, List.map_append, List.map_map]
  simp [Function.comp_def, unescape_escape]

theorem newline_notMem_line (e : MountEntry) : (10 : UInt8) ∉ e.line := by
  have hdecimal (n : ℕ) : (10 : UInt8) ∉ decimal n := fun h =>
    absurd (isDigit_of_mem_decimal h) (by decide)
  have hescape (path : Bytes) : (10 : UInt8) ∉ escapeMountInfoPath path := by
    intro h
    obtain ⟨b, -, hb⟩ := List.mem_flatMap.mp h
    unfold escapeByte at hb
    split at hb
    · next hesc =>
        simp only [isEscaped, decide_eq_true_eq] at hesc
        rcases hesc with rfl | rfl | rfl | rfl <;> revert hb <;> decide
    · next hesc =>
        obtain rfl := List.mem_singleton.mp hb
        exact hesc rfl
  simp [MountEntry.line, hdecimal, hescape, e.newline_notMem]

/-- What is listed for the entries. -/
theorem listMountPoints_mountinfo (entries : List MountEntry) :
    listMountPoints (mountinfo entries) = entries.filterMap MountEntry.read := by
  induction entries with
  | nil => rfl
  | cons e entries ih =>
      rw [mountinfo, List.flatMap_cons, List.append_assoc, List.singleton_append, listMountPoints,
        ConfigurationFile.lines_append_newline (newline_notMem_line e), List.filterMap_cons,
        mountPointOfLine_line, List.filterMap_cons]
      unfold listMountPoints mountinfo at ih
      rw [ih]

end VplJail.Jail
