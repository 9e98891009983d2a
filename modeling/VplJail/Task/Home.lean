import Std.Data.TreeMap.Lemmas
import VplJail.Configuration.Settings
import VplJail.Util.Exceptions
import VplJail.Util.Text

/-!
# The home of a prisoner

The files that a prisoner's programs see, and how the server writes and deletes them.
-/

namespace VplJail.Task

open Util

/-- The regular files of a prisoner's home, by their paths in it, and the paths that have been written
or removed so far. -/
structure Home where
  files : Std.TreeMap Bytes Bytes compare
  touched : List Bytes

/-- `getHomePath` of a prisoner. -/
def homePath (cfg : Configuration) (uid : ℕ) : Bytes :=
  cfg.jailPath ++ ascii "/home/" ++ (ascii "p" ++ itos uid)

/-- The full path of a file of the home. -/
def fullName (homePath name : Bytes) : Bytes :=
  homePath ++ ascii "/" ++ name

/-- A script, whose ends of line are converted. -/
def isScript (name : Bytes) : Bool :=
  decide (4 < name.length) && name.drop (name.length - 3) == ascii ".sh"

/-- A file stands where the path needs a directory, or the path is a directory. -/
def isBlocked (home : Home) (name : Bytes) : Bool :=
  home.files.keys.any fun path =>
    (path ++ ascii "/").isPrefixOf name || (name ++ ascii "/").isPrefixOf path

/-- `processMonitor::writeFile` with `Util::writeFile`, without I/O errors. The path that
`correctPath` accepts has no other name. -/
def writeFile (homePath name data : Bytes) (home : Home) : Home × Except Thrown Unit :=
  if !correctPath (fullName homePath name) || isBlocked home name then
    (home, throw (.http internalServerErrorCode "I can't write file"))
  else
    (⟨home.files.insert name (if isScript name then removeCRs data else data),
      home.touched ++ [name]⟩, pure ())

/-- `processMonitor::deleteFile` with `Util::deleteFile`, without I/O errors. -/
def deleteFile (homePath name : Bytes) (home : Home) : Home :=
  if correctPath (fullName homePath name) ∧ name ∈ home.files then
    ⟨home.files.erase name, home.touched ++ [name]⟩
  else home

section Files

variable {homePath : Bytes} {home home' : Home}

/-- A file that is written is there, and so is what was there. -/
theorem writeFile_eq_ok {name data : Bytes}
    (h : writeFile homePath name data home = (home', .ok ())) :
    correctPath (fullName homePath name) = true ∧
      ∀ k, k ∈ home'.files ↔ name = k ∨ k ∈ home.files := by
  rw [writeFile] at h
  split at h
  · cases h
  · rename_i hcond
    rw [Bool.not_eq_true, Bool.or_eq_false_iff, Bool.not_eq_false'] at hcond
    obtain rfl := (Prod.mk.inj h).1
    refine ⟨hcond.1, fun k => ?_⟩
    rw [Std.TreeMap.mem_insert, Std.LawfulEqCmp.compare_eq_iff_eq]

/-- What remains when a file is deleted. -/
theorem mem_deleteFile {name file : Bytes} :
    name ∈ (deleteFile homePath file home).files ↔
      name ∈ home.files ∧ ¬ (name = file ∧ correctPath (fullName homePath name) = true) := by
  rw [deleteFile]
  split
  · rename_i h
    rw [Std.TreeMap.mem_erase, ne_eq, Std.LawfulEqCmp.compare_eq_iff_eq]
    constructor
    · rintro ⟨hne, hmem⟩
      exact ⟨hmem, fun heq => hne heq.1.symm⟩
    · rintro ⟨hmem, hne⟩
      refine ⟨?_, hmem⟩
      rintro rfl
      exact hne ⟨rfl, h.1⟩
  · rename_i h
    refine (and_iff_left_of_imp fun hmem => ?_).symm
    rintro ⟨rfl, hcorrect⟩
    exact h ⟨hcorrect, hmem⟩

/-- A file is written, or the home stays as it is. -/
theorem writeFile_cases (homePath name data : Bytes) (home : Home) :
    (correctPath (fullName homePath name) = false ∨ isBlocked home name = true) ∧
        (∃ e, writeFile homePath name data home = (home, .error e)) ∨
      ¬ (correctPath (fullName homePath name) = false ∨ isBlocked home name = true) ∧
        ∃ home', writeFile homePath name data home = (home', .ok ()) ∧
          home'.touched = home.touched ++ [name] := by
  rw [writeFile]
  split
  · rename_i hcond
    rw [Bool.or_eq_true, Bool.not_eq_true'] at hcond
    exact .inl ⟨hcond, _, rfl⟩
  · rename_i hcond
    rw [Bool.or_eq_true, Bool.not_eq_true'] at hcond
    exact .inr ⟨hcond, _, rfl, rfl⟩

/-- A deletion forgets no path touched. -/
theorem length_touched_deleteFile_le (homePath name : Bytes) (home : Home) :
    home.touched.length ≤ (deleteFile homePath name home).touched.length := by
  rw [deleteFile]
  split
  · simp
  · exact Nat.le_refl _

end Files

end VplJail.Task
