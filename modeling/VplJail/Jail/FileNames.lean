import VplJail.Jail.Commands
import VplJail.Util.SafePath

/-!
# The names of the files of a request

`checkFilesNameCorrectness` tests the names as they come, and `Util::writeFile` tests them behind the
home. A name that comes with a prefix of its own, or is too long for the home, passes only the first.
-/

namespace VplJail.Jail

open Util VplJail.Task Rpc

section Home

variable {home name : Bytes}

/-- The prefix of a path that is accepted is its own, whatever follows. -/
theorem pathStart_append (hhome : IsSafePath home) (name : Bytes) :
    pathStart (home ++ 47 :: name) = pathStart home := by
  have hhead : (home ++ 47 :: name).head? = home.head? :=
    List.head?_append_of_ne_nil _ (List.ne_nil_of_length_pos hhome.one_le)
  have htake : (home ++ 47 :: name).take 2 = ascii "./" ↔ home.take 2 = ascii "./" := by
    rcases home with - | ⟨b, - | ⟨b', home⟩⟩
    · exact absurd hhome.one_le (by decide)
    · -- the home is not the name `.`
      have hne : b ≠ 46 := by
        rintro rfl
        exact absurd (by decide) (hhome.names [46] (by decide)).not_here
      have hdot : ascii "./" = [46, 47] := by decide
      rw [hdot]
      simp [hne]
    · rfl
  unfold pathStart
  simp only [hhead, htake]

theorem behindPrefix_append (hhome : IsSafePath home) (name : Bytes) :
    behindPrefix (home ++ 47 :: name) = behindPrefix home ++ 47 :: name := by
  have hlt : pathStart home ≤ home.length := by
    have hrest := hhome.rest
    rw [← drop_pathStart, ne_eq, List.drop_eq_nil_iff, not_le] at hrest
    exact hrest.le
  rw [← drop_pathStart, ← drop_pathStart, pathStart_append hhome,
    List.drop_append_of_le_length hlt]

/-- Behind a home, a path is safe if its names are, and there is room for them. -/
theorem isSafePath_append (hhome : IsSafePath home) :
    IsSafePath (home ++ 47 :: name) ↔
      (∀ fn ∈ name.splitOn 47, IsSafeName fn) ∧ home.length + 1 + name.length ≤ pathSizeLimit := by
  have hlen : (home ++ 47 :: name).length = home.length + 1 + name.length := by
    rw [List.length_append, List.length_cons]
    omega
  have hsplit : (behindPrefix (home ++ 47 :: name)).splitOn 47 =
      (behindPrefix home).splitOn 47 ++ name.splitOn 47 := by
    rw [behindPrefix_append hhome, List.splitOn_append_cons_self]
  constructor
  · intro h
    refine ⟨fun fn hfn => h.names fn ?_, hlen ▸ h.le_limit⟩
    rw [hsplit]
    exact List.mem_append_right _ hfn
  · rintro ⟨hnames, hlimit⟩
    refine ⟨by omega, hlen.trans_le hlimit, ?_, fun fn hfn => ?_⟩
    · rw [behindPrefix_append hhome]
      exact List.append_ne_nil_of_right_ne_nil _ (List.cons_ne_nil _ _)
    · rw [hsplit, List.mem_append] at hfn
      exact hfn.elim (hhome.names fn) (hnames fn)

/-- A safe path is one of safe names if it has no prefix. -/
theorem isSafeName_iff_of_isSafePath (hname : IsSafePath name) :
    (∀ fn ∈ name.splitOn 47, IsSafeName fn) ↔ ¬ ascii "/" <+: name ∧ ¬ ascii "./" <+: name := by
  have hslash : ascii "/" = [47] := by decide
  have hdot : ascii "./" = [46, 47] := by decide
  rw [hslash, hdot]
  constructor
  · intro h
    constructor
    · rintro ⟨rest, rfl⟩
      have hempty : [] ∈ (([] : Bytes) ++ 47 :: rest).splitOn 47 := by
        rw [List.splitOn_append_cons_self]
        exact List.mem_cons_self
      exact absurd (h [] hempty).one_le (by decide)
    · rintro ⟨rest, rfl⟩
      have hhere : [46] ∈ (([46] : Bytes) ++ 47 :: rest).splitOn 47 := by
        rw [List.splitOn_append_cons_self]
        exact List.mem_cons_self
      exact absurd (by decide) (h [46] hhere).not_here
  · rintro ⟨hnoSlash, hnoDot⟩
    have hself : behindPrefix name = name := by
      fun_cases behindPrefix name with
      | case1 rest => exact absurd ⟨rest, rfl⟩ hnoSlash
      | case2 rest => exact absurd ⟨rest, rfl⟩ hnoDot
      | case3 => rfl
    have hnames := hname.names
    rwa [hself] at hnames

end Home

/-- A name that was accepted is written if it has no prefix and there is room for it. -/
theorem correctPath_fullName_iff {cfg : Configuration} {uid : ℕ} {files : Mapstruct} {name : Bytes}
    (hfiles : checkFilesNameCorrectness files = .ok ()) (hname : name ∈ files.keys)
    (hhome : correctPath (homePath cfg uid) = true) :
    correctPath (fullName (homePath cfg uid) name) = true ↔
      ¬ ascii "/" <+: name ∧ ¬ ascii "./" <+: name ∧
        (homePath cfg uid).length + 1 + name.length ≤ pathSizeLimit := by
  have hall : files.keys.all correctPath = true := by
    unfold checkFilesNameCorrectness at hfiles
    split at hfiles
    · assumption
    · cases hfiles
  have hsafe := (correctPath_iff name).mp (List.all_eq_true.mp hall name hname)
  have hfull : fullName (homePath cfg uid) name = homePath cfg uid ++ 47 :: name := by
    have hslash : ascii "/" = [47] := by decide
    rw [fullName, hslash, List.append_assoc]
    rfl
  rw [hfull, correctPath_iff, isSafePath_append ((correctPath_iff _).mp hhome),
    isSafeName_iff_of_isSafePath hsafe, and_assoc]

/-- The file `a` of a request is written to the home of a prisoner. -/
theorem correctPath_fullName_iff_a :
    correctPath (fullName (homePath .default 10001) (ascii "a")) = true :=
  (@correctPath_fullName_iff .default 10001 (.single "a" "string" "") (ascii "a") rfl
    (by decide) (by decide)).mpr (by decide)

/-- The name `./a` is accepted, and refused behind the home. -/
theorem not_correctPath_fullName_here :
    checkFilesNameCorrectness (.single "./a" "string" "") = .ok () ∧
      ascii "./a" ∈ (Mapstruct.single "./a" "string" "").keys ∧
      correctPath (homePath .default 10001) = true ∧
      correctPath (fullName (homePath .default 10001) (ascii "./a")) = false := by
  refine ⟨rfl, ?_, ?_, ?_⟩ <;> decide

end VplJail.Jail
