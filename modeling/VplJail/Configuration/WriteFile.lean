import VplJail.Configuration.ConfigFile
import VplJail.Util.Exceptions
import Mathlib.Logic.Function.Basic

/-!
# Writing the configuration file

`writeConfiguration` writes a temporary file and renames it. Whatever the system answers, the file is
replaced by the whole new content or nothing is left of the call (`isAtomic_writeConfiguration`).
-/

namespace VplJail.ConfigurationFile

/-! ## The system -/

/-- The files by their names. -/
abbrev FileSystem := Bytes → Option Bytes

/-- The files and the descriptor `fd`, which is `none` for `-1`, with the record: how often the
descriptor was closed, and the files after every call that changes them. -/
structure Disk where
  files : FileSystem
  fd : Option Bytes := none
  closes : ℕ := 0
  seen : List FileSystem := []

/-- What `write` answers: a number of bytes, or an error, which may be `EINTR`. -/
inductive WriteAnswer
  | wrote (n : ℕ)
  | interrupted
  | failed
deriving DecidableEq, Repr

/-- What the calls answer: the name of the temporary file or an error, the answers of `write` in
their order, and for the others whether they succeed. -/
structure SystemAnswers where
  mkstemp : Option Bytes
  fchmod : Bool := true
  write : List WriteAnswer := []
  close : Bool := true
  rename : Bool := true
  unlink : Bool := true

/-- How a call stands: it is still `running` where `write` has not answered yet. -/
inductive Ended
  | returned
  | threw (e : Thrown)
  | running
deriving DecidableEq, Repr

namespace Disk

/-- A call that changes the files. -/
def step (d : Disk) (change : FileSystem → FileSystem) : Disk :=
  { d with files := change d.files, seen := d.seen ++ [change d.files] }

/-- `mkstemp`, which creates an empty file and opens it. -/
def mkstemp (d : Disk) (temp : Bytes) : Disk :=
  { d.step (Function.update · temp (some [])) with fd := some temp }

/-- `write` of the bytes at the end of the open file. -/
def write (d : Disk) (bytes : Bytes) : Disk :=
  match d.fd with
  | some temp => d.step fun files => Function.update files temp ((files temp).map (· ++ bytes))
  | none => d

/-- `close`, which gives the descriptor back even where it fails. -/
def close (d : Disk) : Disk :=
  { d with fd := none, closes := d.closes + 1 }

/-- `rename`: the temporary file becomes the file. -/
def rename (d : Disk) (temp fileName : Bytes) : Disk :=
  d.step fun files => Function.update (Function.update files fileName (files temp)) temp none

/-- `unlink`: the temporary file is gone. -/
def unlink (d : Disk) (temp : Bytes) : Disk :=
  d.step (Function.update · temp none)

end Disk

/-! ## The function -/

/-- The exception of every error. -/
def cantWrite : Thrown :=
  .http internalServerErrorCode "Config file can't be write"

/-- The loop of `write`. It never takes more than it was given. -/
def writeLoop (d : Disk) (remaining : Bytes) : List WriteAnswer → Disk × Ended
  | [] => (d, if remaining = [] then .returned else .running)
  | answer :: answers =>
      if remaining = [] then (d, .returned)
      else match answer with
        | .interrupted => writeLoop d remaining answers
        | .failed => (d, .threw cantWrite)
        | .wrote n =>
            if min n remaining.length = 0 then (d, .threw cantWrite)
            else writeLoop (d.write (remaining.take n)) (remaining.drop n) answers

/-- The `try` block behind the loop. -/
def replace (fileName temp : Bytes) (a : SystemAnswers) (d : Disk) : Disk × Ended :=
  if ¬ a.close then (d.close, .threw cantWrite)
  else if ¬ a.rename then (d.close, .threw cantWrite)
  else (d.close.rename temp fileName, .returned)

/-- The `try` block. -/
def writeTemp (fileName temp : Bytes) (data : ConfigData) (a : SystemAnswers) (d : Disk) :
    Disk × Ended :=
  if ¬ a.fchmod then (d, .threw cantWrite)
  else match writeLoop d (serialize data) a.write with
    | (d, .returned) => replace fileName temp a d
    | stopped => stopped

/-- The handler. -/
def cleanUp (temp : Bytes) (a : SystemAnswers) (d : Disk) : Disk :=
  let d := if d.fd.isSome then d.close else d
  if a.unlink then d.unlink temp else d

/-- `writeConfiguration`: the parameters go to a temporary file, which is renamed. -/
def writeConfiguration (fileName : Bytes) (data : ConfigData) (a : SystemAnswers) (d : Disk) :
    Disk × Ended :=
  match a.mkstemp with
  | none => (d, .threw cantWrite)
  | some temp =>
      match writeTemp fileName temp data a (d.mkstemp temp) with
      | (d, .threw e) => (cleanUp temp a d, .threw e)
      | ended => ended

/-! ## What it does -/

/-- The temporary file of `mkstemp`: its name is one for the template, and there was no such file. -/
structure IsTemp (fileName : Bytes) (files : FileSystem) (temp : Bytes) : Prop where
  template : ∃ suffix : Bytes, suffix.length = 6 ∧ temp = fileName ++ ascii ".tmp." ++ suffix
  absent : files temp = none

/-- The file is replaced by the whole content, or nothing is left of the call. In between the file
has the old content or the new one, and the descriptor is closed once. -/
structure IsAtomic (fileName content : Bytes) (files : FileSystem) (opened : Bool)
    (r : Disk × Ended) : Prop where
  returned : r.2 = .returned → r.1.files = Function.update files fileName (some content)
  threw : ∀ e, r.2 = .threw e → r.1.files = files
  between : ∀ now ∈ r.1.seen, now fileName = files fileName ∨ now fileName = some content
  closed : r.2 ≠ .running → r.1.fd = none ∧ r.1.closes = if opened then 1 else 0

section Calls

variable {fileName temp content : Bytes} {files : FileSystem} {d : Disk}

theorem IsTemp.ne (h : IsTemp fileName files temp) : fileName ≠ temp := by
  obtain ⟨suffix, hsuffix, rfl⟩ := h.template
  intro heq
  have hlength := congrArg List.length heq
  simp only [List.length_append, hsuffix] at hlength
  omega

/-- While the descriptor is open: the temporary file has been written up to some byte, and nothing
else has changed. -/
structure Writing (fileName temp : Bytes) (files : FileSystem) (written : Bytes) (d : Disk) :
    Prop where
  files_eq : d.files = Function.update files temp (some written)
  fd_eq : d.fd = some temp
  closes_eq : d.closes = 0
  seen_eq : ∀ now ∈ d.seen, now fileName = files fileName

/-- The same without the descriptor. -/
structure Closed (fileName temp : Bytes) (files : FileSystem) (written : Bytes) (d : Disk) :
    Prop where
  files_eq : d.files = Function.update files temp (some written)
  fd_eq : d.fd = none
  closes_eq : d.closes = 1
  seen_eq : ∀ now ∈ d.seen, now fileName = files fileName

theorem writing_mkstemp (htemp : IsTemp fileName files temp) :
    Writing fileName temp files [] (Disk.mkstemp { files } temp) where
  files_eq := rfl
  fd_eq := rfl
  closes_eq := rfl
  seen_eq := by
    intro now hnow
    rw [List.mem_singleton.mp hnow]
    exact Function.update_of_ne htemp.ne _ _

theorem Writing.write {written : Bytes} (h : Writing fileName temp files written d)
    (hne : fileName ≠ temp) (bytes : Bytes) :
    Writing fileName temp files (written ++ bytes) (d.write bytes) := by
  have hfiles : Function.update d.files temp ((d.files temp).map (· ++ bytes)) =
      Function.update files temp (some (written ++ bytes)) := by
    rw [h.files_eq, Function.update_idem, Function.update_self]
    rfl
  rw [Disk.write, h.fd_eq]
  refine ⟨hfiles, h.fd_eq, h.closes_eq, fun now hnow => ?_⟩
  rcases List.mem_append.mp hnow with hnow | hnow
  · exact h.seen_eq now hnow
  · rw [List.mem_singleton.mp hnow]
    exact (congrFun hfiles fileName).trans (Function.update_of_ne hne _ _)

theorem Writing.close {written : Bytes} (h : Writing fileName temp files written d) :
    Closed fileName temp files written d.close where
  files_eq := h.files_eq
  fd_eq := rfl
  closes_eq := congrArg (· + 1) h.closes_eq
  seen_eq := h.seen_eq

/-- The loop writes all bytes, throws, or has more to write. -/
theorem writing_writeLoop (hne : fileName ≠ temp) (answers : List WriteAnswer)
    {written remaining : Bytes} (h : Writing fileName temp files written d) :
    ∃ written', Writing fileName temp files written' (writeLoop d remaining answers).1 ∧
      ((writeLoop d remaining answers).2 = .returned → written' = written ++ remaining) := by
  induction answers generalizing d written remaining with
  | nil =>
    refine ⟨written, h, ?_⟩
    rw [writeLoop]
    split
    · rename_i hnil
      rw [hnil, List.append_nil]
      exact fun _ => rfl
    · exact fun hreturned => by cases hreturned
  | cons answer answers ih =>
    unfold writeLoop
    split
    · rename_i hnil
      rw [hnil, List.append_nil]
      exact ⟨written, h, fun _ => rfl⟩
    · cases answer with
      | interrupted => exact ih h
      | failed => exact ⟨written, h, fun hreturned => by cases hreturned⟩
      | wrote n =>
        dsimp only
        split
        · exact ⟨written, h, fun hreturned => by cases hreturned⟩
        · obtain ⟨written', hwriting, hwhole⟩ := ih (h.write hne (remaining.take n))
          refine ⟨written', hwriting, fun hreturned => ?_⟩
          rw [hwhole hreturned, List.append_assoc, List.take_append_drop]

/-- Every answer but `EINTR` ends the loop or makes it go on with less. -/
theorem writeLoop_ne_running {answers : List WriteAnswer} {remaining : Bytes}
    (h : remaining.length ≤ answers.countP fun answer => answer ≠ .interrupted) :
    (writeLoop d remaining answers).2 ≠ .running := by
  induction answers generalizing d remaining with
  | nil =>
    rw [writeLoop, if_pos (List.eq_nil_of_length_eq_zero (Nat.le_zero.mp h))]
    exact Ended.noConfusion
  | cons answer answers ih =>
    unfold writeLoop
    split
    · exact Ended.noConfusion
    · cases answer with
      | interrupted => exact ih (by simpa using h)
      | failed => exact Ended.noConfusion
      | wrote n =>
        dsimp only
        split
        · exact Ended.noConfusion
        · refine ih ?_
          rw [List.countP_cons_of_pos (by simp)] at h
          rw [List.length_drop]
          omega

/-- The temporary file takes the place of the file. -/
theorem Closed.rename (htemp : IsTemp fileName files temp)
    (h : Closed fileName temp files content d) :
    (d.rename temp fileName).files = Function.update files fileName (some content) := by
  have hnone : Function.update d.files temp none = files := by
    rw [h.files_eq, Function.update_idem, ← htemp.absent, Function.update_eq_self]
  have hcontent : d.files temp = some content := by
    rw [h.files_eq, Function.update_self]
  change Function.update (Function.update d.files fileName (d.files temp)) temp none = _
  rw [Function.update_comm htemp.ne, hnone, hcontent]

/-- The handler leaves nothing of the call. -/
theorem files_cleanUp {written : Bytes} {a : SystemAnswers} (hunlink : a.unlink = true)
    (htemp : IsTemp fileName files temp)
    (h : Writing fileName temp files written d ∨ Closed fileName temp files written d) :
    (cleanUp temp a d).files = files ∧ (cleanUp temp a d).fd = none ∧
      (cleanUp temp a d).closes = 1 ∧
      ∀ now ∈ (cleanUp temp a d).seen, now fileName = files fileName := by
  -- in both cases the descriptor is closed once before the file is removed
  have hclosed : Closed fileName temp files written (if d.fd.isSome then d.close else d) := by
    rcases h with h | h
    · rw [h.fd_eq]
      exact h.close
    · rw [h.fd_eq]
      exact h
  rw [cleanUp, if_pos hunlink]
  generalize (if d.fd.isSome then d.close else d) = d' at hclosed
  have hfiles : Function.update d'.files temp none = files := by
    rw [hclosed.files_eq, Function.update_idem, ← htemp.absent, Function.update_eq_self]
  refine ⟨hfiles, hclosed.fd_eq, hclosed.closes_eq, fun now hnow => ?_⟩
  rcases List.mem_append.mp hnow with hnow | hnow
  · exact hclosed.seen_eq now hnow
  · rw [List.mem_singleton.mp hnow]
    exact congrFun hfiles fileName

/-- A call that throws in the `try` block. -/
theorem isAtomic_cleanUp {written : Bytes} {a : SystemAnswers} {e : Thrown}
    (hunlink : a.unlink = true) (htemp : IsTemp fileName files temp)
    (h : Writing fileName temp files written d ∨ Closed fileName temp files written d) :
    IsAtomic fileName content files true (cleanUp temp a d, .threw e) where
  returned := Ended.noConfusion
  threw := fun _ _ => (files_cleanUp hunlink htemp h).1
  between := fun now hnow => .inl ((files_cleanUp hunlink htemp h).2.2.2 now hnow)
  closed := fun _ =>
    ⟨(files_cleanUp hunlink htemp h).2.1, (files_cleanUp hunlink htemp h).2.2.1⟩

/-- A call that renames the file. -/
theorem isAtomic_rename (htemp : IsTemp fileName files temp)
    (h : Closed fileName temp files content d) :
    IsAtomic fileName content files true (d.rename temp fileName, .returned) where
  returned := fun _ => h.rename htemp
  threw := fun _ => Ended.noConfusion
  between := by
    intro now hnow
    rcases List.mem_append.mp hnow with hnow | hnow
    · exact .inl (h.seen_eq now hnow)
    · rw [List.mem_singleton.mp hnow]
      right
      exact (congrFun (h.rename htemp) fileName).trans (Function.update_self ..)
  closed := fun _ => ⟨h.fd_eq, h.closes_eq⟩

/-- The `try` block has written a part, and throws, renames or still writes. -/
theorem writeTemp_cases (htemp : IsTemp fileName files temp) (data : ConfigData)
    (a : SystemAnswers) (h : Writing fileName temp files [] d) :
    (∃ d' written e, writeTemp fileName temp data a d = (d', .threw e) ∧
        (Writing fileName temp files written d' ∨ Closed fileName temp files written d')) ∨
      (∃ d', writeTemp fileName temp data a d = (d'.rename temp fileName, .returned) ∧
        Closed fileName temp files (serialize data) d') ∨
      ∃ d' written, writeTemp fileName temp data a d = (d', .running) ∧
        Writing fileName temp files written d' := by
  unfold writeTemp
  by_cases hfchmod : a.fchmod = true
  swap
  · rw [if_pos hfchmod]
    exact .inl ⟨d, [], _, rfl, .inl h⟩
  rw [if_neg (not_not.mpr hfchmod)]
  obtain ⟨written, hloop, hwhole⟩ :=
    @writing_writeLoop _ _ _ _ htemp.ne a.write _ (serialize data) h
  generalize writeLoop d (serialize data) a.write = r at hloop hwhole
  obtain ⟨d', ended⟩ := r
  cases ended with
  | running => exact .inr (.inr ⟨d', written, rfl, hloop⟩)
  | threw e => exact .inl ⟨d', written, e, rfl, .inl hloop⟩
  | returned =>
    obtain rfl := hwhole rfl
    dsimp only
    unfold replace
    split
    · exact .inl ⟨_, _, _, rfl, .inr hloop.close⟩
    · split
      · exact .inl ⟨_, _, _, rfl, .inr hloop.close⟩
      · exact .inr (.inl ⟨_, rfl, hloop.close⟩)

end Calls

/-- Whatever the calls answer, the file is replaced by the whole content, or the files are as they
were before. -/
theorem isAtomic_writeConfiguration (fileName : Bytes) (data : ConfigData) (a : SystemAnswers)
    (files : FileSystem) (hmkstemp : ∀ temp ∈ a.mkstemp, IsTemp fileName files temp)
    (hunlink : a.unlink = true) :
    IsAtomic fileName (serialize data) files a.mkstemp.isSome
      (writeConfiguration fileName data a { files }) := by
  unfold writeConfiguration
  cases htemp : a.mkstemp with
  | none =>
    exact ⟨Ended.noConfusion, fun _ _ => rfl, fun _ h => absurd h List.not_mem_nil,
      fun _ => ⟨rfl, rfl⟩⟩
  | some temp =>
    have htemp := hmkstemp temp htemp
    dsimp only [Option.isSome_some]
    obtain ⟨d, written, e, htry, h⟩ | ⟨d, htry, h⟩ | ⟨d, written, htry, h⟩ :=
      writeTemp_cases htemp data a (writing_mkstemp htemp)
    · rw [htry]
      exact isAtomic_cleanUp hunlink htemp h
    · rw [htry]
      exact isAtomic_rename htemp h
    · -- the loop has not come to its end yet
      rw [htry]
      exact ⟨Ended.noConfusion, fun _ => Ended.noConfusion,
        fun now hnow => .inl (h.seen_eq now hnow), fun hrunning => absurd rfl hrunning⟩

/-- The configuration without parameters, written in three parts with an `EINTR` between them. -/
theorem isAtomic_writeConfiguration_empty :
    IsAtomic (ascii "vpl.conf") (serialize ∅) (fun _ => none) true
      (writeConfiguration (ascii "vpl.conf") ∅
        { mkstemp := some (ascii "vpl.conf.tmp.aB3xYz")
          write := [.wrote 10, .interrupted, .wrote 5, .wrote 1000] } { files := fun _ => none }) :=
  isAtomic_writeConfiguration (ascii "vpl.conf") ∅
    { mkstemp := some (ascii "vpl.conf.tmp.aB3xYz")
      write := [.wrote 10, .interrupted, .wrote 5, .wrote 1000] } (fun _ => none)
    (fun _ htemp => ⟨⟨ascii "aB3xYz", rfl, (Option.some.inj htemp).symm⟩, rfl⟩) rfl

end VplJail.ConfigurationFile
