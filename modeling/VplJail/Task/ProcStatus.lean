import VplJail.Common.LineRegex
import VplJail.Task.Draws
import VplJail.Util.Exceptions
import VplJail.Util.MemSize
import Mathlib.Algebra.Order.BigOperators.Group.List

/-!
# The processes of a prisoner

The processes of a prisoner and their memory, as `/proc` shows them: the user of a process and its peak
of memory are found in the lines of its `status`. A process chooses its own name, which is in this text
as well, and yet it is found whatever it calls itself (`getPrisonerProcesses_eq`).
-/

namespace VplJail.Task

open PosixRegex Util

/-! ## The readers -/

/-- `Util::atoi`: the number at the start of a text. -/
def utilAtoi (s : Bytes) : ℤ :=
  if maxInt < atoll s then maxInt else (atoll s).bmod (2 ^ 32)

/-- A text, whatever the case of its letters. -/
def ignoringCase (text : Bytes) : List (Item UInt8) :=
  text.map fun b => .one fun a => toupper a == toupper b

/-- What `reg_uid`, which is `.*^Uid:[ \t]+([0-9]+)`, has behind `^`. -/
def regUid : List (Item UInt8) :=
  ignoringCase (ascii "Uid:") ++ [.plus isBlank, .plus isDigit]

/-- What `reg_mem`, which is `.*^VmHWM:[ \t]+([0-9]+)[ \t]+(.*)`, has behind `^`. -/
def regMem : List (Item UInt8) :=
  ignoringCase (ascii "VmHWM:") ++
    [.plus isBlank, .plus isDigit, .plus isBlank, .star fun a => decide (a ≠ 10)]

/-- The search of such an expression in a text. -/
def searchStatus (post : List (Item UInt8)) (status : Bytes) : Option (List Bytes) :=
  searchLine 10 (dotStar 10) post true (cstr status)

/-- The group of a match that is the given item. -/
def group (found : List Bytes) (item : ℕ) : Bytes :=
  (found[item]?).getD []

/-- An entry of `/proc`: its name, and whether it may be a directory. -/
structure ProcEntry where
  name : Bytes
  mayBeDir : Bool

/-- What `/proc` shows: its entries, if it can be opened, and what `Util::readFile` makes of the `status`
of an entry. -/
structure Procfs where
  entries : Option (List ProcEntry)
  status : Bytes → Except Thrown Bytes

/-- The user that is found in a status. -/
def uidIn (status : Bytes) : ℤ :=
  match searchStatus regUid status with
  | some found => utilAtoi (group found 6)
  | none => -1

/-- `getProcessUID`: the owner of a process, by its status. -/
def getProcessUID (proc : Procfs) (pid : ℤ) : Except Thrown ℤ := do
  let status ← proc.status (itos pid)
  pure (uidIn status)

/-- The entries that `getPrisonerProcesses` goes through. -/
def prisonerProcessesIn (proc : Procfs) (prisoner : ℤ) : List ProcEntry → Except Thrown (List ℤ)
  | [] => pure []
  | entry :: entries =>
      if entry.mayBeDir ∧ 0 < atoi (cstr entry.name) then do
        let uid ← getProcessUID proc (atoi (cstr entry.name))
        let pids ← prisonerProcessesIn proc prisoner entries
        pure (if uid = prisoner then atoi (cstr entry.name) :: pids else pids)
      else prisonerProcessesIn proc prisoner entries

/-- `getPrisonerProcesses`: the processes of a prisoner in `/proc`. -/
def getPrisonerProcesses (proc : Procfs) (prisoner : ℤ) : Except Thrown (List ℤ) :=
  prisonerProcessesIn proc prisoner (proc.entries.getD [])

/-- The memory of a process in bytes, if it belongs to the prisoner. -/
def memoryOf (prisoner : ℤ) (status : Bytes) : ℤ :=
  match searchStatus regUid status with
  | some found =>
      if utilAtoi (group found 6) = prisoner then
        match searchStatus regMem status with
        | some found =>
            let mul : ℤ := if group found 10 = ascii "mB" then 1024 * 1024 else 1024
            (atoll (group found 8) * mul).bmod (2 ^ 64)
        | none => 0
      else 0
  | none => 0

/-- The entries that `getMemoryUsedBasedOnProc` goes through. -/
def memoryUsedIn (proc : Procfs) (prisoner : ℤ) : List ProcEntry → Except Thrown ℤ
  | [] => pure 0
  | entry :: entries =>
      if itos (utilAtoi entry.name) ≠ entry.name then memoryUsedIn proc prisoner entries
      else do
        let status ← proc.status entry.name
        let rest ← memoryUsedIn proc prisoner entries
        pure ((memoryOf prisoner status + rest).bmod (2 ^ 64))

/-- `getMemoryUsedBasedOnProc`: the memory of the processes of a prisoner. -/
def getMemoryUsedBasedOnProc (proc : Procfs) (prisoner : ℤ) : Except Thrown ℤ :=
  match proc.entries with
  | none => pure maxInt
  | some entries => memoryUsedIn proc prisoner entries

/-! ## The text of a status -/

/-- A line of a status that is not about what is looked for. -/
structure IsOther (line : Bytes) : Prop where
  single : ∀ b ∈ line, b ≠ 10 ∧ b ≠ 0
  uid : ¬ ascii "UID:" <+: toUppercase line
  hwm : ¬ ascii "VMHWM:" <+: toUppercase line

/-- The status of a process: the name that it gives itself, its user with the other ids of the line, its
peak of memory with the blanks in front, unless it has no memory of its own, and the other lines. -/
structure Status where
  name : Bytes
  uid : ℕ
  ids : Bytes
  hwm : Option (Bytes × ℕ)
  early : List Bytes
  middle : List Bytes
  late : List Bytes
  name_line : ∀ b ∈ name, b ≠ 10 ∧ b ≠ 0
  uid_lt : uid < 2 ^ 32
  ids_line : ∀ b ∈ ids, b ≠ 10 ∧ b ≠ 0
  ids_head : ∀ b ∈ ids.head?, isDigit b = false
  gap_blank : ∀ m ∈ hwm, m.1 ≠ [] ∧ ∀ b ∈ m.1, isBlank b = true
  hwm_lt : ∀ m ∈ hwm, m.2 < 2 ^ 53
  early_other : ∀ line ∈ early, IsOther line
  middle_other : ∀ line ∈ middle, IsOther line
  late_other : ∀ line ∈ late, IsOther line

namespace Status

/-- The line with the name. -/
def nameLine (s : Status) : Bytes :=
  ascii "Name:\t" ++ s.name

/-- The line with the user. -/
def uidLine (s : Status) : Bytes :=
  ascii "Uid:\t" ++ (itos s.uid ++ s.ids)

/-- The line with the peak of memory. -/
def hwmLine (m : Bytes × ℕ) : Bytes :=
  ascii "VmHWM:" ++ (m.1 ++ (itos m.2 ++ ascii " kB"))

/-- The lines. -/
def lines (s : Status) : List Bytes :=
  s.nameLine :: s.early ++ s.uidLine :: s.middle ++ (s.hwm.map hwmLine).toList ++ s.late

/-- What the kernel shows. -/
def text (s : Status) : Bytes :=
  linesText 10 s.lines

end Status

/-! ## The searches -/

section Searches

variable {text rest line : Bytes} {is : List (Item UInt8)}

/-- A text is found where it stands. -/
theorem search_ignoringCase (text rest : Bytes) :
    search (ignoringCase text ++ is) (text ++ rest) =
      (search is rest).map (text.map ([·]) ++ ·) := by
  induction text with
  | nil => exact Option.map_id'.symm
  | cons b text ih =>
    have hone : search (ignoringCase (b :: text) ++ is) (b :: text ++ rest) =
        (search (ignoringCase text ++ is) (text ++ rest)).map ([b] :: ·) :=
      search_one (beq_self_eq_true _)
    rw [hone, ih, Option.map_map]
    rfl

/-- A text is not found in front of another one. -/
theorem search_ignoringCase_eq_none (h : ¬ toUppercase text <+: toUppercase line) :
    search (ignoringCase text ++ is) line = none := by
  induction text generalizing line with
  | nil => exact absurd (List.nil_prefix) h
  | cons b text ih =>
    cases line with
    | nil =>
      refine search_eq_none.mpr fun m rest hm heq => ?_
      obtain ⟨seg, more, hseg, -, rfl⟩ := List.forall₂_cons_left_iff.mp hm
      obtain ⟨a, rfl, -⟩ := exists_of_accepts_one hseg
      cases heq
    | cons a line =>
      rcases hab : toupper a == toupper b with _ | _
      · exact search_one_eq_none hab
      · have hone : search (ignoringCase (b :: text) ++ is) (a :: line) =
            (search (ignoringCase text ++ is) line).map ([a] :: ·) := search_one hab
        rw [hone, ih, Option.map_none]
        intro hprefix
        refine h ?_
        rw [toUppercase, toUppercase, List.map_cons, List.map_cons, beq_iff_eq.mp hab]
        exact (List.prefix_cons_inj _).mpr hprefix

/-- What does not stand in front of a line does not stand in front of it with the lines behind. -/
theorem not_prefix_line (h10 : 10 ∉ toUppercase text) (h : ¬ toUppercase text <+: toUppercase line)
    (rest : Bytes) : ¬ toUppercase text <+: toUppercase (line ++ 10 :: rest) := by
  intro hprefix
  have hsplit : toUppercase (line ++ 10 :: rest) = toUppercase line ++ 10 :: toUppercase rest :=
    List.map_append
  rw [hsplit] at hprefix
  rcases le_or_gt (toUppercase text).length (toUppercase line).length with hle | hlt
  · exact h (List.prefix_of_prefix_length_le hprefix (List.prefix_append _ _) hle)
  · have hlonger : toUppercase line ++ [10] <+: toUppercase line ++ 10 :: toUppercase rest :=
      (List.prefix_append_right_inj _).mpr (List.prefix_append [10] _)
    have hnewline : toUppercase line ++ [10] <+: toUppercase text := by
      refine List.prefix_of_prefix_length_le hlonger hprefix ?_
      rw [List.length_append]
      exact hlt
    exact h10 (hnewline.subset (List.mem_append_right _ (List.mem_singleton_self 10)))

/-- A line that does not start with the text is skipped. -/
theorem search_line_eq_none (h10 : 10 ∉ toUppercase text)
    (h : ¬ toUppercase text <+: toUppercase line) (rest : Bytes) :
    search (ignoringCase text ++ is) (line ++ 10 :: rest) = none :=
  search_ignoringCase_eq_none (not_prefix_line h10 h rest)

theorem isDigit_eq_false_of_isBlank {b : UInt8} (h : isBlank b = true) : isDigit b = false := by
  rcases Bool.or_eq_true_iff.mp h with h | h <;> rw [beq_iff_eq.mp h] <;> rfl

theorem isBlank_eq_false_of_isDigit {b : UInt8} (h : isDigit b = true) : isBlank b = false := by
  rcases hb : isBlank b with _ | _
  · rfl
  · rw [isDigit_eq_false_of_isBlank hb] at h
    cases h

/-- The number behind a key and blanks, whatever follows that is no digit. -/
theorem search_number {gap : Bytes} {n : ℕ} {m : List Bytes} (hne : gap ≠ [])
    (hgap : ∀ b ∈ gap, isBlank b = true)
    (hdigits : search (.plus isDigit :: is) (itos n ++ rest) = some (itos n :: m)) (key : Bytes) :
    search (ignoringCase key ++ .plus isBlank :: .plus isDigit :: is)
        (key ++ (gap ++ (itos n ++ rest))) = some (key.map ([·]) ++ gap :: itos n :: m) := by
  have hhead : ∀ b ∈ (itos n ++ rest).head?, isBlank b = false := by
    intro b hb
    obtain ⟨d, ds, hd⟩ := List.exists_cons_of_ne_nil (itos_ne_nil n)
    rw [hd] at hb
    obtain rfl : d = b := Option.some.inj hb
    exact isBlank_eq_false_of_isDigit
      (isDigit_itos_iff.mpr (Int.natCast_nonneg n) d (hd ▸ List.mem_cons_self))
  have hblanks : search (.plus isBlank :: .plus isDigit :: is) (gap ++ (itos n ++ rest)) =
      (search (.plus isDigit :: is) (itos n ++ rest)).map (gap :: ·) :=
    search_plus hne hgap hhead fun b hb t =>
      search_plus_eq_none (isDigit_eq_false_of_isBlank (hgap b (List.mem_of_mem_tail hb)))
  rw [search_ignoringCase, hblanks, hdigits]
  rfl

/-- A line is found if those in front of it are about something else. -/
theorem searchLine_found {key line : Bytes} {before after m : List Bytes} (h10 : 10 ∉ toUppercase key)
    (hsingle : ∀ l ∈ before, 10 ∉ l) (hother : ∀ l ∈ before, ¬ toUppercase key <+: toUppercase l)
    (hfound : search (ignoringCase key ++ is) (line ++ 10 :: linesText 10 after) = some m) :
    searchLine 10 (dotStar 10) (ignoringCase key ++ is) true
      (linesText 10 (before ++ line :: after)) = some ([] :: m) := by
  have htext : linesText 10 (before ++ line :: after) =
      linesText 10 before ++ (line ++ 10 :: linesText 10 after) := by
    rw [linesText, List.flatMap_append, List.flatMap_cons, List.append_assoc]
    rfl
  rw [htext, searchLine_append hsingle fun l hl => search_line_eq_none h10 (hother l hl)]
  exact searchLine_of_search hfound

/-- Nothing is found if all lines are about something else. -/
theorem searchLine_not_found {key : Bytes} {lines : List Bytes} (hne : key ≠ [])
    (h10 : 10 ∉ toUppercase key) (hsingle : ∀ l ∈ lines, 10 ∉ l)
    (hother : ∀ l ∈ lines, ¬ toUppercase key <+: toUppercase l) :
    searchLine 10 (dotStar 10) (ignoringCase key ++ is) true (linesText 10 lines) = none := by
  rw [← List.append_nil (linesText 10 lines),
    searchLine_append hsingle fun l hl => search_line_eq_none h10 (hother l hl)]
  refine searchLine_nil (search_ignoringCase_eq_none fun hprefix => hne ?_)
  exact List.map_eq_nil_iff.mp (List.prefix_nil.mp hprefix)

end Searches

/-! ## What is found -/

namespace Status

variable (s : Status)

/-- No line has an end of line or a NUL. -/
theorem single_line : ∀ line ∈ s.lines, ∀ b ∈ line, b ≠ 10 ∧ b ≠ 0 := by
  have hascii {text : Bytes} (htext : ∀ b ∈ text, b ≠ 10 ∧ b ≠ 0) {more : Bytes}
      (hmore : ∀ b ∈ more, b ≠ 10 ∧ b ≠ 0) : ∀ b ∈ text ++ more, b ≠ 10 ∧ b ≠ 0 :=
    List.forall_mem_append.mpr ⟨htext, hmore⟩
  have hdigits (n : ℕ) : ∀ b ∈ itos n, b ≠ 10 ∧ b ≠ 0 := by
    intro b hb
    have hdigit := isDigit_itos_iff.mpr (Int.natCast_nonneg n) b hb
    constructor <;> rintro rfl <;> cases hdigit
  have hhwm : ∀ line ∈ (s.hwm.map hwmLine).toList, ∀ b ∈ line, b ≠ 10 ∧ b ≠ 0 := by
    intro line hline
    obtain ⟨m, hm, rfl⟩ := Option.map_eq_some_iff.mp (Option.mem_toList.mp hline)
    refine hascii (by decide +kernel) (hascii ?_ (hascii (hdigits _) (by decide +kernel)))
    intro b hb
    have hblank := (s.gap_blank m hm).2 b hb
    constructor <;> rintro rfl <;> cases hblank
  intro line hline
  simp only [lines, List.cons_append, List.mem_cons, List.mem_append, or_assoc] at hline
  rcases hline with rfl | hline | rfl | hline | hline | hline
  · exact hascii (by decide +kernel) s.name_line
  · exact (s.early_other line hline).single
  · exact hascii (by decide +kernel) (hascii (hdigits _) s.ids_line)
  · exact (s.middle_other line hline).single
  · exact hhwm line hline
  · exact (s.late_other line hline).single

theorem cstr_text : cstr s.text = s.text := by
  refine cstr_eq_self fun hzero => ?_
  obtain ⟨line, hline, hb⟩ := List.mem_flatMap.mp hzero
  rcases List.mem_append.mp hb with hb | hb
  · exact (s.single_line line hline 0 hb).2 rfl
  · cases List.mem_singleton.mp hb

/-- The user is found, whatever name the process gives itself. -/
theorem searchStatus_uid : searchStatus regUid s.text =
    some ([] :: ((ascii "Uid:").map ([·]) ++ [[9], itos s.uid])) := by
  have hnumber (after : List Bytes) :
      search regUid (s.uidLine ++ 10 :: linesText 10 after) =
        some ((ascii "Uid:").map ([·]) ++ [[9], itos s.uid]) := by
    have hids : ∀ b ∈ (s.ids ++ 10 :: linesText 10 after).head?, isDigit b = false := by
      intro b hb
      cases hids : s.ids with
      | nil =>
        rw [hids] at hb
        obtain rfl : (10 : UInt8) = b := Option.some.inj hb
        rfl
      | cons a ids =>
        rw [hids] at hb
        exact s.ids_head b (by rw [hids]; exact hb)
    have hdigits : search [.plus isDigit] (itos s.uid ++ (s.ids ++ 10 :: linesText 10 after)) =
        some [itos s.uid] :=
      search_last (.inl rfl) (List.length_pos_iff.mpr (itos_ne_nil _))
        (isDigit_itos_iff.mpr (Int.natCast_nonneg _)) hids
    have hline : s.uidLine ++ 10 :: linesText 10 after =
        ascii "Uid:" ++ ([9] ++ (itos s.uid ++ (s.ids ++ 10 :: linesText 10 after))) := by
      rw [uidLine, List.append_assoc, List.append_assoc]
      rfl
    rw [hline]
    exact search_number (by decide +kernel) (by decide +kernel) hdigits _
  have hother : ∀ l ∈ s.nameLine :: s.early, ¬ ascii "UID:" <+: toUppercase l := by
    refine List.forall_mem_cons.mpr ⟨?_, fun l hl => (s.early_other l hl).uid⟩
    intro hprefix
    exact absurd (List.cons_prefix_cons.mp hprefix).1 (by decide +kernel)
  have hsingle : ∀ l ∈ s.nameLine :: s.early, 10 ∉ l := by
    intro l hl h10
    exact (s.single_line l (by simp only [lines, List.mem_append]; tauto) 10 h10).1 rfl
  have hlines : s.lines = s.nameLine :: s.early ++ s.uidLine ::
      (s.middle ++ (s.hwm.map hwmLine).toList ++ s.late) := by
    simp only [lines, List.append_assoc, List.cons_append]
  rw [searchStatus, cstr_text, text, hlines]
  exact searchLine_found (by decide +kernel) hsingle hother (hnumber _)

/-- The peak of memory is found, if there is one. -/
theorem searchStatus_mem : searchStatus regMem s.text = s.hwm.map fun m =>
    [] :: ((ascii "VmHWM:").map ([·]) ++ [m.1, itos m.2, [32], ascii "kB"]) := by
  have hnumber (m : Bytes × ℕ) (hm : m ∈ s.hwm) (after : List Bytes) :
      search regMem (hwmLine m ++ 10 :: linesText 10 after) =
        some ((ascii "VmHWM:").map ([·]) ++ [m.1, itos m.2, [32], ascii "kB"]) := by
    have hunit : search [.star fun a => decide (a ≠ 10)]
        (ascii "kB" ++ 10 :: linesText 10 after) = some [ascii "kB"] :=
      search_last (.inr rfl) (Nat.zero_le _) (by decide +kernel) (by simp)
    have hblank : search [.plus isBlank, .star fun a => decide (a ≠ 10)]
        ([32] ++ (ascii "kB" ++ 10 :: linesText 10 after)) = some [[32], ascii "kB"] := by
      rw [search_plus (by decide +kernel) (by decide +kernel) (by simp [ascii, isBlank]) nofun, hunit]
      rfl
    have hdigits : search [.plus isDigit, .plus isBlank, .star fun a => decide (a ≠ 10)]
        (itos m.2 ++ ([32] ++ (ascii "kB" ++ 10 :: linesText 10 after))) =
          some [itos m.2, [32], ascii "kB"] := by
      have hall := isDigit_itos_iff.mpr (Int.natCast_nonneg m.2)
      rw [search_plus (itos_ne_nil _) hall (by simp [isDigit]) fun b hb t => search_plus_eq_none
        (isBlank_eq_false_of_isDigit (hall b (List.mem_of_mem_tail hb))), hblank]
      rfl
    have hline : hwmLine m ++ 10 :: linesText 10 after = ascii "VmHWM:" ++
        (m.1 ++ (itos m.2 ++ ([32] ++ (ascii "kB" ++ 10 :: linesText 10 after)))) := by
      rw [hwmLine, List.append_assoc, List.append_assoc, List.append_assoc]
      rfl
    rw [hline]
    exact search_number (s.gap_blank m hm).1 (s.gap_blank m hm).2 hdigits _
  have hother : ∀ l ∈ s.nameLine :: s.early ++ s.uidLine :: s.middle,
      ¬ ascii "VMHWM:" <+: toUppercase l := by
    refine List.forall_mem_append.mpr ⟨List.forall_mem_cons.mpr ⟨?_, ?_⟩,
      List.forall_mem_cons.mpr ⟨?_, ?_⟩⟩
    · exact fun hprefix => absurd (List.cons_prefix_cons.mp hprefix).1 (by decide +kernel)
    · exact fun l hl => (s.early_other l hl).hwm
    · exact fun hprefix => absurd (List.cons_prefix_cons.mp hprefix).1 (by decide +kernel)
    · exact fun l hl => (s.middle_other l hl).hwm
  rw [searchStatus, cstr_text, text]
  cases hhwm : s.hwm with
  | none =>
    refine searchLine_not_found (by decide +kernel) (by decide +kernel)
      (fun l hl h10 => (s.single_line l hl 10 h10).1 rfl) ?_
    rw [lines, hhwm]
    simp only [Option.map_none, Option.toList_none, List.append_nil]
    exact List.forall_mem_append.mpr ⟨hother, fun l hl => (s.late_other l hl).hwm⟩
  | some m =>
    have hlines : s.lines = (s.nameLine :: s.early ++ s.uidLine :: s.middle) ++
        hwmLine m :: s.late := by
      rw [lines, hhwm, Option.map_some, Option.toList_some, List.append_assoc]
      rfl
    have hsingle : ∀ l ∈ s.nameLine :: s.early ++ s.uidLine :: s.middle, 10 ∉ l := by
      intro l hl h10
      exact (s.single_line l (hlines ▸ List.mem_append_left _ hl) 10 h10).1 rfl
    rw [hlines]
    exact searchLine_found (by decide +kernel) hsingle hother (hnumber m hhwm s.late)

end Status

/-- `Util::atoi` reads a number back as far as an `int` holds it. -/
theorem utilAtoi_itos {n : ℕ} (h : n < 2 ^ 63) : utilAtoi (itos n) = min (n : ℤ) maxInt := by
  have hatoll : atoll (itos n) = n := strtol_itos (by omega) (by omega)
  rw [utilAtoi, hatoll, maxInt]
  split
  · omega
  · rw [Int.bmod_eq_of_le (by omega) (by omega)]
    omega

/-- The memory of a process counts if it belongs to the prisoner. -/
theorem memoryOf_text (s : Status) {prisoner : ℤ} (hprisoner : prisoner < maxInt) :
    memoryOf prisoner s.text =
      if (s.uid : ℤ) = prisoner then ((s.hwm.elim 0 fun m => m.2 * 1024 : ℕ) : ℤ) else 0 := by
  have huid : utilAtoi (itos s.uid) = prisoner ↔ (s.uid : ℤ) = prisoner := by
    rw [utilAtoi_itos (s.uid_lt.trans (by decide +kernel))]
    omega
  have hmem (m : Bytes × ℕ) (hm : m ∈ s.hwm) : (atoll (itos m.2) * 1024).bmod (2 ^ 64) =
      ((m.2 * 1024 : ℕ) : ℤ) := by
    have hlt := s.hwm_lt m hm
    have hatoll : atoll (itos m.2) = m.2 := strtol_itos (by omega) (by omega)
    rw [hatoll, Nat.cast_mul]
    exact Int.bmod_eq_of_le (by omega) (by omega)
  rw [memoryOf, s.searchStatus_uid, s.searchStatus_mem]
  refine if_congr huid ?_ rfl
  cases hhwm : s.hwm with
  | none => rfl
  | some m => exact hmem m hhwm

/-! ## The processes that are shown -/

/-- A name that does not begin like a number. -/
def IsNoNumber (name : Bytes) : Prop :=
  ∃ b more, name = b :: more ∧ isSpace b = false ∧ isDigit b = false ∧ b ≠ 45 ∧ b ≠ 43 ∧ b ≠ 0

theorem IsNoNumber.atoll_eq {name : Bytes} (h : IsNoNumber name) : atoll name = 0 := by
  obtain ⟨b, more, rfl, hspace, hdigit, h45, h43, -⟩ := h
  have hdrop : (b :: more).dropWhile isSpace = b :: more :=
    List.dropWhile_cons_of_neg (by rw [hspace]; exact Bool.false_ne_true)
  have hdigits : (b :: more).takeWhile isDigit = [] :=
    List.takeWhile_cons_of_neg (by rw [hdigit]; exact Bool.false_ne_true)
  rw [atoll, strtol, hdrop]
  split
  · exact absurd (List.cons.inj ‹_›).1 h45
  · exact absurd (List.cons.inj ‹_›).1 h43
  · rw [hdigits]
    rfl

/-- What `/proc` shows: a process, which may have ended when its status is read, or something else. -/
inductive Shown where
  | process (pid : ℕ) (status : Option Status)
  | other (entry : ProcEntry)

namespace Shown

/-- The entry. -/
def entry : Shown → ProcEntry
  | process pid _ => ⟨itos pid, true⟩
  | other entry => entry

/-- The process, if it is one of the prisoner's. -/
def pidOf (prisoner : ℤ) : Shown → Option ℤ
  | process pid (some s) => if (s.uid : ℤ) = prisoner then some pid else none
  | process _ none => none
  | other _ => none

/-- The peak of memory in bytes, if it is a process of the prisoner. -/
def memory (prisoner : ℤ) : Shown → ℕ
  | process _ (some s) =>
      if (s.uid : ℤ) = prisoner then s.hwm.elim 0 fun m => m.2 * 1024 else 0
  | process _ none => 0
  | other _ => 0

end Shown

/-- `/proc` shows these entries. Nothing is read of a process that has ended. -/
structure Shows (proc : Procfs) (shown : List Shown) : Prop where
  entries : proc.entries = some (shown.map Shown.entry)
  process : ∀ (pid : ℕ) status, .process pid status ∈ shown → 0 < pid ∧ pid < 2 ^ 31 ∧
    proc.status (itos pid) = .ok (status.elim [] Status.text)
  other : ∀ entry, .other entry ∈ shown → IsNoNumber entry.name

section Shows

variable {proc : Procfs} {shown : List Shown} {prisoner : ℤ}

/-- The user of a process that has not ended. -/
theorem uidIn_text (s : Status) : uidIn s.text = min (s.uid : ℤ) maxInt := by
  rw [uidIn, s.searchStatus_uid, ← utilAtoi_itos (s.uid_lt.trans (by decide +kernel))]
  rfl

/-- Nothing is found of a process that has ended. -/
theorem searchStatus_nil : searchStatus regUid [] = none :=
  searchLine_nil (search_ignoringCase_eq_none (by decide +kernel))

theorem uidIn_nil : uidIn [] = -1 := by
  rw [uidIn, searchStatus_nil]

theorem memoryOf_nil (prisoner : ℤ) : memoryOf prisoner [] = 0 := by
  rw [memoryOf, searchStatus_nil]

/-- The number that an entry of a process stands for. -/
theorem atoi_cstr_itos {pid : ℕ} (h : pid < 2 ^ 31) : atoi (cstr (itos pid)) = pid := by
  have hzero : (0 : UInt8) ∉ itos pid := by
    intro h0
    cases isDigit_itos_iff.mpr (Int.natCast_nonneg pid) 0 h0
  rw [cstr_eq_self hzero, atoi_itos (by omega) (by omega)]

/-- Another entry stands for no process. -/
theorem IsNoNumber.atoi_cstr {name : Bytes} (h : IsNoNumber name) : atoi (cstr name) = 0 := by
  have hcstr : IsNoNumber (cstr name) := by
    obtain ⟨b, more, rfl, hspace, hdigit, h45, h43, h0⟩ := h
    exact ⟨b, cstr more, List.takeWhile_cons_of_pos (decide_eq_true h0), hspace, hdigit, h45, h43, h0⟩
  have hstrtol : strtol (cstr name) = 0 := hcstr.atoll_eq
  rw [atoi, hstrtol]
  rfl

/-- The processes of the prisoner are found among some that are shown. -/
theorem prisonerProcessesIn_of_shows (h : Shows proc shown) (hlow : 0 ≤ prisoner)
    (hhigh : prisoner < maxInt) {part : List Shown} (hpart : part ⊆ shown) :
    prisonerProcessesIn proc prisoner (part.map Shown.entry) =
      .ok (part.filterMap (Shown.pidOf prisoner)) := by
  induction part with
  | nil => rfl
  | cons x part ih =>
    have ih := ih fun y hy => hpart (List.mem_cons_of_mem x hy)
    have hx := hpart List.mem_cons_self
    rw [List.map_cons, prisonerProcessesIn, ih, List.filterMap_cons]
    cases x with
    | other entry =>
      have hatoi := (h.other entry hx).atoi_cstr
      rw [if_neg fun h => (hatoi ▸ h.2).false]
      rfl
    | process pid status =>
      obtain ⟨hpos, hlt, hstatus⟩ := h.process pid status hx
      have hatoi := atoi_cstr_itos hlt
      rw [if_pos ⟨rfl, hatoi ▸ Int.natCast_pos.mpr hpos⟩]
      dsimp only [Shown.entry]
      rw [hatoi, getProcessUID, hstatus]
      cases status with
      | none =>
        have hne : uidIn [] ≠ prisoner := by
          rw [uidIn_nil]
          omega
        exact congrArg Except.ok (if_neg hne)
      | some s =>
        have huid : uidIn s.text = prisoner ↔ (s.uid : ℤ) = prisoner := by
          rw [uidIn_text]
          omega
        refine congrArg Except.ok ((if_congr huid rfl rfl).trans ?_)
        rw [Shown.pidOf]
        split <;> rfl

/-- `getPrisonerProcesses` finds the processes of the prisoner and no others, whatever names they give
themselves. -/
theorem getPrisonerProcesses_of_shows (h : Shows proc shown) (hlow : 0 ≤ prisoner)
    (hhigh : prisoner < maxInt) :
    getPrisonerProcesses proc prisoner = .ok (shown.filterMap (Shown.pidOf prisoner)) := by
  rw [getPrisonerProcesses, h.entries]
  exact prisonerProcessesIn_of_shows h hlow hhigh (List.Subset.refl shown)

end Shows

/-- A process that calls itself a user. -/
def disguised : Status where
  name := ascii "Uid:\t0"
  uid := 12345
  ids := ascii "\t12345\t12345\t12345"
  hwm := some (ascii "\t    ", 2048)
  early := [ascii "Umask:\t0022"]
  middle := []
  late := [ascii "Threads:\t1"]
  name_line := by decide +kernel
  uid_lt := by decide +kernel
  ids_line := by decide +kernel
  ids_head := by decide +kernel
  gap_blank := fun m hm => by
    obtain rfl := Option.some.inj hm
    decide +kernel
  hwm_lt := fun m hm => by
    obtain rfl := Option.some.inj hm
    decide +kernel
  early_other := List.forall_mem_singleton.mpr ⟨by decide +kernel, by decide +kernel, by decide +kernel⟩
  middle_other := nofun
  late_other := List.forall_mem_singleton.mpr ⟨by decide +kernel, by decide +kernel, by decide +kernel⟩

/-- What `/proc` shows: the process, one that ends, and a directory that is no process. -/
def someShown : List Shown :=
  [.other ⟨ascii "self", true⟩, .process 4711 (some disguised), .process 4712 none]

/-- That `/proc`. -/
def someProc : Procfs where
  entries := some (someShown.map Shown.entry)
  status name := .ok (if name = itos 4711 then disguised.text else [])

theorem shows_someProc : Shows someProc someShown where
  entries := rfl
  process pid status hmem := by
    rcases List.mem_cons.mp hmem with h | hmem
    · cases h
    rcases List.mem_cons.mp hmem with h | hmem
    · obtain ⟨rfl, rfl⟩ := Shown.process.inj h
      exact ⟨by decide +kernel, by decide +kernel, rfl⟩
    · obtain ⟨rfl, rfl⟩ := Shown.process.inj (List.mem_singleton.mp hmem)
      exact ⟨by decide +kernel, by decide +kernel, rfl⟩
  other entry hmem := by
    rcases List.mem_cons.mp hmem with h | hmem
    · obtain rfl := Shown.other.inj h
      exact ⟨115, ascii "elf", rfl, by decide +kernel, by decide +kernel, by decide +kernel, by decide +kernel, by decide +kernel⟩
    · simp at hmem

theorem getPrisonerProcesses_of_shows_disguised :
    getPrisonerProcesses someProc 12345 = .ok [4711] :=
  getPrisonerProcesses_of_shows shows_someProc (by decide +kernel) (by decide +kernel)

section Shows

variable {proc : Procfs} {shown : List Shown} {prisoner : ℤ}

/-- The entries of processes are those that are read for their memory. -/
theorem itos_utilAtoi_entry (h : Shows proc shown) :
    (∀ entry, .other entry ∈ shown → itos (utilAtoi entry.name) ≠ entry.name) ∧
      ∀ (pid : ℕ) status, .process pid status ∈ shown →
        itos (utilAtoi (itos pid)) = itos pid := by
  constructor
  · intro entry hentry heq
    obtain ⟨b, more, hname, -, hdigit, -⟩ := h.other entry hentry
    have hzero : utilAtoi entry.name = 0 := by
      rw [utilAtoi, (h.other entry hentry).atoll_eq]
      rfl
    rw [hzero, hname] at heq
    rw [← (List.cons.inj heq).1] at hdigit
    cases hdigit
  · intro pid status hprocess
    have hlt := (h.process pid status hprocess).2.1
    rw [utilAtoi_itos (hlt.trans (by decide +kernel)), maxInt, min_eq_left (by omega)]

/-- The sum of the memory of the prisoner's processes is found, if a `long long` holds it. -/
theorem getMemoryUsedBasedOnProc_of_shows (h : Shows proc shown)
    (hhigh : prisoner < maxInt) (hsum : (shown.map (Shown.memory prisoner)).sum < 2 ^ 63) :
    getMemoryUsedBasedOnProc proc prisoner =
      .ok ((shown.map (Shown.memory prisoner)).sum : ℕ) := by
  obtain ⟨hother, hprocess⟩ := itos_utilAtoi_entry h
  have hgo : ∀ part, part <:+ shown → memoryUsedIn proc prisoner (part.map Shown.entry) =
      .ok ((part.map (Shown.memory prisoner)).sum : ℕ) := by
    intro part
    induction part with
    | nil => exact fun _ => rfl
    | cons x part ih =>
      intro hsuffix
      have ih := ih ((List.suffix_cons x part).trans hsuffix)
      have hx := hsuffix.subset List.mem_cons_self
      rw [List.map_cons, memoryUsedIn, ih, List.map_cons, List.sum_cons]
      cases x with
      | other entry =>
        refine (if_pos (hother entry hx)).trans ?_
        rw [Shown.memory, Nat.zero_add]
      | process pid status =>
        have hmemory : memoryOf prisoner (status.elim [] Status.text) =
            (Shown.memory prisoner (.process pid status) : ℕ) := by
          cases status with
          | none => exact memoryOf_nil prisoner
          | some s =>
            rw [Shown.memory, Nat.cast_ite]
            exact memoryOf_text s hhigh
        have hle : ((Shown.process pid status :: part).map (Shown.memory prisoner)).sum ≤
            (shown.map (Shown.memory prisoner)).sum :=
          (hsuffix.sublist.map _).sum_le_sum (fun _ _ => Nat.zero_le _)
        rw [List.map_cons, List.sum_cons] at hle
        refine (if_neg (not_not.mpr (hprocess pid status hx))).trans ?_
        dsimp only [Shown.entry]
        rw [(h.process pid status hx).2.2]
        refine congrArg Except.ok ?_
        rw [hmemory, ← Nat.cast_add]
        exact Int.bmod_eq_of_le (by omega) (by omega)
  rw [getMemoryUsedBasedOnProc, h.entries]
  exact hgo shown List.suffix_rfl

end Shows

end VplJail.Task
