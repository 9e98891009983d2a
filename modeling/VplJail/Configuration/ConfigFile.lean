import VplJail.Common.Entries
import VplJail.Common.PosixRegex
import VplJail.Util.Text

/-!
# Configuration files

`configurationFile.cpp`: a configuration is a map that is written as one `KEY=value` line for each
entry and read back line by line, where the last line for a key counts. A file is its bytes; that it
can be opened and written is up to the callers.
-/

namespace VplJail.ConfigurationFile

open Util

/-- `ConfigData`, iterated in the order of its keys. -/
abbrev ConfigData := Std.TreeMap Bytes Bytes compare

/-! ## Lines -/

/-- The lines that `getline` delivers: the text between line feeds, and what follows the last one if
that is not empty. -/
def lines : Bytes → List Bytes
  | [] => []
  | b :: bs =>
      if b = 10 then [] :: lines bs
      else match lines bs with
        | [] => [[b]]
        | l :: ls => (b :: l) :: ls

theorem lines_append_newline {l : Bytes} (h : (10 : UInt8) ∉ l) (rest : Bytes) :
    lines (l ++ 10 :: rest) = l :: lines rest := by
  induction l with
  | nil => rfl
  | cons b l ih =>
      rw [List.mem_cons, not_or] at h
      rw [List.cons_append, lines, if_neg (Ne.symm h.1), ih h.2]

/-- Text up to a line feed is divided on its own. -/
theorem lines_append (s rest : Bytes) :
    lines (s ++ 10 :: rest) = lines (s ++ [10]) ++ lines rest := by
  induction s with
  | nil => rfl
  | cons b s ih =>
      rw [List.cons_append, List.cons_append, lines, lines, ih]
      split
      · rfl
      · cases hl : lines (s ++ [10]) with
        | nil =>
            have : ∀ s : Bytes, lines (s ++ [10]) ≠ [] := by
              intro s
              cases s with
              | nil => exact List.cons_ne_nil _ _
              | cons b s =>
                  rw [List.cons_append, lines]
                  split
                  · exact List.cons_ne_nil _ _
                  · split <;> exact List.cons_ne_nil _ _
            exact absurd hl (this s)
        | cons l ls => rfl

/-- A line has no line feed. -/
theorem newline_notMem_of_mem_lines {s l : Bytes} (h : l ∈ lines s) : (10 : UInt8) ∉ l := by
  induction s generalizing l with
  | nil => exact absurd h List.not_mem_nil
  | cons b s ih =>
      rw [lines] at h
      split at h
      · rcases List.mem_cons.mp h with rfl | h
        · exact List.not_mem_nil
        · exact ih h
      · rename_i hb
        split at h
        · rw [List.mem_singleton.mp h, List.mem_singleton]
          exact Ne.symm hb
        · rename_i l' ls hls
          rcases List.mem_cons.mp h with rfl | h
          · rw [List.mem_cons, not_or]
            exact ⟨Ne.symm hb, ih (hls ▸ List.mem_cons_self)⟩
          · exact ih (hls ▸ List.mem_cons_of_mem _ h)

/-! ## One line -/

/-- `[ \t]`: a blank around a parameter. -/
def isBlank (b : UInt8) : Bool :=
  b == 32 || b == 9

/-- `reg`, which is `^[ \t]*([^ \t]+)[ \t]*=[ \t]*([^#]*)` -/
def paramPattern : List (PosixRegex.Item UInt8) :=
  [.star isBlank, .plus (!isBlank ·), .star isBlank, .one (· == 61), .star isBlank, .star (· != 35)]

/-- `comment`, which is `^[ \t]*(#.*)?$` -/
def isComment (line : Bytes) : Bool :=
  PosixRegex.matchesWhole [.star isBlank] line ||
    PosixRegex.matchesWhole [.star isBlank, .one (· == 35), .star fun _ => true] line

/-- What a line is: nothing, a parameter with its value, or an error. -/
inductive ConfigLine
  | comment
  | param (key value : Bytes)
  | incorrect
deriving DecidableEq, Repr

/-- The two searches of `parseConfigLine`, which see the line up to its first NUL. -/
def readLine (line : Bytes) : ConfigLine :=
  if isComment (cstr line) then .comment
  else match PosixRegex.search paramPattern (cstr line) with
    | some [_, param, _, _, _, value] => .param (toUppercase param) (trimAndRemoveQuotes value)
    | _ => .incorrect

/-- `parseConfigLine`; `none` is the exception. -/
def parseConfigLine (data : ConfigData) (line : Bytes) : Option ConfigData :=
  match readLine line with
  | .comment => some data
  | .param key value => some (data.insert key value)
  | .incorrect => none

/-! ## The file -/

/-- The parameters of `defaultData` that are not set take its values. -/
def addDefaults (data defaultData : ConfigData) : ConfigData :=
  defaultData.toList.foldl
    (fun data p => if toUppercase p.1 ∈ data then data else data.insert (toUppercase p.1) p.2) data

/-- `readConfiguration` of a file with the given content. -/
def readConfiguration (content : Bytes) (defaultData : ConfigData) : Option ConfigData :=
  ((lines content).foldlM parseConfigLine ∅).map (addDefaults · defaultData)

/-- The line of an entry. -/
def entryLine (p : Bytes × Bytes) : Bytes :=
  p.1 ++ ascii "=" ++ p.2

/-- The lines of `writeConfiguration` for some entries. -/
def entryLines (entries : List (Bytes × Bytes)) : Bytes :=
  entries.flatMap fun p => entryLine p ++ [10]

/-- The content that `writeConfiguration` writes. -/
def serialize (data : ConfigData) : Bytes :=
  ascii "#Autogenerated Config file of VPL " ++ [10] ++ entryLines data.toList ++
    ascii "#End Config file of VPL " ++ [10]

/-! ## Reading as a list of assignments -/

/-- The parameters of some lines in their order, unless a line is incorrect. -/
def assignments : List Bytes → Option (List (Bytes × Bytes))
  | [] => some []
  | line :: ls =>
      match readLine line with
      | .comment => assignments ls
      | .param key value => (assignments ls).map ((key, value) :: ·)
      | .incorrect => none

/-- The last value that some assignments give to a key. -/
def lastValue (ps : List (Bytes × Bytes)) (key : Bytes) : Option Bytes :=
  (ps.reverse.find? fun p => p.1 == key).map Prod.snd

/-- Reading lines makes their assignments. -/
theorem foldlM_parseConfigLine (ls : List Bytes) (data : ConfigData) :
    ls.foldlM parseConfigLine data =
      (assignments ls).map (List.foldl (fun d p => d.insert p.1 p.2) data) := by
  induction ls generalizing data with
  | nil => rfl
  | cons line ls ih =>
      rw [List.foldlM_cons, parseConfigLine, assignments]
      cases readLine line with
      | comment => exact ih data
      | incorrect => rfl
      | param key value =>
          rw [Option.map_map]
          exact ih (data.insert key value)

theorem assignments_append (ls ls' : List Bytes) :
    assignments (ls ++ ls') =
      (assignments ls).bind fun ps => (assignments ls').map (ps ++ ·) := by
  induction ls with
  | nil => simp [assignments]
  | cons line ls ih =>
      rw [List.cons_append, assignments, assignments]
      cases readLine line with
      | comment => exact ih
      | incorrect => rfl
      | param key value =>
          simp only
          rw [ih]
          cases assignments ls <;> simp [Function.comp_def]

theorem lastValue_append (ps ps' : List (Bytes × Bytes)) (key : Bytes) :
    lastValue (ps ++ ps') key = (lastValue ps' key).or (lastValue ps key) := by
  rw [lastValue, lastValue, lastValue, List.reverse_append, List.find?_append]
  cases ps'.reverse.find? fun p => p.1 == key <;> rfl

/-- The last assignment counts. -/
theorem getElem?_foldl_insert (ps : List (Bytes × Bytes)) (data : ConfigData) (key : Bytes) :
    (ps.foldl (fun d p => d.insert p.1 p.2) data)[key]? = (lastValue ps key).or data[key]? := by
  induction ps generalizing data with
  | nil => rfl
  | cons p ps ih =>
      rw [List.foldl_cons, ih, ← List.singleton_append, lastValue_append, Option.or_assoc]
      congr 1
      rw [Std.TreeMap.getElem?_insert, lastValue]
      by_cases h : p.1 = key
      · simp [h]
      · simp [h]

/-- A file without defaults is read as its assignments. -/
theorem readConfiguration_empty (content : Bytes) :
    readConfiguration content ∅ =
      (assignments (lines content)).map (List.foldl (fun d p => d.insert p.1 p.2) ∅) := by
  rw [readConfiguration, foldlM_parseConfigLine, Option.map_map]
  rfl

/-! ## Lines that are written -/

/-- The keys that are read from lines: upper case, not empty, without blanks, NUL and line feed, and
not taken for a comment. -/
structure IsKey (key : Bytes) : Prop where
  ne_nil : key ≠ []
  upper : toUppercase key = key
  head : key.head? ≠ some 35
  noBlank : ∀ b ∈ key, isBlank b = false
  noNul : (0 : UInt8) ∉ key
  noNewline : (10 : UInt8) ∉ key

/-- The keys that the server writes: capital letters and `_`. -/
def isWord (key : Bytes) : Bool :=
  !key.isEmpty && key.all fun b => b == 95 || (decide (65 ≤ b) && decide (b ≤ 90))

theorem mem_of_isWord {key : Bytes} (h : isWord key = true) {b : UInt8} (hb : b ∈ key) :
    b = 95 ∨ 65 ≤ b ∧ b ≤ 90 := by
  rw [isWord, Bool.and_eq_true, List.all_eq_true] at h
  have hall := h.2 b hb
  rwa [Bool.or_eq_true, beq_iff_eq, Bool.and_eq_true, decide_eq_true_eq, decide_eq_true_eq] at hall

/-- A word is read as it is written. -/
theorem isKey_of_isWord {key : Bytes} (h : isWord key = true) : IsKey key where
  ne_nil := by
    rintro rfl
    cases h
  upper := by
    refine (List.map_congr_left fun b hb => ?_).trans (List.map_id key)
    refine if_neg fun hsmall => ?_
    rcases mem_of_isWord h hb with rfl | hcapital
    · exact absurd hsmall.1 (by decide)
    · exact absurd (UInt8.le_trans hsmall.1 hcapital.2) (by decide)
  head := fun hhead => absurd (mem_of_isWord h (List.mem_of_mem_head? hhead)) (by decide)
  noBlank := fun b hb => by
    rw [isBlank, Bool.or_eq_false_iff, beq_eq_false_iff_ne, beq_eq_false_iff_ne]
    constructor
    · rintro rfl
      exact absurd (mem_of_isWord h hb) (by decide)
    · rintro rfl
      exact absurd (mem_of_isWord h hb) (by decide)
  noNul := fun hb => absurd (mem_of_isWord h hb) (by decide)
  noNewline := fun hb => absurd (mem_of_isWord h hb) (by decide)

/-- The values that are read from lines: without `#`, NUL and line feed. -/
structure IsValue (value : Bytes) : Prop where
  noHash : (35 : UInt8) ∉ value
  noNul : (0 : UInt8) ∉ value
  noNewline : (10 : UInt8) ∉ value

/-- An entry that is written as one line. -/
def IsEntry (p : Bytes × Bytes) : Prop :=
  IsKey p.1 ∧ IsValue p.2

/-- A configuration whose entries are written as one line each. -/
def Storable (data : ConfigData) : Prop :=
  ∀ key value, data[key]? = some value → IsEntry (key, value)

/-- A line whose first byte is neither a blank nor `#` is no comment. -/
theorem isComment_eq_false {b : UInt8} {s : Bytes} (hblank : isBlank b = false) (hb : b ≠ 35) :
    isComment (b :: s) = false := by
  rw [isComment, Bool.or_eq_false_iff, ← Bool.not_eq_true, ← Bool.not_eq_true,
    PosixRegex.matchesWhole_iff, PosixRegex.matchesWhole_iff]
  have hseg {seg rest : Bytes} (hseg : ∀ c ∈ seg, isBlank c = true)
      (h : b :: s = seg ++ rest) : seg = [] := by
    cases seg with
    | nil => rfl
    | cons c seg =>
        obtain rfl := (List.cons.inj h).1
        exact absurd (hseg b List.mem_cons_self) (by simp [hblank])
  constructor
  · rintro ⟨m, hm, h⟩
    cases hm with
    | @cons _ seg _ m hacc hm =>
        cases hm
        rw [List.flatten_cons] at h
        obtain rfl := hseg hacc.1 h
        cases h
  · rintro ⟨m, hm, h⟩
    cases hm with
    | @cons _ seg _ m hacc hm =>
        rw [List.flatten_cons] at h
        obtain rfl := hseg hacc.1 h
        cases hm with
        | @cons _ seg _ m hacc hm =>
            obtain ⟨c, rfl⟩ := List.length_eq_one_iff.mp (le_antisymm (hacc.2.2 1 rfl) hacc.2.1)
            obtain rfl := (List.cons.inj h).1
            exact hb (by simpa [PosixRegex.Item.one] using hacc.1)

/-- A line that starts with blanks and `#` is a comment. -/
theorem isComment_of_hash {blanks rest : Bytes} (h : ∀ b ∈ blanks, isBlank b = true) :
    isComment (blanks ++ 35 :: rest) = true := by
  rw [isComment, Bool.or_eq_true, PosixRegex.matchesWhole_iff, PosixRegex.matchesWhole_iff]
  refine .inr ⟨[blanks, [35], rest], .cons ⟨h, by simp [PosixRegex.Item.star], ?_⟩
    (.cons ⟨?_, ?_, ?_⟩ (.cons ⟨?_, ?_, ?_⟩ .nil)), by simp⟩ <;>
    simp [PosixRegex.Item.star, PosixRegex.Item.one]

/-- The segments that a line is divided into. -/
theorem search_param_cases {line : Bytes} {m : List Bytes}
    (h : PosixRegex.search paramPattern line = some m) :
    ∃ b1 key b2 eq b3 value, m = [b1, key, b2, eq, b3, value] ∧
      (∃ rest, line = b1 ++ key ++ rest) ∧ (∀ b ∈ b1, isBlank b = true) ∧ key ≠ [] ∧
      (∀ b ∈ key, isBlank b = false) ∧ (35 : UInt8) ∉ value ∧ (∀ b ∈ value, b ∈ line) := by
  obtain ⟨hm, rest, hline⟩ := PosixRegex.accepts_of_search h
  rw [paramPattern] at hm
  cases hm with | @cons _ b1 _ m h1 hm =>
  cases hm with | @cons _ key _ m hkey hm =>
  cases hm with | @cons _ b2 _ m _ hm =>
  cases hm with | @cons _ eq _ m _ hm =>
  cases hm with | @cons _ b3 _ m _ hm =>
  cases hm with | @cons _ value _ m hvalue hm =>
  cases hm
  refine ⟨b1, key, b2, eq, b3, value, rfl, ⟨b2 ++ eq ++ b3 ++ value ++ rest, ?_⟩, h1.1, ?_, ?_,
    fun h => absurd (hvalue.1 35 h) (by decide), ?_⟩
  · simp [hline]
  · rintro rfl
    exact absurd hkey.2.1 (by decide)
  · exact fun b hb => by simpa [PosixRegex.Item.plus] using hkey.1 b hb
  · intro b hb
    simp [hline, hb]

/-- The parameter of a line can be written again as one. -/
theorem isEntry_of_readLine {line key value : Bytes} (hline : (10 : UInt8) ∉ line)
    (h : readLine line = .param key value) : IsEntry (key, value) := by
  rw [readLine] at h
  split at h
  · cases h
  rename_i hcomment
  cases hs : PosixRegex.search paramPattern (cstr line) with
  | none => simp [hs] at h
  | some m =>
      obtain ⟨b1, param, b2, eq, b3, value', rfl, ⟨rest, hrest⟩, hb1, hne, hparam, hhash, hvalue⟩ :=
        search_param_cases hs
      rw [hs] at h
      obtain ⟨rfl, rfl⟩ := ConfigLine.param.inj h
      have hmem : ∀ b ∈ cstr line, b ∈ line := fun b hb => (List.takeWhile_sublist _).mem hb
      have hparam_mem : ∀ b ∈ param, b ∈ cstr line := fun b hb => by simp [hrest, hb]
      refine ⟨⟨?_, ?_, ?_, ?_, ?_, ?_⟩, fun h => hhash (mem_of_mem_trim h),
        fun h => zero_notMem_cstr line (hvalue _ (mem_of_mem_trim h)),
        fun h => hline (hmem _ (hvalue _ (mem_of_mem_trim h)))⟩
      · simpa [toUppercase] using hne
      · exact toUppercase_toUppercase param
      · -- a `#` in front would have made the line a comment
        intro hhead
        cases param with
        | nil => cases hhead
        | cons b param =>
            obtain rfl := toupper_eq_self (by decide) (Option.some.inj hhead)
            rw [hrest, List.append_assoc, List.cons_append, isComment_of_hash hb1] at hcomment
            exact hcomment rfl
      · intro b hb
        obtain ⟨c, hc, rfl⟩ := List.mem_map.mp hb
        rw [isBlank, Bool.or_eq_false_iff, beq_eq_false_iff_ne, beq_eq_false_iff_ne]
        have hblank := hparam c hc
        rw [isBlank, Bool.or_eq_false_iff, beq_eq_false_iff_ne, beq_eq_false_iff_ne] at hblank
        exact ⟨fun h => hblank.1 (toupper_eq_self (by decide) h),
          fun h => hblank.2 (toupper_eq_self (by decide) h)⟩
      · intro hb
        obtain ⟨c, hc, h⟩ := List.mem_map.mp hb
        obtain rfl := toupper_eq_self (by decide) h
        exact zero_notMem_cstr line (hparam_mem 0 hc)
      · intro hb
        obtain ⟨c, hc, h⟩ := List.mem_map.mp hb
        obtain rfl := toupper_eq_self (by decide) h
        exact hline (hmem _ (hparam_mem 10 hc))

/-- A line of a storable key is a parameter. -/
theorem readLine_entryLine {key : Bytes} (hkey : IsKey key) (value : Bytes) :
    ∃ k v, readLine (entryLine (key, value)) = .param k v := by
  have hcstr : cstr (entryLine (key, value)) = key ++ 61 :: cstr value := by
    have hnul : ∀ b ∈ key, (decide (b ≠ 0)) = true := fun b hb =>
      decide_eq_true fun h => hkey.noNul (h ▸ hb)
    rw [entryLine, List.append_assoc, cstr, List.takeWhile_append_of_pos hnul]
    rfl
  have hcomment : isComment (cstr (entryLine (key, value))) = false := by
    rw [hcstr]
    cases key with
    | nil => exact absurd rfl hkey.ne_nil
    | cons b key =>
        exact isComment_eq_false (hkey.noBlank b List.mem_cons_self)
          fun h => hkey.head (by rw [h]; rfl)
  rw [readLine, hcomment, if_neg Bool.false_ne_true]
  cases hs : PosixRegex.search paramPattern (cstr (entryLine (key, value))) with
  | some m =>
      obtain ⟨b1, param, b2, eq, b3, value', rfl, -⟩ := search_param_cases hs
      exact ⟨_, _, rfl⟩
  | none =>
      -- the key, `=` and the value up to a `#` would be a match
      rw [hcstr, PosixRegex.search_eq_none] at hs
      refine absurd ?_ (hs [[], key, [], [61], [], (cstr value).takeWhile (· != 35)]
        ((cstr value).dropWhile (· != 35)) ?_)
      · simp [List.takeWhile_append_dropWhile]
      · have hlen : 1 ≤ key.length := List.length_pos_iff.mpr hkey.ne_nil
        refine .cons ?_ (.cons ?_ (.cons ?_ (.cons ?_ (.cons ?_ (.cons ?_ .nil)))))
        · exact ⟨by simp, by simp [PosixRegex.Item.star], by simp [PosixRegex.Item.star]⟩
        · exact ⟨fun b hb => by simp [PosixRegex.Item.plus, hkey.noBlank b hb], hlen,
            by simp [PosixRegex.Item.plus]⟩
        · exact ⟨by simp, by simp [PosixRegex.Item.star], by simp [PosixRegex.Item.star]⟩
        · exact ⟨by simp [PosixRegex.Item.one], by simp [PosixRegex.Item.one],
            by simp [PosixRegex.Item.one]⟩
        · exact ⟨by simp, by simp [PosixRegex.Item.star], by simp [PosixRegex.Item.star]⟩
        · exact ⟨fun b hb => List.mem_takeWhile_imp hb, by simp [PosixRegex.Item.star],
            by simp [PosixRegex.Item.star]⟩

/-- Lines of storable keys are all parameters. -/
theorem exists_assignments {ps : List (Bytes × Bytes)} (h : ∀ p ∈ ps, IsEntry p) :
    ∃ as, assignments (ps.map entryLine) = some as := by
  induction ps with
  | nil => exact ⟨[], rfl⟩
  | cons p ps ih =>
      obtain ⟨as, has⟩ := ih fun q hq => h q (List.mem_cons_of_mem _ hq)
      obtain ⟨k, v, hp⟩ := readLine_entryLine (h p List.mem_cons_self).1 p.2
      exact ⟨(k, v) :: as, by rw [List.map_cons, assignments, hp, has]; rfl⟩

/-- What is read can be stored. -/
theorem storable_of_assignments {ls : List Bytes} (hls : ∀ l ∈ ls, (10 : UInt8) ∉ l)
    {as : List (Bytes × Bytes)} (h : assignments ls = some as) :
    ∀ p ∈ as, IsEntry p := by
  induction ls generalizing as with
  | nil =>
      obtain rfl := Option.some.inj h
      exact fun p hp => absurd hp List.not_mem_nil
  | cons l ls ih =>
      have ih := @ih fun l hl => hls l (List.mem_cons_of_mem _ hl)
      rw [assignments] at h
      cases hr : readLine l with
      | comment =>
          rw [hr] at h
          exact ih h
      | incorrect => simp [hr] at h
      | param key value =>
          rw [hr] at h
          obtain ⟨as, has, rfl⟩ := Option.map_eq_some_iff.mp h
          exact List.forall_mem_cons.mpr
            ⟨isEntry_of_readLine (hls l List.mem_cons_self) hr, ih has⟩

theorem Storable.insert {data : ConfigData} (h : Storable data) {key value : Bytes}
    (hp : IsEntry (key, value)) : Storable (data.insert key value) := by
  intro k v hk
  rw [Std.TreeMap.getElem?_insert] at hk
  split at hk
  · rename_i heq
    obtain rfl := Std.LawfulEqCmp.compare_eq_iff_eq.mp heq
    obtain rfl := Option.some.inj hk
    exact hp
  · exact h k v hk

/-- A configuration that has been read can be stored. -/
theorem storable_readConfiguration {content : Bytes} {data : ConfigData}
    (h : readConfiguration content ∅ = some data) : Storable data := by
  rw [readConfiguration_empty] at h
  obtain ⟨as, has, rfl⟩ := Option.map_eq_some_iff.mp h
  have hall := storable_of_assignments (fun l => newline_notMem_of_mem_lines) has
  have hempty : Storable ∅ := fun k v hk => by simp at hk
  clear has h
  generalize (∅ : ConfigData) = data at hempty ⊢
  induction as generalizing data with
  | nil => exact hempty
  | cons p as ih =>
      obtain ⟨hp, hall⟩ := List.forall_mem_cons.mp hall
      exact ih hall _ (hempty.insert hp)

/-! ## Reading back -/

/-- The lines of some entries without line feeds. -/
theorem lines_entryLines {ps : List (Bytes × Bytes)}
    (h : ∀ p ∈ ps, IsEntry p) (rest : Bytes) :
    lines (entryLines ps ++ rest) = ps.map entryLine ++ lines rest := by
  induction ps with
  | nil => rfl
  | cons p ps ih =>
      obtain ⟨⟨hkey, hvalue⟩, hps⟩ := List.forall_mem_cons.mp h
      have hline : (10 : UInt8) ∉ entryLine p := by
        simp [entryLine, hkey.noNewline, hvalue.noNewline, ascii]
      have ih := ih hps
      rw [entryLines] at ih ⊢
      rw [List.flatMap_cons, List.append_assoc, List.append_assoc, List.singleton_append,
        lines_append_newline hline, ih, List.map_cons, List.cons_append]

/-- The lines of a stored configuration, where the value of one key may be any bytes: the comments
around them count for nothing. -/
theorem assignments_serialize {data : ConfigData} {key value : Bytes} (h : data[key]? = some value)
    (hbefore : ∀ p ∈ entriesBefore data key, IsEntry p)
    (hbehind : ∀ p ∈ entriesBehind data key, IsEntry p) :
    assignments (lines (serialize data)) =
      assignments ((entriesBefore data key).map entryLine ++
        (lines (entryLine (key, value) ++ [10]) ++ (entriesBehind data key).map entryLine)) := by
  have hhead : (10 : UInt8) ∉ ascii "#Autogenerated Config file of VPL " := by decide
  have hfoot : (10 : UInt8) ∉ ascii "#End Config file of VPL " := by decide
  have hlines : lines (serialize data) =
      ascii "#Autogenerated Config file of VPL " ::
        ((entriesBefore data key).map entryLine ++ (lines (entryLine (key, value) ++ [10]) ++
          ((entriesBehind data key).map entryLine ++ [ascii "#End Config file of VPL "]))) := by
    have hsplit : entryLines data.toList = entryLines (entriesBefore data key) ++
        (entryLine (key, value) ++ 10 :: entryLines (entriesBehind data key)) := by
      rw [toList_eq_around h]
      simp [entryLines]
    simp only [serialize, hsplit, List.append_assoc, List.nil_append, List.cons_append]
    rw [lines_append_newline hhead, lines_entryLines hbefore, lines_append,
      lines_entryLines hbehind, lines_append_newline hfoot, lines]
  have hcomment (s : Bytes) (hs : readLine s = .comment) (ls : List Bytes) :
      assignments (s :: ls) = assignments ls := by
    rw [assignments, hs]
  rw [hlines, hcomment _ (by decide +kernel)]
  rw [← List.append_assoc, ← List.append_assoc, assignments_append, hcomment _ (by decide +kernel)]
  rw [assignments]
  rw [List.append_assoc]
  cases assignments ((entriesBefore data key).map entryLine ++
    (lines (entryLine (key, value) ++ [10]) ++ (entriesBehind data key).map entryLine)) <;> simp

end VplJail.ConfigurationFile
