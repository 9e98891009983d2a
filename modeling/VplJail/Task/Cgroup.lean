import VplJail.Task.ProcStatus
import VplJail.Util.Extraction

/-!
# Memory of a control group

The files of a prisoner's control group, and `isOutOfMemory`, which asks them and `/proc`. The two
versions of control groups keep their numbers in different files that are read in different ways, and
yet the decision is the same (`isOutOfMemory_of_shown`).
-/

namespace VplJail.Task

open PosixRegex Util

/-! ## The readers -/

/-- `in >> value` for a `long long`; `none` if there is no number, or none that it can hold. -/
def extractNumber (s : Bytes) : Option (ℤ × Bytes) :=
  let s := s.dropWhile isSpace
  let negative := s.head? == some 45
  let ds := if negative || s.head? == some 43 then s.tail else s
  let digits := ds.takeWhile isDigit
  let value : ℤ := if negative then -digitsValue digits else digitsValue digits
  if digits = [] ∨ clamp64 value ≠ value then none else some (value, ds.dropWhile isDigit)

/-- The loop `while (iss >> key >> value)`. Every pair takes some bytes off the stream. -/
def pairsLoop : ℕ → Bytes → List (Bytes × ℤ)
  | 0, _ => []
  | fuel + 1, s =>
      match extract s with
      | none => []
      | some (key, s) =>
          match extractNumber s with
          | none => []
          | some (value, s) => (key, value) :: pairsLoop fuel s

/-- The pairs of a stream. -/
def pairs (s : Bytes) : List (Bytes × ℤ) :=
  pairsLoop s.length s

/-- What `(^|\n)key ([0-9]+)(\n|$)` has between its ends. -/
def regKey (key : Bytes) : List (Item UInt8) :=
  (key ++ [32]).map (fun a => .one (· == a)) ++ [.plus isDigit]

/-- `regFound` of the expression for a key: the group behind the key. -/
def regFound (key input : Bytes) : Bytes :=
  match searchFramed 10 (regKey key) true (cstr input) with
  | some found => (found.dropLast.getLast?).getD []
  | none => []

/-- `joinPath`: two paths with one slash between them. -/
def joinPath (a b : Bytes) : Bytes :=
  if a = [] then b
  else if b = [] then a
  else if a.getLast? = some 47 then a ++ b
  else a ++ ascii "/" ++ b

/-- The mounted hierarchy: its version and base, the failures of `mkdir`, and what `Util::readFile` makes
of a file. -/
structure Hierarchy where
  isV2 : Bool
  base : Bytes
  mkdirErrno : Bytes → Option ℕ
  readFile : Bytes → Except Thrown Bytes

namespace Hierarchy

variable (h : Hierarchy)

/-- `cgroupDirectory` of the group of a name. -/
def cgroupDirectory (name : Bytes) : Bytes :=
  if h.isV2 then joinPath h.base name else joinPath h.base name ++ ascii "/"

/-- The constructor `Cgroup`, with `createV2Cgroup`. -/
def cgroup (name : Bytes) : Except Thrown Bytes :=
  if h.isV2 then
    match h.mkdirErrno (h.cgroupDirectory name) with
    | none => pure (h.cgroupDirectory name)
    | some errno =>
        -- EEXIST
        if errno = 17 then pure (h.cgroupDirectory name)
        else throw (.std "Unable to create cgroup")
  else pure (h.cgroupDirectory name)

/-- `v1Path` in version 1, and `v2Path` in version 2. -/
def path (directory v1 v2 : Bytes) : Bytes :=
  if h.isV2 then joinPath directory v2 else directory ++ v1

/-- The fields that `getMemoryOOMControl` sets. -/
structure OOMControl where
  oomKillDisable : ℤ
  underOom : ℤ
  oomKill : ℤ
deriving DecidableEq, Repr

/-- `getMemoryOOMControl`: what the kernel says about a lack of memory. -/
def getMemoryOOMControl (directory : Bytes) : Except Thrown OOMControl :=
  let path := h.path directory (ascii "memory/memory.oom_control") (ascii "memory.events")
  if h.isV2 then
    match h.readFile path with
    | .error _ => pure ⟨0, 0, 0⟩
    | .ok events =>
        let kills := (pairs events).filter fun p => p.1 = ascii "oom_kill"
        pure ⟨0, 0, (kills.getLast?).elim 0 fun p => p.2.bmod (2 ^ 32)⟩
  else do
    let stat ← h.readFile path
    pure ⟨utilAtoi (regFound (ascii "oom_kill_disable") stat),
      utilAtoi (regFound (ascii "under_oom") stat), utilAtoi (regFound (ascii "oom_kill") stat)⟩

/-- `getMemoryUsageInBytes`: the memory of the control group. -/
def getMemoryUsageInBytes (directory : Bytes) : Except Thrown ℤ := do
  let usage ← h.readFile
    (h.path directory (ascii "memory/memory.usage_in_bytes") (ascii "memory.current"))
  pure (atoll usage)

/-- `getMemoryUsedBasedOnCgroup`: the memory of the task, if it has a control group. -/
def getMemoryUsedBasedOnCgroup (name : Bytes) : ℤ :=
  match h.cgroup name >>= h.getMemoryUsageInBytes with
  | .ok usage => usage
  | .error _ => -1

/-- Whether the group of a prisoner tells of a lack of memory. -/
def tellsOOM (name : Bytes) : Bool :=
  match h.cgroup name >>= h.getMemoryOOMControl with
  | .ok control => decide (control.underOom ≠ 0 ∨ 0 < control.oomKill)
  | .error _ => false

end Hierarchy

/-- `isOutOfMemory`. `useCGroup` is what `isCGroupAvailable` returns. -/
def isOutOfMemory (h : Hierarchy) (proc : Procfs) (useCGroup : Bool) (prisoner maxmemory : ℤ) :
    Except Thrown Bool :=
  let name := ascii "p" ++ itos prisoner
  if maxmemory ≤ 0 then pure false
  else if useCGroup ∧ h.tellsOOM name then pure true
  else do
    let usedMemory ← getMemoryUsedBasedOnProc proc prisoner
    let usedMemory := if useCGroup then max (h.getMemoryUsedBasedOnCgroup name) usedMemory
      else usedMemory
    pure (decide (maxmemory < usedMemory))

/-! ## Files of keys -/

/-- The text of a file with a key and a number in each line. -/
def flatText (entries : List (Bytes × ℕ)) : Bytes :=
  linesText 10 (entries.map fun e => e.1 ++ 32 :: itos e.2)

/-- Keys that are words, each with one number. -/
structure IsFlat (entries : List (Bytes × ℕ)) : Prop where
  word : ∀ e ∈ entries, IsWord e.1 ∧ (0 : UInt8) ∉ e.1
  lt : ∀ e ∈ entries, e.2 < 2 ^ 63
  nodup : (entries.map Prod.fst).Nodup

section Flat

variable {entries : List (Bytes × ℕ)} {key : Bytes} {n : ℕ} {rest : Bytes}

/-- A number is read behind a blank. -/
theorem extractNumber_itos (hn : n < 2 ^ 63) (hrest : ∀ b ∈ rest.head?, isDigit b = false) :
    extractNumber (32 :: (itos n ++ rest)) = some ((n : ℤ), rest) := by
  have hitos : itos n = decimal n := if_neg (not_lt.mpr (Int.natCast_nonneg n))
  have hdigits : ∀ b ∈ decimal n, isDigit b = true := fun b => isDigit_of_mem_decimal
  obtain ⟨d, ds, hd, hdigit, h45, h43, hspace⟩ := exists_decimal_eq_cons n
  have hdrop : (32 :: (decimal n ++ rest)).dropWhile isSpace = decimal n ++ rest := by
    rw [List.dropWhile_cons_of_pos rfl, hd, List.cons_append,
      List.dropWhile_cons_of_neg (by rw [hspace]; exact Bool.false_ne_true)]
  have hhead : (decimal n ++ rest).head? = some d := by rw [hd]; rfl
  have hrun : (decimal n ++ rest).takeWhile isDigit = decimal n := takeWhile_run hdigits hrest
  have hleft : (decimal n ++ rest).dropWhile isDigit = rest := by
    rw [List.dropWhile_append_of_pos hdigits]
    cases rest with
    | nil => rfl
    | cons b rest =>
      rw [List.dropWhile_cons_of_neg (by rw [hrest b rfl]; exact Bool.false_ne_true)]
  have h45 : (some d == some (45 : UInt8)) = false := by simpa using h45
  have h43 : (some d == some (43 : UInt8)) = false := by simpa using h43
  have hne : decimal n ≠ [] := hd ▸ List.cons_ne_nil d ds
  have hclamp : clamp64 (n : ℤ) = n := by
    rw [clamp64]
    omega
  rw [hitos, extractNumber]
  simp only [hdrop, hhead, h45, h43, Bool.or_false, Bool.false_eq_true, if_false, hrun, hleft,
    digitsValue_decimal, hclamp, hne, ne_eq, not_true, or_false]

/-- The loop reads the file back. -/
theorem pairsLoop_flatText (h : ∀ e ∈ entries, IsWord e.1 ∧ e.2 < 2 ^ 63) {fuel : ℕ}
    (hfuel : entries.length ≤ fuel) :
    pairsLoop fuel (flatText entries) = entries.map fun e => (e.1, (e.2 : ℤ)) := by
  have hskip (fuel : ℕ) (s : Bytes) : pairsLoop fuel (10 :: s) = pairsLoop fuel s := by
    cases fuel with
    | zero => rfl
    | succ fuel => rw [pairsLoop, pairsLoop, extract_cons_of_isSpace rfl]
  induction entries generalizing fuel with
  | nil => cases fuel <;> rfl
  | cons e entries ih =>
    obtain ⟨⟨hword, hlt⟩, h⟩ := List.forall_mem_cons.mp h
    obtain ⟨fuel, rfl⟩ := Nat.exists_eq_add_one_of_ne_zero (Nat.ne_of_gt
      ((Nat.succ_pos _).trans_le hfuel))
    have htext : flatText (e :: entries) =
        e.1 ++ (32 :: (itos e.2 ++ (10 :: flatText entries))) := by
      rw [flatText, linesText, List.map_cons, List.flatMap_cons, List.append_assoc,
        List.append_assoc, List.cons_append]
      rfl
    have hextract : extract (e.1 ++ (32 :: (itos e.2 ++ (10 :: flatText entries)))) = some (e.1, _) :=
      extract_append hword fun b hb => by rw [← Option.some.inj hb]; rfl
    have hnumber : extractNumber (32 :: (itos e.2 ++ (10 :: flatText entries))) =
        some ((e.2 : ℤ), 10 :: flatText entries) :=
      extractNumber_itos hlt fun b hb => by rw [← Option.some.inj hb]; rfl
    rw [htext, pairsLoop, hextract]
    dsimp only
    rw [hnumber]
    dsimp only
    rw [hskip, ih h (Nat.le_of_succ_le_succ hfuel), List.map_cons]

/-- The pairs of the file are read. -/
theorem pairs_flatText (h : IsFlat entries) :
    pairs (flatText entries) = entries.map fun e => (e.1, (e.2 : ℤ)) := by
  refine pairsLoop_flatText (fun e he => ⟨(h.word e he).1, h.lt e he⟩) ?_
  have hlength := List.length_le_sum_of_one_le
    ((entries.map fun e => e.1 ++ 32 :: itos e.2).map fun line => (line ++ [10]).length) fun n hn => by
      obtain ⟨line, -, rfl⟩ := List.mem_map.mp hn
      rw [List.length_append]
      exact Nat.le_add_left _ _
  rwa [List.length_map, List.length_map, ← List.length_flatMap] at hlength

/-- What the expression for a key matches: the key, a blank and a number. -/
theorem accepts_regKey_iff {ms : List Bytes} : List.Forall₂ Item.Accepts (regKey key) ms ↔
    ∃ ds, ms = (key ++ [32]).map ([·]) ++ [ds] ∧ ds ≠ [] ∧ ∀ b ∈ ds, isDigit b = true := by
  rw [regKey, accepts_append_iff]
  constructor
  · rintro ⟨front, back, rfl, hfront, hback⟩
    obtain ⟨ds, more, hds, hmore, rfl⟩ := List.forall₂_cons_left_iff.mp hback
    obtain rfl := List.forall₂_nil_left_iff.mp hmore
    exact ⟨ds, by rw [accepts_literal_iff.mp hfront], List.length_pos_iff.mp hds.2.1, hds.1⟩
  · rintro ⟨ds, rfl, hne, hds⟩
    exact ⟨_, [ds], rfl, accepts_literal_iff.mpr rfl, .cons (Item.accepts_plus hds hne) .nil⟩

theorem flatten_regKey (key ds : Bytes) :
    ((key ++ [32]).map ([·]) ++ [ds]).flatten = key ++ 32 :: ds := by
  rw [List.flatten_append, List.flatten_singleton, ← List.flatMap_def, List.flatMap_singleton',
    List.append_assoc]
  rfl

/-- The line of an entry is the one for its key. -/
theorem regKey_line_iff {e : Bytes × ℕ} (hkey : IsWord key) (hword : IsWord e.1) {ms : List Bytes} :
    List.Forall₂ Item.Accepts (regKey key) ms ∧ ms.flatten = e.1 ++ 32 :: itos e.2 ↔
      key = e.1 ∧ ms = (key ++ [32]).map ([·]) ++ [itos e.2] := by
  have hspace {w : Bytes} (hw : IsWord w) : (32 : UInt8) ∉ w := fun h => by
    cases hw.isSpace_eq 32 h
  rw [accepts_regKey_iff]
  constructor
  · rintro ⟨⟨ds, rfl, -, -⟩, hflatten⟩
    rw [flatten_regKey] at hflatten
    obtain ⟨hkeys, hds⟩ := (append_cons_inj (hspace hkey) (hspace hword)).mp hflatten
    exact ⟨hkeys, by rw [hds]⟩
  · rintro ⟨rfl, rfl⟩
    exact ⟨⟨_, rfl, itos_ne_nil _, isDigit_itos_iff.mpr (Int.natCast_nonneg _)⟩,
      flatten_regKey _ _⟩

/-- The number of a key is found. -/
theorem regFound_flatText (h : IsFlat entries) (hkey : IsWord key) :
    regFound key (flatText entries) = (entries.lookup key).elim [] fun n => itos n := by
  have hdigit (n : ℕ) : ∀ b ∈ itos n, isDigit b = true := isDigit_itos_iff.mpr (Int.natCast_nonneg n)
  -- no line has an end of line or a NUL
  have hline : ∀ e ∈ entries, (10 : UInt8) ∉ e.1 ++ 32 :: itos e.2 ∧ (0 : UInt8) ∉ e.1 ++ 32 :: itos e.2 := by
    intro e he
    obtain ⟨hword, h0⟩ := h.word e he
    refine ⟨fun h10 => ?_, fun hzero => ?_⟩
    · rcases List.mem_append.mp h10 with h10 | h10
      · cases hword.isSpace_eq 10 h10
      · cases hdigit e.2 10 ((List.mem_cons.mp h10).resolve_left (by decide +kernel))
    · rcases List.mem_append.mp hzero with hzero | hzero
      · exact h0 hzero
      · cases hdigit e.2 0 ((List.mem_cons.mp hzero).resolve_left (by decide +kernel))
  have hcstr : cstr (flatText entries) = flatText entries := by
    refine cstr_eq_self fun hzero => ?_
    obtain ⟨line, hmem, hb⟩ := List.mem_flatMap.mp hzero
    obtain ⟨e, he, rfl⟩ := List.mem_map.mp hmem
    rcases List.mem_append.mp hb with hb | hb
    · exact (hline e he).2 hb
    · cases List.mem_singleton.mp hb
  have his (ms : List Bytes) (hms : List.Forall₂ Item.Accepts (regKey key) ms) :
      (10 : UInt8) ∉ ms.flatten := by
    obtain ⟨ds, rfl, -, hds⟩ := accepts_regKey_iff.mp hms
    rw [flatten_regKey]
    intro h10
    rcases List.mem_append.mp h10 with h10 | h10
    · cases hkey.isSpace_eq 10 h10
    · cases hds 10 ((List.mem_cons.mp h10).resolve_left (by decide +kernel))
  have hempty (ms : List Bytes) (hms : List.Forall₂ Item.Accepts (regKey key) ms) :
      ms.flatten ≠ [] := by
    obtain ⟨ds, rfl, -, -⟩ := accepts_regKey_iff.mp hms
    rw [flatten_regKey]
    exact List.append_ne_nil_of_right_ne_nil _ (List.cons_ne_nil _ _)
  have hlines (part : List (Bytes × ℕ)) (hpart : part ⊆ entries) :
      ∀ l ∈ part.map fun e => e.1 ++ 32 :: itos e.2, 10 ∉ l ∧ l ≠ [] := by
    intro l hl
    obtain ⟨e, he, rfl⟩ := List.mem_map.mp hl
    exact ⟨(hline e (hpart he)).1, List.append_ne_nil_of_right_ne_nil _ (List.cons_ne_nil _ _)⟩
  have hother (part : List (Bytes × ℕ)) (hpart : part ⊆ entries) (hkeys : ∀ e ∈ part, (key != e.1) = true) :
      ∀ l ∈ part.map fun e => e.1 ++ 32 :: itos e.2, ∀ ms,
        List.Forall₂ Item.Accepts (regKey key) ms → ms.flatten ≠ l := by
    intro l hl ms hms hflatten
    obtain ⟨e, he, rfl⟩ := List.mem_map.mp hl
    have hsame := ((regKey_line_iff hkey (h.word e (hpart he)).1).mp ⟨hms, hflatten⟩).1
    exact absurd hsame (by simpa using hkeys e he)
  rw [regFound, hcstr, flatText]
  cases hlookup : entries.lookup key with
  | none =>
    have hkeys := List.lookup_eq_none_iff.mp hlookup
    rw [searchFramed_not_found his hempty (hlines entries (List.Subset.refl _))
      (hother entries (List.Subset.refl _) fun e he => by simpa using hkeys e he)]
    rfl
  | some n =>
    obtain ⟨before, after, rfl, hkeys⟩ := List.lookup_eq_some_iff.mp hlookup
    have hmem : (key, n) ∈ before ++ (key, n) :: after :=
      List.mem_append_right _ List.mem_cons_self
    have hbefore : before ⊆ before ++ (key, n) :: after := List.subset_append_left _ _
    have hself := (regKey_line_iff hkey (h.word _ hmem).1).mpr ⟨rfl, rfl⟩
    have hgroup (front : Bytes) (front' : List Bytes) : (((front :: (front' ++ [itos n] ++ [[10]])).dropLast).getLast?).getD [] = itos n := by
      rw [← List.cons_append, List.dropLast_concat, ← List.cons_append, List.getLast?_concat]
      rfl
    have hfound : ∃ front, searchFramed 10 (regKey key) true (linesText 10
        ((before.map fun e => e.1 ++ 32 :: itos e.2) ++ (key ++ 32 :: itos n) ::
          after.map fun e => e.1 ++ 32 :: itos e.2)) = some (front :: (_ ++ [[10]])) :=
      searchFramed_found his (hlines before hbefore) (hother before hbefore hkeys) (hline _ hmem).1
        (List.append_ne_nil_of_right_ne_nil _ (List.cons_ne_nil _ _)) hself.1 hself.2
        fun ms' hms' hflatten' => ((regKey_line_iff hkey (h.word _ hmem).1).mp ⟨hms', hflatten'⟩).2
    obtain ⟨front, hfound⟩ := hfound
    rw [List.map_append, List.map_cons, hfound]
    exact hgroup front _

end Flat

/-! ## The decision -/

/-- The number of a key, and 0 if the key is not there. -/
def numberOf (entries : List (Bytes × ℕ)) (key : Bytes) : ℕ :=
  (entries.lookup key).getD 0

/-- The files of a prisoner's group: its events, and the memory that it uses. -/
structure ShowsGroup (h : Hierarchy) (name : Bytes) (events : List (Bytes × ℕ)) (usage : ℕ) : Prop where
  created : h.isV2 = true → h.mkdirErrno (h.cgroupDirectory name) = none ∨
    h.mkdirErrno (h.cgroupDirectory name) = some 17
  flat : IsFlat events
  events_read : h.readFile (h.path (h.cgroupDirectory name) (ascii "memory/memory.oom_control")
    (ascii "memory.events")) = .ok (flatText events)
  kill_lt : numberOf events (ascii "oom_kill") < 2 ^ 31
  usage_read : h.readFile (h.path (h.cgroupDirectory name) (ascii "memory/memory.usage_in_bytes")
    (ascii "memory.current")) = .ok (itos usage ++ [10])
  usage_lt : usage < 2 ^ 63

section Decision

variable {h : Hierarchy} {name : Bytes} {events : List (Bytes × ℕ)} {usage : ℕ}

theorem ShowsGroup.cgroup_eq (hshows : ShowsGroup h name events usage) :
    h.cgroup name = .ok (h.cgroupDirectory name) := by
  rw [Hierarchy.cgroup]
  split
  · rename_i hv2
    rcases hshows.created hv2 with hmkdir | hmkdir <;> rw [hmkdir] <;> rfl
  · rfl

theorem ShowsGroup.usage_eq (hshows : ShowsGroup h name events usage) :
    h.getMemoryUsedBasedOnCgroup name = usage := by
  have hatoll : atoll (itos usage ++ [10]) = usage :=
    strtol_itos_append (by omega) (by have := hshows.usage_lt; omega) rfl
  have hread : h.getMemoryUsageInBytes (h.cgroupDirectory name) = .ok (usage : ℤ) := by
    rw [Hierarchy.getMemoryUsageInBytes, hshows.usage_read]
    exact congrArg Except.ok hatoll
  have hbind : (h.cgroup name >>= h.getMemoryUsageInBytes) = .ok (usage : ℤ) := by
    rw [hshows.cgroup_eq]
    exact hread
  rw [Hierarchy.getMemoryUsedBasedOnCgroup, hbind]

/-- A number of a file of version 1, as far as an `int` holds it. -/
theorem utilAtoi_regFound {entries : List (Bytes × ℕ)} {key : Bytes} (hflat : IsFlat entries)
    (hkey : IsWord key) :
    utilAtoi (regFound key (flatText entries)) = min (numberOf entries key : ℤ) maxInt := by
  rw [regFound_flatText hflat hkey, numberOf]
  cases hlookup : entries.lookup key with
  | none => rfl
  | some n =>
    obtain ⟨before, after, rfl, -⟩ := List.lookup_eq_some_iff.mp hlookup
    exact utilAtoi_itos (hflat.lt (key, n) (List.mem_append_right _ List.mem_cons_self))

/-- The last of the pairs with a key is the only one. -/
theorem last_pair_flatText {entries : List (Bytes × ℕ)} (hflat : IsFlat entries) (key : Bytes) :
    (((pairs (flatText entries)).filter fun p => p.1 = key).getLast?).elim 0
      (fun p => p.2.bmod (2 ^ 32)) = (numberOf entries key : ℤ).bmod (2 ^ 32) := by
  have hother {part : List (Bytes × ℕ)} (hpart : ∀ e ∈ part, e.1 ≠ key) :
      (part.map fun e => (e.1, (e.2 : ℤ))).filter (fun p => p.1 = key) = [] := by
    refine List.filter_eq_nil_iff.mpr fun p hp => ?_
    obtain ⟨e, he, rfl⟩ := List.mem_map.mp hp
    simpa using hpart e he
  rw [pairs_flatText hflat, numberOf]
  cases hlookup : entries.lookup key with
  | none =>
    have hkeys := List.lookup_eq_none_iff.mp hlookup
    rw [hother fun e he heq => by simpa [heq] using hkeys e he]
    rfl
  | some n =>
    obtain ⟨before, after, rfl, hkeys⟩ := List.lookup_eq_some_iff.mp hlookup
    have hnodup := hflat.nodup
    rw [List.map_append, List.map_cons] at hnodup
    have hafter : ∀ e ∈ after, e.1 ≠ key := by
      rintro e he rfl
      exact (List.nodup_cons.mp (List.Nodup.of_append_right hnodup)).1 (List.mem_map.mpr ⟨e, he, rfl⟩)
    rw [List.map_append, List.map_cons, List.filter_append, List.filter_cons_of_pos (by simp),
      hother fun e he heq => by simpa [heq] using hkeys e he, hother hafter, List.nil_append,
      List.getLast?_singleton, Option.elim_some, Option.getD_some]

/-- Both versions tell of a lack of memory when a process was killed for it. -/
theorem ShowsGroup.tellsOOM_eq (hshows : ShowsGroup h name events usage) :
    h.tellsOOM name = decide (0 < numberOf events (ascii "oom_kill") ∨
      h.isV2 = false ∧ 0 < numberOf events (ascii "under_oom")) := by
  have hbind : (h.cgroup name >>= h.getMemoryOOMControl) =
      h.getMemoryOOMControl (h.cgroupDirectory name) := by
    rw [hshows.cgroup_eq]
    rfl
  have hkill := hshows.kill_lt
  rw [Hierarchy.tellsOOM, hbind, Hierarchy.getMemoryOOMControl]
  rcases hv2 : h.isV2 with _ | _
  · have hword : IsWord (ascii "under_oom") ∧ IsWord (ascii "oom_kill") :=
      ⟨⟨by decide +kernel, by decide +kernel⟩, ⟨by decide +kernel, by decide +kernel⟩⟩
    have hunder := utilAtoi_regFound hshows.flat hword.1
    have hkills := utilAtoi_regFound hshows.flat hword.2
    rw [if_neg Bool.false_ne_true, hshows.events_read]
    change decide (utilAtoi _ ≠ 0 ∨ 0 < utilAtoi _) = _
    rw [hunder, hkills, decide_eq_decide, maxInt]
    simp only [true_and]
    omega
  · have hkills := last_pair_flatText hshows.flat (ascii "oom_kill")
    rw [Int.bmod_eq_of_le (by omega) (by omega)] at hkills
    rw [if_pos rfl, hshows.events_read]
    change decide ((0 : ℤ) ≠ 0 ∨ 0 < Option.elim _ _ _) = _
    rw [hkills, decide_eq_decide]
    simp only [Bool.true_eq_false, false_and, or_false]
    omega

/-- A prisoner is out of memory when the processes or the group use more than the limit, or the group
tells so. -/
theorem isOutOfMemory_of_shown {proc : Procfs} {shown : List Shown} {prisoner maxmemory : ℤ}
    {useCGroup : Bool} (hproc : Shows proc shown) (hhigh : prisoner < maxInt)
    (hsum : (shown.map (Shown.memory prisoner)).sum < 2 ^ 63)
    (hgroup : useCGroup = true → ShowsGroup h (ascii "p" ++ itos prisoner) events usage) :
    isOutOfMemory h proc useCGroup prisoner maxmemory = .ok (decide (0 < maxmemory ∧
      (maxmemory < (shown.map (Shown.memory prisoner)).sum ∨ useCGroup = true ∧
        (maxmemory < usage ∨ 0 < numberOf events (ascii "oom_kill") ∨
          h.isV2 = false ∧ 0 < numberOf events (ascii "under_oom"))))) := by
  have hused := getMemoryUsedBasedOnProc_of_shows hproc hhigh hsum
  rw [isOutOfMemory, hused]
  dsimp only
  rcases le_or_gt maxmemory 0 with hmax | hmax
  · rw [if_pos hmax]
    exact congrArg Except.ok (decide_eq_false fun h => absurd h.1 (not_lt.mpr hmax)).symm
  rw [if_neg (not_le.mpr hmax)]
  cases useCGroup with
  | false =>
    rw [if_neg fun h => Bool.false_ne_true h.1]
    refine congrArg Except.ok (decide_eq_decide.mpr ?_)
    simp only [Bool.false_eq_true, if_false, false_and, or_false, hmax, true_and]
  | true =>
    rw [(hgroup rfl).tellsOOM_eq, (hgroup rfl).usage_eq]
    split
    · rename_i htells
      have htells := of_decide_eq_true htells.2
      exact congrArg Except.ok (decide_eq_true ⟨hmax, .inr ⟨rfl, .inr htells⟩⟩).symm
    · rename_i htells
      refine congrArg Except.ok (decide_eq_decide.mpr ?_)
      have htells : ¬ (0 < numberOf events (ascii "oom_kill") ∨
          h.isV2 = false ∧ 0 < numberOf events (ascii "under_oom")) := fun h =>
        htells ⟨rfl, decide_eq_true h⟩
      simp only [if_true, lt_max_iff, hmax, true_and, htells, or_false]
      exact or_comm

end Decision

/-- A hierarchy of version 2 whose groups have had no lack of memory. -/
def someHierarchy : Hierarchy where
  isV2 := true
  base := ascii "/sys/fs/cgroup"
  mkdirErrno _ := some 17
  readFile path :=
    .ok (if path = ascii "/sys/fs/cgroup/p12345/memory.events" then
        flatText [(ascii "oom", 1), (ascii "oom_kill", 0)]
      else itos 4096 ++ [10])

theorem showsGroup_someHierarchy : ShowsGroup someHierarchy (ascii "p" ++ itos 12345)
    [(ascii "oom", 1), (ascii "oom_kill", 0)] 4096 where
  created _ := .inr rfl
  flat := {
    word := List.forall_mem_cons.mpr ⟨⟨⟨by decide +kernel, by decide +kernel⟩, by decide +kernel⟩,
      List.forall_mem_singleton.mpr ⟨⟨by decide +kernel, by decide +kernel⟩, by decide +kernel⟩⟩
    lt := by decide +kernel
    nodup := by decide +kernel }
  events_read := congrArg Except.ok (if_pos (by decide +kernel))
  kill_lt := by decide +kernel
  usage_read := congrArg Except.ok (if_neg (by decide +kernel))
  usage_lt := by decide +kernel

theorem isOutOfMemory_of_shown_disguised :
    isOutOfMemory someHierarchy someProc true 12345 1048576 = .ok true :=
  isOutOfMemory_of_shown shows_someProc (by decide +kernel) (by decide +kernel)
    fun _ => showsGroup_someHierarchy

end VplJail.Task
