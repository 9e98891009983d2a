import VplJail.Task.Home

/-!
# Scripts

`processMonitor::writeFile` converts the ends of line of a file whose name in the home is that of a
script, and `Util::writeFile` makes a file executable whose full path is that of one. The two tests
have different bounds.
-/

namespace VplJail.Util

/-! ## `removeCRs` in place -/

/-- The scan for a line feed, from `i` on. -/
def noNL (text : Bytes) : ℕ → ℕ → Bool
  | 0, _ => true
  | n + 1, i => if text.getD i 0 = 10 then false else noNL text n (i + 1)

/-- The loop that replaces each carriage return, from `i` on. -/
def replaceCRs : ℕ → ℕ → Bytes → Bytes
  | 0, _, text => text
  | n + 1, i, text => replaceCRs n (i + 1) (if text.getD i 0 = 13 then text.set i 10 else text)

/-- The loop that moves the other bytes to the front, from `i` on, with the text and `lenClean`. -/
def compactCRs : ℕ → ℕ → ℕ → Bytes → Bytes × ℕ
  | 0, _, lenClean, text => (text, lenClean)
  | n + 1, i, lenClean, text =>
      if text.getD i 0 ≠ 13 then
        compactCRs n (i + 1) (lenClean + 1) (text.set lenClean (text.getD i 0))
      else compactCRs n (i + 1) lenClean text

/-- `Util::removeCRs`: carriage returns become ends of lines, or they go. -/
def removeCRsInPlace (text : Bytes) : Bytes :=
  let len := text.length
  if noNL text len 0 then replaceCRs len 0 text
  else
    let (text, lenClean) := compactCRs len 0 0 text
    text.take lenClean

/-- The byte behind some others. -/
theorem getD_append_cons (front : Bytes) (b : UInt8) (rest : Bytes) :
    (front ++ b :: rest).getD front.length 0 = b := by
  simp

theorem noNL_append (front rest : Bytes) :
    noNL (front ++ rest) rest.length front.length = !rest.contains 10 := by
  induction rest generalizing front with
  | nil => rfl
  | cons b rest ih =>
    rw [List.length_cons, noNL, getD_append_cons]
    have ih := ih (front ++ [b])
    rw [List.length_append, List.append_assoc] at ih
    split
    · rename_i hb
      rw [hb, List.contains_cons]
      rfl
    · rename_i hb
      rw [List.contains_cons, beq_eq_false_iff_ne.mpr (Ne.symm hb), Bool.false_or]
      exact ih

theorem replaceCRs_append (front rest : Bytes) : replaceCRs rest.length front.length (front ++ rest) =
    front ++ rest.map fun b => if b = 13 then 10 else b := by
  induction rest generalizing front with
  | nil => rfl
  | cons b rest ih =>
    have ih := ih (front ++ [if b = 13 then 10 else b])
    rw [List.length_append, List.append_assoc, List.append_assoc] at ih
    rw [List.length_cons, replaceCRs, getD_append_cons, List.map_cons]
    have hset : (if b = 13 then (front ++ b :: rest).set front.length 10 else front ++ b :: rest) =
        front ++ (if b = 13 then 10 else b) :: rest := by
      split
      · rw [List.set_append_right _ _ (Nat.le_refl _), Nat.sub_self, List.set_cons_zero]
      · rfl
    rw [hset]
    exact ih

/-- The bytes kept so far are at the front. Those between them and `i` do not matter. -/
theorem take_compactCRs (kept junk rest : Bytes) {text : Bytes} {lenClean : ℕ}
    (h : compactCRs rest.length (kept ++ junk).length kept.length (kept ++ junk ++ rest) =
      (text, lenClean)) :
    text.take lenClean = kept ++ rest.filter (· != 13) := by
  induction rest generalizing kept junk with
  | nil =>
    obtain ⟨rfl, rfl⟩ := Prod.mk.inj h
    simp
  | cons b rest ih =>
    rw [List.length_cons, compactCRs, getD_append_cons] at h
    split at h
    · rename_i hb
      have hset : (kept ++ junk ++ b :: rest).set kept.length b =
          kept ++ [b] ++ (junk ++ [b]).tail ++ rest := by
        rw [List.append_assoc, List.set_append_right _ _ (Nat.le_refl _), Nat.sub_self]
        cases junk <;> simp
      have hlen : (kept ++ junk).length + 1 = (kept ++ [b] ++ (junk ++ [b]).tail).length := by
        simp only [List.length_append, List.length_tail, List.length_singleton]
        omega
      have hkept : kept.length + 1 = (kept ++ [b]).length := by
        rw [List.length_append, List.length_singleton]
      rw [hset, hlen, hkept] at h
      have hfilter : (b :: rest).filter (· != 13) = b :: rest.filter (· != 13) :=
        List.filter_cons_of_pos (bne_iff_ne.mpr hb)
      rw [ih (kept ++ [b]) _ h, hfilter, List.append_assoc]
      rfl
    · rename_i hb
      rw [not_not] at hb
      have hlen : (kept ++ junk).length + 1 = (kept ++ (junk ++ [b])).length := by
        simp only [List.length_append, List.length_singleton]
        omega
      have happend : kept ++ junk ++ b :: rest = kept ++ (junk ++ [b]) ++ rest := by simp
      rw [hlen, happend] at h
      rw [ih kept _ h, hb]
      rfl

/-- The loops do what `removeCRs` says. -/
theorem removeCRsInPlace_eq (text : Bytes) : removeCRsInPlace text = removeCRs text := by
  have hscan : noNL text text.length 0 = !text.contains 10 := noNL_append [] text
  have hreplace : replaceCRs text.length 0 text = text.map fun b => if b = 13 then 10 else b :=
    replaceCRs_append [] text
  have hcompact : (compactCRs text.length 0 0 text).1.take (compactCRs text.length 0 0 text).2 =
      text.filter (· != 13) := take_compactCRs [] [] text rfl
  unfold removeCRsInPlace removeCRs
  simp only [hscan, hreplace, hcompact]
  cases text.contains 10 <;> rfl

/-- A text that was converted has no carriage return. -/
theorem cr_notMem_removeCRs (text : Bytes) : (13 : UInt8) ∉ removeCRs text := by
  unfold removeCRs
  split
  · rw [List.mem_filter]
    exact fun h => Bool.false_ne_true h.2
  · rw [List.mem_map]
    rintro ⟨b, -, hb⟩
    split at hb
    · cases hb
    · rename_i hne
      exact hne hb

/-- Without a carriage return there is nothing to convert. -/
theorem removeCRs_of_notMem {text : Bytes} (h : (13 : UInt8) ∉ text) : removeCRs text = text := by
  have hne : ∀ b ∈ text, b ≠ 13 := fun b hb h13 => h (h13 ▸ hb)
  unfold removeCRs
  split
  · exact List.filter_eq_self.mpr fun b hb => bne_iff_ne.mpr (hne b hb)
  · exact (List.map_congr_left fun b hb => if_neg (hne b hb)).trans (List.map_id text)

end VplJail.Util

namespace VplJail.Task

open Util

/-! ## What is stored -/

/-- A file as `Util::writeFile` leaves it: its bytes, and its permissions. -/
structure Stored where
  content : Bytes
  mode : ℕ

/-- `0700`, the permissions of a script. -/
def scriptMode : ℕ := 0o700

/-- The test of `Util::writeFile`, on the full path. -/
def isScriptPath (path : Bytes) : Bool :=
  decide (4 ≤ path.length) && path.drop (path.length - 3) == ascii ".sh"

/-- `Util::writeFile`, without I/O errors. -/
def storePath (path data : Bytes) : Except Thrown Stored :=
  if !correctPath path then throw (.http internalServerErrorCode "I can't write file")
  else pure ⟨data, if isScriptPath path then scriptMode else 0o600⟩

/-- `processMonitor::writeFile`, without I/O errors. -/
def store (homePath name data : Bytes) : Except Thrown Stored :=
  if isScript name then storePath (fullName homePath name) (removeCRsInPlace data)
  else storePath (fullName homePath name) data

/-- What a home holds after a file is written is what is stored. -/
theorem store_of_writeFile {homePath name data : Bytes} {home home' : Home}
    (h : writeFile homePath name data home = (home', .ok ())) :
    ∃ stored, store homePath name data = .ok stored ∧ home'.files[name]? = some stored.content := by
  have hcorrect := (writeFile_eq_ok h).1
  unfold writeFile at h
  split at h
  · cases h
  · obtain rfl := (Prod.mk.inj h).1
    rw [Std.TreeMap.getElem?_insert_self]
    unfold store storePath
    rw [hcorrect, removeCRsInPlace_eq]
    split
    · exact ⟨_, rfl, rfl⟩
    · exact ⟨_, rfl, rfl⟩

/-- What is promised of a file: a script has its ends of line converted, once and for all, and any
other file is the data. -/
def IsConverted (data : Bytes) (stored : Stored) : Prop :=
  (stored.mode = scriptMode → (13 : UInt8) ∉ stored.content ∧
    stored.content = (if (10 : UInt8) ∈ data then data.filter (· != 13)
      else data.map fun b => if b = 13 then 10 else b) ∧
    removeCRsInPlace stored.content = stored.content) ∧
  (stored.mode ≠ scriptMode → stored.content = data)

/-- A suffix without the separator is one of the last piece. -/
theorem suffix_append_cons {suffix : Bytes} {b : UInt8} (h : b ∉ suffix) (front last : Bytes) :
    suffix <:+ front ++ b :: last ↔ suffix <:+ last := by
  constructor
  · intro hsuffix
    rcases List.suffix_or_suffix_of_suffix hsuffix (List.suffix_append front (b :: last)) with hs | hs
    · rcases List.suffix_cons_iff.mp hs with rfl | hs
      · exact absurd List.mem_cons_self h
      · exact hs
    · exact absurd (hs.subset List.mem_cons_self) h
  · intro hsuffix
    exact (hsuffix.trans (List.suffix_cons b last)).trans (List.suffix_append front (b :: last))

/-- The last three bytes. -/
theorem drop_eq_sh (name : Bytes) :
    (name.drop (name.length - 3) == ascii ".sh") = true ↔ ascii ".sh" <:+ name := by
  have hlen : (ascii ".sh").length = 3 := by decide +kernel
  rw [beq_iff_eq, List.suffix_iff_eq_drop, hlen]
  exact eq_comm

/-- The test on the full path finds all the names of scripts. -/
theorem isScriptPath_fullName (homePath name : Bytes) :
    isScriptPath (fullName homePath name) = true ↔ ascii ".sh" <:+ name := by
  have hslash : ascii "/" = [47] := by decide +kernel
  have hsh : (47 : UInt8) ∉ ascii ".sh" := by decide +kernel
  have hlen : (ascii ".sh").length = 3 := by decide +kernel
  have hfull : fullName homePath name = homePath ++ 47 :: name := by
    rw [fullName, hslash, List.append_assoc, List.singleton_append]
  rw [isScriptPath, Bool.and_eq_true, decide_eq_true_eq, hfull]
  constructor
  · rintro ⟨hfour, hdrop⟩
    exact (suffix_append_cons hsh _ _).mp ((drop_eq_sh _).mp hdrop)
  · intro hname
    have hthree := hname.length_le
    have hfour : 4 ≤ (homePath ++ 47 :: name).length := by
      rw [List.length_append, List.length_cons]
      omega
    exact ⟨hfour, (drop_eq_sh _).mpr ((suffix_append_cons hsh _ _).mpr hname)⟩

/-- The test on the name misses the shortest ones. -/
theorem isScript_iff (name : Bytes) :
    isScript name = true ↔ 4 < name.length ∧ ascii ".sh" <:+ name := by
  rw [isScript, Bool.and_eq_true, decide_eq_true_eq]
  exact and_congr_right fun _ => drop_eq_sh name

theorem store_eq_ok {homePath name data : Bytes} {stored : Stored}
    (h : store homePath name data = .ok stored) :
    stored.content = (if isScript name then removeCRs data else data) ∧
      (stored.mode = scriptMode ↔ ascii ".sh" <:+ name) := by
  have hpath {content : Bytes} (h : storePath (fullName homePath name) content = .ok stored) :
      stored.content = content ∧ (stored.mode = scriptMode ↔ ascii ".sh" <:+ name) := by
    unfold storePath at h
    split at h
    · cases h
    · obtain rfl := Except.ok.inj h
      refine ⟨rfl, ?_⟩
      rw [← isScriptPath_fullName homePath name]
      cases isScriptPath (fullName homePath name) with
      | true => exact iff_of_true rfl rfl
      | false => exact iff_of_false (show ¬ 0o600 = scriptMode by decide) Bool.false_ne_true
  unfold store at h
  rw [removeCRsInPlace_eq] at h
  split at h
  · rename_i hscript
    rw [if_pos hscript]
    exact hpath h
  · rename_i hscript
    rw [if_neg hscript]
    exact hpath h

/-- Any file keeps the promise, but for scripts of the shortest names with a carriage return. -/
theorem isConverted_iff {homePath name data : Bytes} {stored : Stored}
    (h : store homePath name data = .ok stored) :
    IsConverted data stored ↔
      (ascii ".sh" <:+ name → name.length ≤ 4 → (13 : UInt8) ∉ data) := by
  obtain ⟨hcontent, hmode⟩ := store_eq_ok h
  constructor
  · rintro ⟨hscript, -⟩ hsh hlen
    have hno : ¬ isScript name = true := fun hyes => absurd ((isScript_iff name).mp hyes).1 (by omega)
    rw [if_neg hno] at hcontent
    exact hcontent ▸ (hscript (hmode.mpr hsh)).1
  · intro hshort
    constructor
    · intro hexec
      have hsh := hmode.mp hexec
      -- the content is converted, or there is nothing to convert
      have hconverted : stored.content = removeCRs data := by
        by_cases hlong : 4 < name.length
        · rw [hcontent, if_pos ((isScript_iff name).mpr ⟨hlong, hsh⟩)]
        · have hno : ¬ isScript name = true := fun hyes => hlong ((isScript_iff name).mp hyes).1
          rw [hcontent, if_neg hno, removeCRs_of_notMem (hshort hsh (Nat.not_lt.mp hlong))]
      have hcr : (13 : UInt8) ∉ stored.content := hconverted ▸ cr_notMem_removeCRs data
      refine ⟨hcr, ?_, ?_⟩
      · rw [hconverted]
        simp only [removeCRs, List.contains_iff_mem]
      · rw [removeCRsInPlace_eq]
        exact removeCRs_of_notMem hcr
    · intro hplain
      have hno : ¬ isScript name = true := fun hyes =>
        hplain (hmode.mpr ((isScript_iff name).mp hyes).2)
      rw [hcontent, if_neg hno]

/-- The script `run.sh`, with the ends of line of Windows. -/
theorem isConverted_iff_run : IsConverted [108, 115, 13, 10] ⟨[108, 115, 10], scriptMode⟩ :=
  (@isConverted_iff (ascii "/jail/home/p10001") (ascii "run.sh") _ _ rfl).mpr
    fun _ => by decide +kernel

/-- The script `a.sh` is stored as it comes, and made executable. -/
theorem not_isConverted_short :
    store (ascii "/jail/home/p10001") (ascii "a.sh") [108, 115, 13, 10] =
        .ok ⟨[108, 115, 13, 10], scriptMode⟩ ∧
      ¬ IsConverted [108, 115, 13, 10] ⟨[108, 115, 13, 10], scriptMode⟩ :=
  ⟨rfl, fun h => (h.1 rfl).1 (by decide)⟩

end VplJail.Task
