import VplJail.Common.NamedTree
import VplJail.Util.TrustedPath

/-!
# Removal of directories

`removeDir` removes what a prisoner owns beneath a directory, and everything beneath the directories
that the prisoner owns. Removals are of root, and `readdir` lists each entry once.
-/

namespace VplJail.Util

/-! ## Directories -/

/-- The owner of a file, `st_uid` and `st_gid`. -/
structure Owner where
  uid : ℕ
  gid : ℕ
deriving DecidableEq, Repr

/-- What is not a directory: a regular file with its bytes, or a link with its target. -/
inductive File
  | regular (owner : Owner) (content : Bytes)
  | link (owner : Owner) (target : Bytes)
deriving DecidableEq, Repr

/-- A file, a link or a directory with its entries. -/
abbrev Entry := NamedTree Bytes File Owner

/-- The owner that `fstatat` tells of a file, or of a link itself. -/
def File.owner : File → Owner
  | regular owner _ => owner
  | link owner _ => owner

/-- The user or the group of an owner. -/
def Owner.has (o : Owner) (owner : ℕ) : Bool := o.uid == owner || o.gid == owner

/-- An entry belongs to a prisoner. -/
def belongs (owner : ℕ) : File ⊕ Owner → Bool
  | .inl f => f.owner.has owner
  | .inr o => o.has owner

mutual

/-- `removeDirContents`, with what remains of the directory. -/
def removeDirContents (owner : ℕ) (force : Bool) : Entry → Entry × ℕ
  | .leaf f => (.leaf f, 0)
  | .node o entries =>
      let removeAll := force || o.has owner
      let (entries, removed) := removeEntries owner removeAll entries
      (.node o entries, removed)

/-- The loop over the entries. `unlinkat` removes an empty directory, and any file or link. -/
def removeEntries (owner : ℕ) (removeAll : Bool) :
    List (Bytes × Entry) → List (Bytes × Entry) × ℕ
  | [] => ([], 0)
  | (name, child) :: entries =>
      let (rest, removedRest) := removeEntries owner removeAll entries
      match child with
      | .node o _ =>
          -- a directory of the owner is emptied, whoever owns what is in it
          let removeChild := removeAll || o.has owner
          let (child, removed) := removeDirContents owner removeAll child
          if removeChild && child.children.isEmpty then (rest, removed + 1 + removedRest)
          else ((name, child) :: rest, removed + removedRest)
      | .leaf f =>
          let remove := removeAll || f.owner.has owner
          if remove then (rest, 1 + removedRest) else ((name, .leaf f) :: rest, removedRest)

end

/-- The last component of a path. -/
def lastComponent (dir : Bytes) : Bytes :=
  (dir.reverse.takeWhile (· ≠ 47)).reverse

/-- `removeDir`, given what the system finds at `dir`, with what is there afterwards. No directory is
found by an empty name, and none is removed by the names `.` and `..`. -/
def removeDir (dir : Bytes) (found : Option Entry) (owner : ℕ) (force : Bool) : Option Entry × ℕ :=
  if dir = ascii "/" then (found, 0)
  else
    let parent := getDirectory dir
    let name := if parent.length > 0 then dir.drop (parent.length + 1) else dir
    if name = [] then (found, 0)
    else
      match found with
      | some (.node o cs) =>
          let removeAll := force || o.has owner
          let (directory, nunlinks) := removeDirContents owner removeAll (.node o cs)
          if removeAll && directory.children.isEmpty && lastComponent dir != ascii "." &&
              lastComponent dir != ascii ".." then
            (none, nunlinks + 1)
          else (some directory, nunlinks)
      | found => (found, 0)

/-! ## What is removed -/

open NamedTree

/-- The entries that a call removes, with those below them. -/
def removes (owner : ℕ) (force : Bool) (l : File ⊕ Owner) : Bool := force || belongs owner l

theorem pruneOf_removes_force (owner : ℕ) (cs : List (Bytes × Entry)) :
    pruneOf (removes owner true) cs = [] := by
  induction cs with
  | nil => rfl
  | cons head cs ih =>
    obtain ⟨name, c⟩ := head
    rw [pruneOf, prune_eq_none_iff.mpr rfl]
    exact ih

mutual

/-- The loop removes what is pruned, and counts it. -/
theorem removeEntries_eq (owner : ℕ) (removeAll : Bool) : (cs : List (Bytes × Entry)) →
    (removeEntries owner removeAll cs).1 = pruneOf (removes owner removeAll) cs ∧
      (removeEntries owner removeAll cs).2 + (pathsOf (pruneOf (removes owner removeAll) cs)).length =
        (pathsOf cs).length
  | [] => ⟨rfl, rfl⟩
  | (name, .leaf f) :: cs => by
    obtain ⟨hrest, hcount⟩ := removeEntries_eq owner removeAll cs
    have hlabel : removes owner removeAll (.inl f) = (removeAll || f.owner.has owner) := rfl
    simp only [removeEntries, pruneOf, prune, hlabel, hrest]
    cases removeAll || f.owner.has owner with
    | true =>
      refine ⟨rfl, ?_⟩
      simp only [pathsOf, paths, List.length_append, List.length_map, List.length_singleton, if_true]
      omega
    | false =>
      refine ⟨rfl, ?_⟩
      simp only [pathsOf, paths, List.length_append, List.length_map, List.length_singleton,
        if_neg Bool.false_ne_true]
      omega
  | (name, .node o cs') :: cs => by
    obtain ⟨hrest, hcount⟩ := removeEntries_eq owner removeAll cs
    obtain ⟨hchild, hchildCount⟩ := removeDirContents_eq owner removeAll o cs'
    have hlabel : removes owner removeAll (.inr o) = (removeAll || o.has owner) := rfl
    simp only [removeEntries, pruneOf, prune, hlabel, hrest, hchild, children]
    cases hremove : removeAll || o.has owner with
    | true =>
      -- a directory that is removed is empty by then
      rw [hremove, pruneOf_removes_force] at hchildCount
      rw [pruneOf_removes_force]
      refine ⟨rfl, ?_⟩
      simp only [pathsOf, paths, List.length_append, List.length_map, List.length_cons,
        List.isEmpty_nil, Bool.and_self, if_true, List.length_nil] at hchildCount ⊢
      omega
    | false =>
      obtain ⟨rfl, -⟩ := Bool.or_eq_false_iff.mp hremove
      rw [hremove] at hchildCount
      refine ⟨rfl, ?_⟩
      simp only [pathsOf, paths, List.length_append, List.length_map, List.length_cons,
        Bool.false_and, if_neg Bool.false_ne_true] at hchildCount ⊢
      omega

theorem removeDirContents_eq (owner : ℕ) (force : Bool) (o : Owner) : (cs : List (Bytes × Entry)) →
    (removeDirContents owner force (.node o cs)).1 =
        .node o (pruneOf (removes owner (force || o.has owner)) cs) ∧
      (removeDirContents owner force (.node o cs)).2 +
          (pathsOf (pruneOf (removes owner (force || o.has owner)) cs)).length =
        (pathsOf cs).length
  | cs => by
    obtain ⟨hrest, hcount⟩ := removeEntries_eq owner (force || o.has owner) cs
    rw [removeDirContents]
    exact ⟨congrArg _ hrest, hcount⟩

end

section RemoveDir

variable {dir : Bytes}

/-- The number of files and directories that are found. -/
def entryCount (found : Option Entry) : ℕ :=
  (found.map fun t => t.paths.length).getD 0

/-- What is found stays as it is, or less remains. -/
theorem removeDir_eq_or_lt (dir : Bytes) (found : Option Entry) (owner : ℕ) (force : Bool) :
    (removeDir dir found owner force).1 = found ∨
      entryCount (removeDir dir found owner force).1 < entryCount found := by
  rcases found with _ | (f | ⟨o, cs⟩)
  · left
    simp only [removeDir, ite_self]
  · left
    simp only [removeDir, ite_self]
  obtain ⟨hcontents, -⟩ := removeDirContents_eq owner (force || o.has owner) o cs
  simp only [removeDir, hcontents]
  generalize (if (getDirectory dir).length > 0 then
    dir.drop ((getDirectory dir).length + 1) else dir) = name
  split_ifs
  · exact .inl rfl
  · exact .inl rfl
  · -- the directory itself is removed
    right
    show 0 < (NamedTree.node o cs : Entry).paths.length
    rw [paths]
    exact Nat.succ_pos _
  · rcases pruneOf_eq_or_lt (removes owner (force || o.has owner || o.has owner)) cs with heq | hlt
    · rw [heq]
      exact .inl rfl
    · exact .inr (Nat.succ_lt_succ hlt)

/-- A path that ends in a name. -/
def EndsInName (dir : Bytes) : Prop :=
  lastComponent dir ≠ [] ∧ lastComponent dir ≠ ascii "." ∧ lastComponent dir ≠ ascii ".."

instance : DecidablePred EndsInName := fun dir =>
  inferInstanceAs (Decidable (lastComponent dir ≠ [] ∧ lastComponent dir ≠ ascii "." ∧
    lastComponent dir ≠ ascii ".."))

/-- Such a path has a name in its parent. -/
theorem name_ne_nil (h : lastComponent dir ≠ []) : (if (getDirectory dir).length > 0 then
    dir.drop ((getDirectory dir).length + 1) else dir) ≠ [] := by
  let last := dir.reverse.takeWhile (· ≠ 47)
  let front := dir.reverse.dropWhile (· ≠ 47)
  have hdir : dir = front.reverse ++ last.reverse := by
    rw [← List.reverse_append, List.takeWhile_append_dropWhile, List.reverse_reverse]
  have hparent : (getDirectory dir).length = front.length - 1 := by
    rw [getDirectory, List.length_reverse, List.length_drop]
  split
  · rename_i hpos
    have hlen : (getDirectory dir).length + 1 = front.reverse.length := by
      rw [List.length_reverse]
      omega
    rw [hlen, hdir, List.drop_left]
    exact h
  · rintro rfl
    exact h rfl

/-- The directory is pruned, and the entries that are gone are counted. -/
theorem removeDir_eq (hdir : EndsInName dir) (o : Owner) (cs : List (Bytes × Entry)) (owner : ℕ)
    (force : Bool) :
    (removeDir dir (some (.node o cs)) owner force).1 =
        (NamedTree.node o cs : Entry).prune (removes owner force) ∧
      (removeDir dir (some (.node o cs)) owner force).2 +
          ((((NamedTree.node o cs : Entry).prune (removes owner force)).map paths).getD []).length =
        (NamedTree.node o cs : Entry).paths.length := by
  have hslash : dir ≠ ascii "/" := by
    rintro rfl
    exact hdir.1 (by decide +kernel)
  obtain ⟨hcontents, hcount⟩ := removeDirContents_eq owner (force || o.has owner) o cs
  have hlabel : removes owner force (.inr o) = (force || o.has owner) := rfl
  have hdots : (lastComponent dir != ascii "." && lastComponent dir != ascii "..") = true := by
    rw [Bool.and_eq_true, bne_iff_ne, bne_iff_ne]
    exact hdir.2
  unfold removeDir
  rw [if_neg hslash]
  simp only [if_neg (name_ne_nil hdir.1), hcontents, prune, hlabel, children, Bool.and_assoc, hdots,
    Bool.and_true]
  cases hremove : force || o.has owner with
  | true =>
    rw [hremove, Bool.true_or, pruneOf_removes_force] at hcount
    rw [Bool.true_or, pruneOf_removes_force]
    refine ⟨rfl, ?_⟩
    rw [paths, List.length_cons, ← hcount]
    rfl
  | false =>
    obtain ⟨rfl, hhas⟩ := Bool.or_eq_false_iff.mp hremove
    rw [hremove, hhas, Bool.false_or] at hcount
    rw [hhas]
    refine ⟨rfl, ?_⟩
    simp only [if_neg Bool.false_ne_true, Option.map_some, Option.getD_some, paths, List.length_cons,
      Bool.false_and]
    omega

/-- A directory tree. No directory of it has two entries of one name. -/
structure DirTree where
  owner : Owner
  entries : List (Bytes × Entry)
  distinct : (NamedTree.node owner entries : Entry).Distinct

/-- The tree as an entry of its parent. -/
def DirTree.entry (t : DirTree) : Entry := .node t.owner t.entries

/-- What remains of a directory, the entries that are gone, and their number. -/
structure RemovesExactly (t : Entry) (owner : ℕ) (after : Option Entry) (removed : ℕ) : Prop where
  gone : ∀ p, IsDead (belongs owner) t p → after.bind (at? · p) = none
  untouched : ∀ p, ¬ IsDead (belongs owner) t p →
    (after.bind (at? · p)).map label = (t.at? p).map label
  none_left : ∀ p e, after.bind (at? · p) = some e → belongs owner e.label = false
  count : removed = (t.paths.filter fun p => (after.bind (at? · p)).isNone).length

/-- `removeDir` without force removes what belongs to the prisoner and what is below it, and counts
it. -/
theorem removesExactly_removeDir (t : DirTree) (owner : ℕ) (hdir : EndsInName dir) :
    RemovesExactly t.entry owner (removeDir dir (some t.entry) owner false).1
      (removeDir dir (some t.entry) owner false).2 := by
  have hbelongs : removes owner false = belongs owner := funext fun _ => Bool.false_or _
  have ht : t.entry.Distinct := t.distinct
  obtain ⟨hafter, hcount⟩ := removeDir_eq hdir t.owner t.entries owner false
  rw [hbelongs] at hafter hcount
  rw [DirTree.entry, hafter]
  refine ⟨fun p hp => at?_prune_of_isDead ht hp, fun p hp => label_at?_prune ht hp,
    fun p e he => ?_, ?_⟩
  · obtain ⟨t', ht', he⟩ := Option.bind_eq_some_iff.mp he
    obtain ⟨-, s, -, hprune⟩ := at?_of_at?_prune ht ht' he
    exact label_of_prune hprune
  · have hall := length_paths_prune ht (belongs owner)
    exact Nat.add_right_cancel (hcount.trans (((Nat.add_comm _ _).trans hall).symm))

end RemoveDir

/-- A directory with a file of one prisoner and a directory of another. -/
def sharedTmp : DirTree where
  owner := ⟨0, 0⟩
  entries := [([97], .leaf (.regular ⟨10002, 10002⟩ [])),
    ([98], .node ⟨10001, 0⟩ [([99], .leaf (.link ⟨10002, 10002⟩ [97]))])]
  distinct := by
    refine distinct_node _ (by decide) fun x c hc => ?_
    have hmem := (lookup_eq_some_iff (by decide)).mp hc
    rcases List.mem_cons.mp hmem with heq | hmem
    · rw [(Prod.mk.inj heq).2]
      exact distinct_leaf _
    · rw [(Prod.mk.inj (List.mem_singleton.mp hmem)).2]
      refine distinct_node _ (by decide) fun x c hc => ?_
      have hmem := (lookup_eq_some_iff (by decide)).mp hc
      rw [(Prod.mk.inj (List.mem_singleton.mp hmem)).2]
      exact distinct_leaf _

theorem removesExactly_removeDir_shared : RemovesExactly sharedTmp.entry 10001
    (removeDir (ascii "/jail/tmp") (some sharedTmp.entry) 10001 false).1
    (removeDir (ascii "/jail/tmp") (some sharedTmp.entry) 10001 false).2 :=
  removesExactly_removeDir sharedTmp 10001 (by decide +kernel)

/-- The root directory stays as it is, whoever owns it. -/
theorem not_removesExactly_root :
    removeDir (ascii "/") (some (.node ⟨5, 5⟩ [])) 5 false = (some (.node ⟨5, 5⟩ []), 0) ∧
      ¬ RemovesExactly (.node ⟨5, 5⟩ []) 5 (some (.node ⟨5, 5⟩ [])) 0 := by
  refine ⟨rfl, fun h => ?_⟩
  cases h.gone [] ⟨[], List.nil_prefix, _, rfl, rfl⟩

end VplJail.Util
