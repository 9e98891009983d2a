import VplJail.Jail.MountInfo
import VplJail.Util.Exceptions
import Mathlib.Algebra.Order.BigOperators.Group.List

/-!
# Unmounting the old root

`unmountMountTreeOrThrow` unmounts the mount points at and below a path, the longest first, so that
each comes before the directories above it. `std::sort` may leave paths of one length in any order
(`SortBySize`), and `umount2` answers anything.

This is right of the mount points that are read. A mount point with a blank that the kernel does not
escape is read in part (`unmountsTree_of_isReadRight`).
-/

namespace VplJail.Jail

open Util

/-! ## The code -/

/-- The `errno` of a failure of `umount2`. -/
inductive Errno
  | EINVAL
  | ENOENT
  | other (code : ℕ)
deriving DecidableEq, Repr

/-- An implementation of `std::sort` for the order of `unmountMountTreeOrThrow`, longer paths first. -/
structure SortBySize where
  sort : List Bytes → List Bytes
  perm : ∀ targets, (sort targets).Perm targets
  sorted : ∀ targets, (sort targets).Pairwise fun a b => b.length ≤ a.length

/-- A sort that leaves paths of one length in their order. -/
def SortBySize.stable : SortBySize where
  sort targets := targets.mergeSort fun a b => decide (b.length ≤ a.length)
  perm targets := List.mergeSort_perm targets _
  sorted targets := by
    refine (List.pairwise_mergeSort (fun a b c hab hbc => ?_) (fun a b => ?_) targets).imp
      of_decide_eq_true
    · exact decide_eq_true ((of_decide_eq_true hbc).trans (of_decide_eq_true hab))
    · simpa using Nat.le_total b.length a.length

/-- A call of `umount2` with the path that it reads, and its result. -/
abbrev Attempt := Bytes × Option Errno

/-- `isPathUnderPrefix`: the path is the prefix, or below it. -/
def isPathUnderPrefix (path pre : Bytes) : Bool :=
  if path = pre then true
  else if path.length ≤ pre.length then false
  else decide (path.take pre.length = pre) && decide (path[pre.length]? = some 47)

/-- What is thrown for a mount that stays. -/
def unmountFailed : Thrown :=
  .http internalServerErrorCode "Failed to unmount old root mounts - security breach prevented"

/-- The loop over the targets, with the attempts made so far, on which the answer of `umount2` may
depend. -/
def unmountTargets (umount2 : List Attempt → Bytes → Option Errno) (attempts : List Attempt) :
    List Bytes → List Attempt × Except Thrown Unit
  | [] => (attempts, .ok ())
  | mp :: targets =>
      let result := umount2 attempts (cstr mp)
      let attempts := attempts ++ [(cstr mp, result)]
      match result with
      | some (.other _) => (attempts, .error unmountFailed)
      | _ => unmountTargets umount2 attempts targets

/-- `unmountMountTreeOrThrow`, with what is read from `/proc/self/mountinfo`. -/
def unmountMountTreeOrThrow (sort : SortBySize) (umount2 : List Attempt → Bytes → Option Errno)
    (mountinfo prefixMountPoint : Bytes) : List Attempt × Except Thrown Unit :=
  let targets := (listMountPoints mountinfo).filter (isPathUnderPrefix · prefixMountPoint)
  unmountTargets umount2 [] (sort.sort targets)

/-! ## The mounts that are to go -/

/-- A path as the beginning of the paths below it. -/
def asDirectory (path : Bytes) : Bytes :=
  if path.getLast? = some 47 then path else path ++ [47]

/-- A path is a proper ancestor directory of another one. -/
def IsProperAncestor (a b : Bytes) : Prop :=
  a ≠ b ∧ asDirectory a <+: b

/-- A path is the given one or below it. -/
def IsAtOrBelow (pre path : Bytes) : Prop :=
  path = pre ∨ IsProperAncestor pre path

instance (a b : Bytes) : Decidable (IsProperAncestor a b) :=
  inferInstanceAs (Decidable (a ≠ b ∧ asDirectory a <+: b))

instance (pre path : Bytes) : Decidable (IsAtOrBelow pre path) :=
  inferInstanceAs (Decidable (path = pre ∨ IsProperAncestor pre path))

/-- The mount points at and below a path are unmounted, each once and before its ancestors, unless
one of them stays; and then an exception is thrown. -/
structure UnmountsTree (entries : List MountEntry) (pre : Bytes)
    (r : List Attempt × Except Thrown Unit) : Prop where
  restores : ∀ e ∈ entries, unescapeMountInfoPath (escapeMountInfoPath e.mountPoint) = e.mountPoint
  order : ∃ order : List Bytes,
    order.Perm ((entries.map MountEntry.mountPoint).filter (IsAtOrBelow pre ·)) ∧
      order.Pairwise (fun a b => ¬ IsProperAncestor a b) ∧
      r.1.map Prod.fst <+: order ∧ (r.2 = .ok () → r.1.map Prod.fst = order)
  throws : (∃ attempt ∈ r.1, ∃ code, attempt.2 = some (.other code)) ↔ r.2 = .error unmountFailed

/-- A mount at or below a path, or one that is read as such, is read right. -/
def MountEntry.IsReadRight (pre : Bytes) (e : MountEntry) : Prop :=
  ∀ path, path = e.mountPoint ∨ e.read = some path → IsAtOrBelow pre path →
    e.read = some e.mountPoint

/-! ## The loop -/

/-- The attempts are the targets up to the first failure that does not mean that the mount has gone,
or all of them. -/
theorem unmountTargets_spec (umount2 : List Attempt → Bytes → Option Errno) (done : List Attempt)
    (targets : List Bytes) :
    ∃ attempts, (unmountTargets umount2 done targets).1 = done ++ attempts ∧
      attempts.map Prod.fst <+: targets.map cstr ∧
      ((unmountTargets umount2 done targets).2 = .ok () →
        attempts.map Prod.fst = targets.map cstr) ∧
      ((∃ attempt ∈ attempts, ∃ code, attempt.2 = some (.other code)) ↔
        (unmountTargets umount2 done targets).2 = .error unmountFailed) := by
  induction targets generalizing done with
  | nil => exact ⟨[], by simp [unmountTargets]⟩
  | cons mp targets ih =>
      obtain ⟨attempts, hattempts, hbegin, hok, herror⟩ :=
        ih (done ++ [(cstr mp, umount2 done (cstr mp))])
      by_cases hfatal : ∃ code, umount2 done (cstr mp) = some (.other code)
      · -- the loop ends with this attempt
        obtain ⟨code, hcode⟩ := hfatal
        exact ⟨[(cstr mp, some (.other code))], by simp [unmountTargets, hcode]⟩
      · have hstep : unmountTargets umount2 done (mp :: targets) =
            unmountTargets umount2 (done ++ [(cstr mp, umount2 done (cstr mp))]) targets := by
          rw [unmountTargets]
          split
          · next code hcode => exact absurd ⟨code, hcode⟩ hfatal
          · rfl
        rw [hstep]
        refine ⟨(cstr mp, umount2 done (cstr mp)) :: attempts, ?_, ?_, ?_, ?_⟩
        · rw [hattempts, List.append_assoc, List.singleton_append]
        · simpa [List.cons_prefix_cons] using hbegin
        · simpa using hok
        · rw [← herror]
          simp only [List.exists_mem_cons_iff, hfatal, false_or]

/-- Without a failure all targets are attempted. -/
theorem unmountTargets_of_none (done : List Attempt) (targets : List Bytes) :
    unmountTargets (fun _ _ => none) done targets =
      (done ++ targets.map fun mp => (cstr mp, none), .ok ()) := by
  induction targets generalizing done with
  | nil => simp [unmountTargets]
  | cons mp targets ih => simp [unmountTargets, ih]

/-! ## Paths -/

theorem IsProperAncestor.length_lt {a b : Bytes} (h : IsProperAncestor a b) :
    a.length < b.length := by
  obtain ⟨hne, hbegin⟩ := h
  unfold asDirectory at hbegin
  split at hbegin
  · exact lt_of_le_of_ne hbegin.length_le fun hlength => hne (hbegin.eq_of_length hlength)
  · have := hbegin.length_le
    rw [List.length_append, List.length_singleton] at this
    omega

theorem append_singleton_prefix_iff {pre path : Bytes} {b : UInt8} :
    pre ++ [b] <+: path ↔ path.take pre.length = pre ∧ path[pre.length]? = some b := by
  constructor
  · rintro ⟨rest, rfl⟩
    simp
  · rintro ⟨htake, hget⟩
    refine ⟨path.drop (pre.length + 1), ?_⟩
    obtain ⟨hlength, hget⟩ := List.getElem?_eq_some_iff.mp hget
    calc pre ++ [b] ++ path.drop (pre.length + 1)
        = pre ++ path.drop pre.length := by
          rw [List.drop_eq_getElem_cons hlength, hget, List.append_assoc, List.singleton_append]
      _ = path := by
          nth_rewrite 1 [← htake]
          exact List.take_append_drop _ _

/-- The test of a path asks for the separator behind the prefix. -/
theorem isPathUnderPrefix_iff {pre : Bytes} (hpre : pre.getLast? ≠ some 47) (path : Bytes) :
    isPathUnderPrefix path pre = true ↔ IsAtOrBelow pre path := by
  have hdirectory : asDirectory pre = pre ++ [47] := if_neg hpre
  have hbegin : pre ++ [47] <+: path ↔ path.take pre.length = pre ∧
      path[pre.length]? = some 47 := append_singleton_prefix_iff
  unfold isPathUnderPrefix IsAtOrBelow IsProperAncestor
  rw [hdirectory, hbegin]
  split_ifs with heq hlength
  · exact iff_of_true rfl (.inl heq)
  · refine iff_of_false id ?_
    rintro (h | ⟨-, -, hget⟩)
    · exact heq h
    · rw [List.getElem?_eq_none hlength] at hget
      cases hget
  · rw [Bool.and_eq_true, decide_eq_true_eq, decide_eq_true_eq]
    exact ⟨fun h => .inr ⟨Ne.symm heq, h⟩, fun h => (h.resolve_left heq).2⟩

/-! ## Mounts that are read right -/

/-- The order of the attempts, from the targets that are read. -/
theorem unmountsTree_of_perm {entries : List MountEntry} {pre : Bytes} (sort : SortBySize)
    (umount2 : List Attempt → Bytes → Option Errno)
    (h : (entries.filterMap MountEntry.read).filter (isPathUnderPrefix · pre) =
      (entries.map MountEntry.mountPoint).filter (IsAtOrBelow pre ·)) :
    UnmountsTree entries pre (unmountMountTreeOrThrow sort umount2 (mountinfo entries) pre) := by
  obtain ⟨attempts, hattempts, hbegin, hok, hthrows⟩ := unmountTargets_spec umount2 []
    (sort.sort ((entries.map MountEntry.mountPoint).filter (IsAtOrBelow pre ·)))
  rw [List.nil_append] at hattempts
  have hperm := sort.perm ((entries.map MountEntry.mountPoint).filter (IsAtOrBelow pre ·))
  have hcstr : (sort.sort ((entries.map MountEntry.mountPoint).filter
      (IsAtOrBelow pre ·))).map cstr =
      sort.sort ((entries.map MountEntry.mountPoint).filter (IsAtOrBelow pre ·)) := by
    refine (List.map_congr_left fun path hpath => ?_).trans (List.map_id _)
    obtain ⟨e, -, rfl⟩ := List.mem_map.mp (List.mem_of_mem_filter (hperm.subset hpath))
    exact cstr_eq_self e.zero_notMem
  rw [hcstr] at hbegin hok
  unfold unmountMountTreeOrThrow
  rw [listMountPoints_mountinfo, h]
  exact {
    restores := fun e _ => unescape_escape e.mountPoint
    order := ⟨_, hperm, (sort.sorted _).imp fun hlength hancestor =>
      absurd hancestor.length_lt hlength.not_gt, hattempts ▸ hbegin, fun h => hattempts ▸ hok h⟩
    throws := hattempts ▸ hthrows }

/-- The targets are the mount points at and below the path where these are read right. -/
theorem targets_eq {entries : List MountEntry} {pre : Bytes} (hpre : pre.getLast? ≠ some 47)
    (h : ∀ e ∈ entries, e.IsReadRight pre) :
    (entries.filterMap MountEntry.read).filter (isPathUnderPrefix · pre) =
      (entries.map MountEntry.mountPoint).filter (IsAtOrBelow pre ·) := by
  induction entries with
  | nil => rfl
  | cons e entries ih =>
      obtain ⟨he, hentries⟩ := List.forall_mem_cons.mp h
      have ih := ih hentries
      by_cases hbelow : IsAtOrBelow pre e.mountPoint
      · -- a target on both sides, since it is read right
        have hread := he e.mountPoint (.inl rfl) hbelow
        have hpath := (isPathUnderPrefix_iff hpre e.mountPoint).mpr hbelow
        simp [hread, hpath, hbelow, ih]
      · -- on neither side: what is read is not below the path, or else the mount point were
        cases hread : e.read with
        | none => simpa [hread, hbelow] using ih
        | some path =>
            have hpath : isPathUnderPrefix path pre = false := by
              refine Bool.eq_false_iff.mpr fun hpath => hbelow ?_
              have hpath := (isPathUnderPrefix_iff hpre path).mp hpath
              have hright := he path (.inr hread) hpath
              rw [hread, Option.some_inj] at hright
              exact hright ▸ hpath
            simpa [hread, hpath, hbelow] using ih

/-! ## Mounts that are read in part -/

/-- A path up to its first blank that the kernel does not escape. -/
def cut (path : Bytes) : Bytes :=
  path.takeWhile (!isUnescapedBlank ·)

theorem isPrefix_cut (path : Bytes) : cut path <+: path :=
  List.takeWhile_prefix _

theorem isUnescapedBlank_of_mem_cut {path : Bytes} {b : UInt8} (h : b ∈ cut path) :
    isUnescapedBlank b = false := by
  simpa using List.mem_takeWhile_imp h

theorem pieces_eq_cons {path : Bytes} (h : cut path ≠ []) :
    ∃ parts, pieces path = cut path :: parts := by
  have hclean : ∀ b ∈ cut path, isUnescapedBlank b = false := fun b hb =>
    isUnescapedBlank_of_mem_cut hb
  have hsplit : path = cut path ++ path.dropWhile (!isUnescapedBlank ·) :=
    List.takeWhile_append_dropWhile.symm
  have hhead := List.head?_dropWhile_not (!isUnescapedBlank ·) path
  cases hrest : path.dropWhile (!isUnescapedBlank ·) with
  | nil =>
      have hself : cut path = path := by
        rw [hrest, List.append_nil] at hsplit
        exact hsplit.symm
      rw [hself] at h hclean ⊢
      exact ⟨[], by simp [pieces, List.splitOnP_eq_singleton hclean, h]⟩
  | cons b rest =>
      rw [hrest] at hsplit hhead
      have hb : isUnescapedBlank b = true := by simpa using hhead
      refine ⟨(rest.splitOnP isUnescapedBlank).filter (· ≠ []), ?_⟩
      rw [pieces]
      nth_rewrite 1 [hsplit]
      rw [List.splitOnP_append_cons_of_forall_mem hclean b hb, List.filter_cons_of_pos (by simpa)]

/-- Where the root has none of these blanks, the mount point is read up to its first one. -/
theorem MountEntry.read_eq {e : MountEntry} (hroot : ∀ b ∈ e.root, isUnescapedBlank b = false) :
    e.read = some (cut e.mountPoint) := by
  have hpieces : pieces e.root = [e.root] := by
    rw [pieces, List.splitOnP_eq_singleton hroot]
    simp [e.root_ne_nil]
  have hne : cut e.mountPoint ≠ [] := by
    obtain ⟨path, hpath⟩ := List.head?_eq_some_iff.mp e.absolute
    rw [hpath, cut, List.takeWhile_cons_of_pos rfl]
    exact List.cons_ne_nil _ _
  obtain ⟨parts, hparts⟩ := pieces_eq_cons hne
  rw [read, hpieces, hparts]
  rfl

/-- A mount without such blanks is read right. -/
theorem MountEntry.isReadRight {e : MountEntry}
    (h : ∀ b ∈ e.root ++ e.mountPoint, isUnescapedBlank b = false) (pre : Bytes) :
    e.IsReadRight pre := by
  have hcut : cut e.mountPoint = e.mountPoint := by
    refine List.takeWhile_eq_self_iff.mpr fun b hb => ?_
    rw [h b (List.mem_append_right _ hb)]
    rfl
  intro path _ _
  rw [read_eq fun b hb => h b (List.mem_append_left _ hb), hcut]

/-- What is at or below a path begins with it. -/
theorem IsAtOrBelow.begins {pre path : Bytes} (h : IsAtOrBelow pre path) : pre <+: path := by
  rcases h with rfl | ⟨-, h⟩
  · exact List.prefix_rfl
  · unfold asDirectory at h
    split at h
    · exact h
    · exact (List.prefix_append _ _).trans h

/-- A path that is cut behind the given one stays below it. -/
theorem isAtOrBelow_cut {pre path : Bytes} (hpre : pre.getLast? ≠ some 47)
    (hclean : ∀ b ∈ pre, isUnescapedBlank b = false) (h : IsAtOrBelow pre path) :
    IsAtOrBelow pre (cut path) := by
  have hkeep : ∀ b ∈ pre, (!isUnescapedBlank b) = true := fun b hb => by rw [hclean b hb]; rfl
  rcases h with rfl | ⟨-, h⟩
  · exact .inl (List.takeWhile_eq_self_iff.mpr hkeep)
  · have hdirectory : asDirectory pre = pre ++ [47] := if_neg hpre
    rw [hdirectory] at h
    obtain ⟨rest, rfl⟩ := h
    have hcut : cut (pre ++ [47] ++ rest) = pre ++ [47] ++ cut rest := by
      refine List.takeWhile_append_of_pos fun b hb => ?_
      rcases List.mem_append.mp hb with hb | hb
      · exact hkeep b hb
      · obtain rfl := List.mem_singleton.mp hb
        rfl
    rw [hcut]
    refine .inr ⟨fun heq => ?_, hdirectory ▸ List.prefix_append _ _⟩
    have := congrArg List.length heq
    simp at this

/-- Terms of equal sums are equal where none exceeds the other. -/
theorem eq_of_sum_map_eq {α : Type*} {l : List α} {f g : α → ℕ} (hle : ∀ x ∈ l, f x ≤ g x)
    (hsum : (l.map f).sum = (l.map g).sum) : ∀ x ∈ l, f x = g x := by
  induction l with
  | nil => simp
  | cons x l ih =>
      obtain ⟨hx, hl⟩ := List.forall_mem_cons.mp hle
      have hrest := List.sum_le_sum hl
      simp only [List.map_cons, List.sum_cons] at hsum
      exact List.forall_mem_cons.mpr ⟨by omega, ih hl (by omega)⟩

theorem sum_map_filter {α : Type*} (p : α → Bool) (w : α → ℕ) (l : List α) :
    ((l.filter p).map w).sum = (l.map fun x => if p x then w x else 0).sum := by
  induction l with
  | nil => rfl
  | cons x l ih => by_cases hx : p x <;> simp [hx, ih]

/-- Where the paths that are cut and the whole ones are the same at and below a path, none of these
is cut. -/
theorem cut_eq_of_perm {pre : Bytes} (hpre : pre.getLast? ≠ some 47) {paths : List Bytes}
    (h : ((paths.map cut).filter (IsAtOrBelow pre ·)).Perm (paths.filter (IsAtOrBelow pre ·))) :
    ∀ path ∈ paths, IsAtOrBelow pre path ∨ IsAtOrBelow pre (cut path) → cut path = path := by
  intro path hpath hbelow
  have hsum (w : Bytes → ℕ) :
      (paths.map fun path => if IsAtOrBelow pre (cut path) then w (cut path) else 0).sum =
        (paths.map fun path => if IsAtOrBelow pre path then w path else 0).sum := by
    have := (h.map w).sum_eq
    rw [sum_map_filter, sum_map_filter, List.map_map] at this
    simpa [Function.comp_def] using this
  by_cases hclean : ∀ b ∈ pre, isUnescapedBlank b = false
  · -- cutting keeps what is below the path, so equal numbers leave no path that only comes below it
    have hiff : ∀ path ∈ paths, IsAtOrBelow pre path ↔ IsAtOrBelow pre (cut path) := by
      intro path hpath
      refine ⟨isAtOrBelow_cut hpre hclean, fun hcut => ?_⟩
      have hone := eq_of_sum_map_eq (fun path _ => ?_) (hsum fun _ => 1).symm path hpath
      · by_contra hnot
        simp [hcut, hnot] at hone
      · split_ifs with hpath hcut
        · exact le_rfl
        · exact absurd (isAtOrBelow_cut hpre hclean hpath) hcut
        · exact Nat.zero_le _
        · exact le_rfl
    -- the same paths are below it, and none is longer when it is cut
    have hlength := eq_of_sum_map_eq (fun path hpath => ?_) (hsum List.length) path hpath
    · rw [← hiff path hpath, or_self] at hbelow
      rw [if_pos hbelow, if_pos ((hiff path hpath).mp hbelow)] at hlength
      exact (isPrefix_cut path).eq_of_length hlength
    · simp only [hiff path hpath]
      split_ifs
      · exact (isPrefix_cut path).length_le
      · exact le_rfl
  · -- nothing that is read is at or below a path that is read in part itself
    have hnot : ∀ path, ¬ IsAtOrBelow pre (cut path) := fun path hcut =>
      hclean fun b hb => isUnescapedBlank_of_mem_cut (hcut.begins.subset hb)
    have hnil : (paths.map cut).filter (IsAtOrBelow pre ·) = [] := by
      simp [hnot]
    rw [hnil] at h
    have hnone := List.filter_eq_nil_iff.mp h.nil_eq.symm path hpath
    exact absurd hbelow (by simpa [hnot] using hnone)

/-- A tree that is unmounted: the targets that are read are the mount points at and below the
path. -/
theorem perm_of_unmountsTree {entries : List MountEntry} {pre : Bytes} {sort : SortBySize}
    (h : UnmountsTree entries pre
      (unmountMountTreeOrThrow sort (fun _ _ => none) (mountinfo entries) pre)) :
    (((entries.filterMap MountEntry.read).filter (isPathUnderPrefix · pre)).map cstr).Perm
      ((entries.map MountEntry.mountPoint).filter (IsAtOrBelow pre ·)) := by
  obtain ⟨order, hperm, -, -, hall⟩ := h.order
  unfold unmountMountTreeOrThrow at hall
  rw [listMountPoints_mountinfo, unmountTargets_of_none] at hall
  have hattempts := hall rfl
  rw [List.nil_append, List.map_map] at hattempts
  refine (((sort.perm _).map cstr).symm.trans ?_).trans hperm
  exact .of_eq hattempts

/-! ## The result -/

/-- The mount points at and below a path are unmounted if each mount that is or seems to be there is
read right; and only then, if no root has a blank that the kernel does not escape. -/
theorem unmountsTree_of_isReadRight {pre : Bytes} (hpre : pre.getLast? ≠ some 47)
    (entries : List MountEntry) :
    ((∀ e ∈ entries, e.IsReadRight pre) →
      ∀ sort umount2,
        UnmountsTree entries pre (unmountMountTreeOrThrow sort umount2 (mountinfo entries) pre)) ∧
    ((∀ e ∈ entries, ∀ b ∈ e.root, isUnescapedBlank b = false) →
      (∀ sort umount2,
        UnmountsTree entries pre (unmountMountTreeOrThrow sort umount2 (mountinfo entries) pre)) →
      ∀ e ∈ entries, e.IsReadRight pre) := by
  refine ⟨fun h sort umount2 => unmountsTree_of_perm sort umount2 (targets_eq hpre h),
    fun hroot h => ?_⟩
  have hread : entries.filterMap MountEntry.read =
      (entries.map MountEntry.mountPoint).map cut := by
    rw [List.filterMap_congr fun e he => MountEntry.read_eq (hroot e he), List.map_map]
    exact congrFun List.filterMap_eq_map' entries
  have hperm := perm_of_unmountsTree (h .stable fun _ _ => none)
  rw [hread] at hperm
  have hcstr : ((((entries.map MountEntry.mountPoint).map cut).filter
      (isPathUnderPrefix · pre)).map cstr) =
      ((entries.map MountEntry.mountPoint).map cut).filter (IsAtOrBelow pre ·) := by
    rw [List.filter_congr fun path _ =>
      Bool.eq_iff_iff.mpr ((isPathUnderPrefix_iff hpre path).trans decide_eq_true_iff.symm)]
    refine (List.map_congr_left fun path hpath => ?_).trans (List.map_id _)
    obtain ⟨whole, hwhole, rfl⟩ := List.mem_map.mp (List.mem_of_mem_filter hpath)
    obtain ⟨e, -, rfl⟩ := List.mem_map.mp hwhole
    exact cstr_eq_self fun h0 => e.zero_notMem ((isPrefix_cut _).subset h0)
  rw [hcstr] at hperm
  intro e he path hpath hbelow
  rw [MountEntry.read_eq (hroot e he)] at hpath ⊢
  refine congrArg some (cut_eq_of_perm hpre hperm _ (List.mem_map_of_mem he) ?_)
  rcases hpath with rfl | hpath
  · exact .inl hbelow
  · exact .inr (Option.some.inj hpath ▸ hbelow)

/-- A mount of a whole disk. -/
def diskMount (mountPoint : Bytes) (absolute : mountPoint.head? = some 47)
    (zero_notMem : (0 : UInt8) ∉ mountPoint) : MountEntry where
  id := 36
  parent := 35
  major := 8
  minor := 1
  root := ascii "/"
  mountPoint := mountPoint
  rest := ascii "rw,noatime - ext4 /dev/sda1 rw"
  root_ne_nil := by decide
  absolute := absolute
  zero_notMem := zero_notMem
  newline_notMem := by decide

/-- Two mounts of an old root, one with a space in its name, and one of another prisoner's. -/
def oldRootMounts : List MountEntry :=
  [diskMount (ascii "/.oldroot_p1") (by decide) (by decide),
    diskMount (ascii "/.oldroot_p1/my disk") (by decide) (by decide),
    diskMount (ascii "/.oldroot_p12/home") (by decide) (by decide)]

theorem unmountsTree_oldRootMounts :
    UnmountsTree oldRootMounts (ascii "/.oldroot_p1")
      (unmountMountTreeOrThrow .stable (fun _ _ => none) (mountinfo oldRootMounts)
        (ascii "/.oldroot_p1")) := by
  have hclean : ∀ e ∈ oldRootMounts, ∀ b ∈ e.root ++ e.mountPoint,
      isUnescapedBlank b = false := by
    decide +kernel
  exact (unmountsTree_of_isReadRight (by decide) oldRootMounts).1
    (fun e he => MountEntry.isReadRight (hclean e he) _) .stable fun _ _ => none

/-- A carriage return ends the mount point that is read. -/
theorem not_unmountsTree_of_carriageReturn :
    ¬ ∀ entries pre, pre.getLast? ≠ some 47 → ∀ sort umount2,
      UnmountsTree entries pre
        (unmountMountTreeOrThrow sort umount2 (mountinfo entries) pre) := by
  intro h
  have hperm := perm_of_unmountsTree
    (h [diskMount (ascii "/old/a" ++ 13 :: ascii "b") (by decide) (by decide)] (ascii "/old")
      (by decide) .stable fun _ _ => none)
  revert hperm
  decide +kernel

end VplJail.Jail
