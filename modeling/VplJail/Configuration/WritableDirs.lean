import VplJail.Common.Outermost
import VplJail.Configuration.Settings
import VplJail.Util.RemoveDir

/-!
# The writable directories of the jail

`getWritableDirsInDir` walks through the jail and lists the directories that a prisoner may write. It
lists the outermost of them, relative to the jail (`isWalk_getWritableDirsInDir`). A directory that
cannot be examined or opened is passed over, and so is all that is in it.
-/

namespace VplJail.Configuration

open NamedTree

/-! ## The walk -/

/-- What the system tells of a directory: the fields of `struct stat`, and whether `lstat` and
`opendir` succeed. -/
structure DirStat where
  mode : ℕ
  uid : ℕ
  gid : ℕ
  stats : Bool := true
  opens : Bool := true
deriving DecidableEq, Repr

/-- A file, a link or a directory of the jail. The directories hold what `readdir` lists besides `.`
and `..`. -/
abbrev JailEntry := NamedTree Bytes Util.File DirStat

section Walk

variable (cfg : Configuration)

/-- The condition on a directory that a prisoner may write, by `S_IWOTH`, `S_IWGRP` and `S_IWUSR`. -/
def isWritable (info : DirStat) : Bool :=
  decide (info.mode &&& 0o002 ≠ 0) ||
    (decide (info.mode &&& 0o020 ≠ 0) && decide (cfg.firstPrisoner ≤ info.gid) &&
      decide (info.gid ≤ cfg.maxPrisoner)) ||
    (decide (info.mode &&& 0o200 ≠ 0) && decide (cfg.firstPrisoner ≤ info.uid) &&
      decide (info.uid ≤ cfg.maxPrisoner))

mutual

/-- `getWritableDirsInDir`: the outermost writable directories below a directory. -/
def getWritableDirsInDir (dirPath : Bytes) : JailEntry → List Bytes
  | .leaf _ => []
  | .node info entries => if info.opens then writableEntries dirPath entries else []

/-- The loop over the entries. -/
def writableEntries (dirPath : Bytes) : List (Bytes × JailEntry) → List Bytes
  | [] => []
  | (entryName, entry) :: entries =>
      let writableDirs := writableEntries dirPath entries
      let fullPath := dirPath ++ ascii "/" ++ entryName
      if entryName = ascii "." ∨ entryName = ascii ".." then writableDirs
      else match entry with
        | .leaf _ => writableDirs
        | .node info _ =>
            if ¬ info.stats then writableDirs
            else if isWritable cfg info then fullPath.drop cfg.jailPath.length :: writableDirs
            else getWritableDirsInDir fullPath entry ++ writableDirs

end

/-- `findWritableDirsInJail`, which leaves the list as it is where the jail is the whole system. -/
def findWritableDirsInJail (writableDirsInJail : List Bytes) (jail : JailEntry) : List Bytes :=
  if cfg.jailPath = [] then writableDirsInJail
  else getWritableDirsInDir cfg cfg.jailPath jail

end Walk

/-! ## What it should list -/

/-- A name that a directory can have in another one. -/
structure IsName (name : Bytes) : Prop where
  noSlash : (47 : UInt8) ∉ name
  ne_dot : name ≠ ascii "."
  ne_dotdot : name ≠ ascii ".."

/-- The directories have entries of different names. -/
structure WellNamed (t : JailEntry) : Prop where
  distinct : t.Distinct
  name : ∀ p t', t.at? p = some t' → ∀ x ∈ t'.children.map Prod.fst, IsName x

/-- A path from the jail on, as a string. -/
def relativePath (p : List Bytes) : Bytes :=
  p.flatMap fun name => ascii "/" ++ name

/-- A directory of the jail that some prisoner may write. -/
def IsWritableDir (cfg : Configuration) (jail : JailEntry) (p : List Bytes) : Prop :=
  NodeAt jail p fun info => isWritable cfg info = true

/-- No directory on the way to one, the jail among them, fails to be examined or opened. -/
structure IsSeen (jail : JailEntry) (p : List Bytes) : Prop where
  examined : ∀ q, q ≠ [] → q <+: p → NodeAt jail q fun info => info.stats = true
  opened : ∀ q, q <+: p → q ≠ p → NodeAt jail q fun info => info.opens = true

/-- Every directory can be examined and opened. -/
def IsReadable (jail : JailEntry) : Prop :=
  ∀ p, NodeAt jail p (fun _ => True) →
    NodeAt jail p fun info => info.stats = true ∧ info.opens = true

/-- A directory that prisoners may write, in others that they may not. -/
structure IsOutermost (cfg : Configuration) (jail : JailEntry) (p : List Bytes) : Prop where
  below : p ≠ []
  writable : IsWritableDir cfg jail p
  outermost : ∀ q, q ≠ [] → q <+: p → q ≠ p → ¬ IsWritableDir cfg jail q

/-- A path is another one, or below it. -/
def AtOrBelow (dir dir' : Bytes) : Prop :=
  dir = dir' ∨ dir' ++ ascii "/" <+: dir

/-- The list of the outermost writable directories: each of them once and none below another, so that
every writable directory is at or below exactly one. Where every directory is readable this is about
all of them. -/
structure IsWalk (cfg : Configuration) (jail : JailEntry) (dirs : List Bytes) : Prop where
  mem_iff : ∀ dir, dir ∈ dirs ↔
    ∃ p, IsOutermost cfg jail p ∧ IsSeen jail p ∧ dir = relativePath p
  nodup : dirs.Nodup
  antichain : ∀ dir ∈ dirs, ∀ dir' ∈ dirs, AtOrBelow dir dir' → dir = dir'
  covers : ∀ p, p ≠ [] → IsWritableDir cfg jail p → IsSeen jail p →
    ∃! dir, dir ∈ dirs ∧ AtOrBelow (relativePath p) dir
  seen : IsReadable jail → ∀ p, IsWritableDir cfg jail p → IsSeen jail p

/-! ## Paths as strings -/

section Paths

/-- A path starts with a slash if it is one below the jail. -/
theorem relativePath_cons (x : Bytes) (p : List Bytes) :
    relativePath (x :: p) = 47 :: (x ++ relativePath p) :=
  rfl

theorem relativePath_append (p q : List Bytes) :
    relativePath (p ++ q) = relativePath p ++ relativePath q :=
  List.flatMap_append

/-- Names end at the first slash. -/
theorem prefix_of_names {x y rest more : Bytes} (hx : (47 : UInt8) ∉ x) (hy : (47 : UInt8) ∉ y)
    (hmore : more = [] ∨ ∃ tail, more = 47 :: tail) (h : x ++ 47 :: rest <+: y ++ more) :
    x = y ∧ 47 :: rest <+: more := by
  induction x generalizing y with
  | nil =>
    cases y with
    | nil => exact ⟨rfl, h⟩
    | cons b y =>
      obtain ⟨rfl, -⟩ := List.cons_prefix_cons.mp h
      exact absurd List.mem_cons_self hy
  | cons a x ih =>
    cases y with
    | nil =>
      rcases hmore with rfl | ⟨tail, rfl⟩
      · exact absurd (List.prefix_nil.mp h) (List.cons_ne_nil _ _)
      · obtain ⟨rfl, -⟩ := List.cons_prefix_cons.mp h
        exact absurd List.mem_cons_self hx
    | cons b y =>
      obtain ⟨rfl, htail⟩ := List.cons_prefix_cons.mp h
      rw [List.mem_cons, not_or] at hx hy
      obtain ⟨rfl, hrest⟩ := ih hx.2 hy.2 htail
      exact ⟨rfl, hrest⟩

theorem relativePath_cases (p : List Bytes) :
    relativePath p = [] ∨ ∃ tail, relativePath p = 47 :: tail := by
  cases p with
  | nil => exact .inl rfl
  | cons x p => exact .inr ⟨_, relativePath_cons x p⟩

/-- Behind the string of a path and a slash there is a longer path. -/
theorem prefix_of_relativePath {p q : List Bytes} (hp : ∀ x ∈ p, (47 : UInt8) ∉ x)
    (hq : ∀ x ∈ q, (47 : UInt8) ∉ x) (h : relativePath q ++ [47] <+: relativePath p) :
    q <+: p ∧ q ≠ p := by
  induction q generalizing p with
  | nil =>
    refine ⟨List.nil_prefix, ?_⟩
    rintro rfl
    exact absurd (List.prefix_nil.mp h) (List.cons_ne_nil _ _)
  | cons y q ih =>
    cases p with
    | nil => exact absurd (List.prefix_nil.mp h) (by simp)
    | cons x p =>
      obtain ⟨hx, hp'⟩ := List.forall_mem_cons.mp hp
      obtain ⟨hy, hq'⟩ := List.forall_mem_cons.mp hq
      rw [relativePath_cons, relativePath_cons, List.cons_append, List.append_assoc] at h
      have h := (List.cons_prefix_cons.mp h).2
      obtain ⟨tail, htail⟩ : ∃ tail, relativePath q ++ [47] = 47 :: tail := by
        rcases relativePath_cases q with hnil | ⟨tail, hcons⟩
        · exact ⟨[], by rw [hnil]; rfl⟩
        · exact ⟨tail ++ [47], by rw [hcons]; rfl⟩
      rw [htail] at h
      obtain ⟨hxy, hrest⟩ := prefix_of_names hy hx (relativePath_cases p) h
      rw [← htail] at hrest
      obtain ⟨hpre, hne⟩ := ih hp' hq' hrest
      exact ⟨List.cons_prefix_cons.mpr ⟨hxy, hpre⟩, fun heq => hne (List.cons.inj heq).2⟩

/-- Different paths have different strings. -/
theorem relativePath_inj {p q : List Bytes} (hp : ∀ x ∈ p, (47 : UInt8) ∉ x)
    (hq : ∀ x ∈ q, (47 : UInt8) ∉ x) (h : relativePath p = relativePath q) : p = q := by
  -- with one name more, each is the start of the other
  have hlast (p : List Bytes) : relativePath (p ++ [[]]) = relativePath p ++ [47] := by
    rw [relativePath_append]
    rfl
  have hnames {p : List Bytes} (hp : ∀ x ∈ p, (47 : UInt8) ∉ x) :
      ∀ x ∈ p ++ [[]], (47 : UInt8) ∉ x := by
    intro x hx
    rcases List.mem_append.mp hx with hx | hx
    · exact hp x hx
    · rw [List.mem_singleton.mp hx]
      exact List.not_mem_nil
  have hbefore {p q : List Bytes} (hp : ∀ x ∈ p, (47 : UInt8) ∉ x) (hq : ∀ x ∈ q, (47 : UInt8) ∉ x)
      (h : relativePath p = relativePath q) : p <+: q := by
    obtain ⟨hpre, hne⟩ := prefix_of_relativePath (p := q ++ [[]]) (hnames hq) hp (by rw [hlast, h])
    exact (List.prefix_concat_iff.mp hpre).resolve_left hne
  have hpre := hbefore hp hq h
  exact hpre.eq_of_length (le_antisymm hpre.length_le (hbefore hq hp h.symm).length_le)

end Paths

/-! ## Names in a tree -/

section Names

theorem wellNamed_leaf (f : Util.File) : WellNamed (.leaf f) where
  distinct := distinct_leaf f
  name := by
    intro p t' ht'
    cases p with
    | nil =>
      obtain rfl := Option.some.inj ht'
      exact fun x hx => absurd hx List.not_mem_nil
    | cons x p => cases ht'

/-- A directory of different names, each of which stands for a tree with names. -/
theorem wellNamed_node (info : DirStat) {cs : List (Bytes × JailEntry)}
    (hcs : (cs.map Prod.fst).Nodup) (h : ∀ x c, (x, c) ∈ cs → IsName x ∧ WellNamed c) :
    WellNamed (.node info cs) where
  distinct := distinct_node info hcs fun x c hc =>
    (h x c ((lookup_eq_some_iff hcs).mp hc)).2.distinct
  name := by
    intro p t' ht'
    cases p with
    | nil =>
      obtain rfl := Option.some.inj ht'
      intro x hx
      obtain ⟨⟨y, c⟩, hc, rfl⟩ := List.mem_map.mp hx
      exact (h y c hc).1
    | cons x p =>
      obtain ⟨c, hc, ht'⟩ := Option.bind_eq_some_iff.mp ht'
      exact (h x c ((lookup_eq_some_iff hcs).mp hc)).2.name p t' ht'

end Names

/-! ## The walk as one of the tree -/

section Refinement

variable {cfg : Configuration}

theorem WellNamed.child {t c : JailEntry} {x : Bytes} (h : WellNamed t)
    (hc : (x, c) ∈ t.children) : WellNamed c := by
  have hlookup := (lookup_eq_some_iff h.distinct.root).mpr hc
  refine ⟨h.distinct.child hlookup, fun p t' ht' => h.name (x :: p) t' ?_⟩
  rw [at?, hlookup]
  exact ht'

theorem WellNamed.isName {t c : JailEntry} {x : Bytes} (h : WellNamed t)
    (hc : (x, c) ∈ t.children) : IsName x :=
  h.name [] t rfl x (List.mem_map.mpr ⟨_, hc, rfl⟩)

/-- The names of a path are names of directories. -/
theorem isName_of_nodeAt {t : JailEntry} (h : WellNamed t) {p : List Bytes} {P : DirStat → Prop}
    (hp : NodeAt t p P) : ∀ x ∈ p, (47 : UInt8) ∉ x := by
  induction p generalizing t with
  | nil => exact fun x hx => absurd hx List.not_mem_nil
  | cons y p ih =>
    obtain ⟨c, hc, hp⟩ := nodeAt_cons.mp hp
    have hmem := (lookup_eq_some_iff h.distinct.root).mp hc
    exact List.forall_mem_cons.mpr ⟨(h.isName hmem).noSlash, ih (h.child hmem) hp⟩

variable (cfg) in
/-- What the walk lists. -/
def isHit (info : DirStat) : Bool :=
  info.stats && isWritable cfg info

/-- What the walk goes through. -/
def isEntered (info : DirStat) : Bool :=
  info.stats && info.opens

variable (cfg) in
/-- The paths that the walk lists below a directory. -/
def walk : JailEntry → List (List Bytes)
  | .leaf _ => []
  | .node info entries => if info.opens then outermostOf (isHit cfg) isEntered entries else []

mutual

/-- The strings that are listed are those of the paths, without the path of the jail. -/
theorem getWritableDirsInDir_eq : (t : JailEntry) → WellNamed t → (dirPath : Bytes) →
    getWritableDirsInDir cfg dirPath t =
      (walk cfg t).map fun p => (dirPath ++ relativePath p).drop cfg.jailPath.length
  | .leaf _, _, _ => rfl
  | .node info entries, h, dirPath => by
    rw [getWritableDirsInDir, walk]
    split
    · exact writableEntries_eq entries (fun x c hc => ⟨h.isName hc, h.child hc⟩) dirPath
    · rfl

theorem writableEntries_eq : (cs : List (Bytes × JailEntry)) →
    (∀ x c, (x, c) ∈ cs → IsName x ∧ WellNamed c) → (dirPath : Bytes) →
    writableEntries cfg dirPath cs = (outermostOf (isHit cfg) isEntered cs).map fun p =>
      (dirPath ++ relativePath p).drop cfg.jailPath.length
  | [], _, _ => rfl
  | (x, c) :: cs, h, dirPath => by
    obtain ⟨hname, hc⟩ := h x c List.mem_cons_self
    have hrest := writableEntries_eq cs (fun y d hd => h y d (List.mem_cons_of_mem _ hd)) dirPath
    have hdots : ¬ (x = ascii "." ∨ x = ascii "..") := not_or.mpr ⟨hname.ne_dot, hname.ne_dotdot⟩
    match c with
    | .leaf f =>
      rw [writableEntries, if_neg hdots, hrest]
      rfl
    | .node info entries =>
      have hbelow := getWritableDirsInDir_eq (.node info entries) hc (dirPath ++ ascii "/" ++ x)
      rw [writableEntries, if_neg hdots, outermostOf, List.map_append, ← hrest, hbelow, outermost,
        walk, isHit, isEntered]
      cases hstats : info.stats with
      | false => simp
      | true =>
        cases hwritable : isWritable cfg info with
        | true => simp [relativePath]
        | false =>
          -- the paths below the directory, with its name in front
          cases info.opens <;> simp [relativePath, Function.comp_def]

end

/-! ## What the walk lists -/

/-- The directories on the way to the one at a path below a child. -/
theorem IsSeen.child {t c : JailEntry} {x : Bytes} {p : List Bytes} (h : IsSeen t (x :: p))
    (hc : (x, c) ∈ t.children) (ht : WellNamed t) :
    ∀ q, q <+: p → q ≠ p → NodeAt c q fun info => isEntered info = true := by
  intro q hq hne
  have hlookup := (lookup_eq_some_iff ht.distinct.root).mpr hc
  have hpre : x :: q <+: x :: p := List.cons_prefix_cons.mpr ⟨rfl, hq⟩
  have hboth := (h.examined (x :: q) (List.cons_ne_nil x q) hpre).and
    (h.opened (x :: q) hpre fun heq => hne (List.cons.inj heq).2)
  refine (nodeAt_of_cons hlookup hboth).mono fun info hinfo => ?_
  rw [isEntered, hinfo.1, hinfo.2]
  rfl

/-- A directory that is seen and that may be written is one that the walk looks for. -/
theorem nodeAt_isHit {t c : JailEntry} {x : Bytes} {p : List Bytes} (h : IsSeen t (x :: p))
    (hwritable : IsWritableDir cfg t (x :: p)) (hc : (x, c) ∈ t.children) (ht : WellNamed t) :
    NodeAt c p fun info => isHit cfg info = true := by
  have hlookup := (lookup_eq_some_iff ht.distinct.root).mpr hc
  have hboth := (h.examined (x :: p) (List.cons_ne_nil x p) List.prefix_rfl).and hwritable
  refine (nodeAt_of_cons hlookup hboth).mono fun info hinfo => ?_
  rw [isHit, hinfo.1, hinfo.2]
  rfl

/-- Where nothing fails, every directory is seen. -/
theorem isSeen_of_readable {t : JailEntry} (h : IsReadable t) {p : List Bytes} {P : DirStat → Prop}
    (hp : NodeAt t p P) : IsSeen t p where
  examined := fun q _ hq => (h q (hp.of_prefix hq)).mono fun _ hinfo => hinfo.1
  opened := fun q hq _ => (h q (hp.of_prefix hq)).mono fun _ hinfo => hinfo.2

theorem isHit_iff {info : DirStat} :
    isHit cfg info = true ↔ info.stats = true ∧ isWritable cfg info = true :=
  Bool.and_eq_true_iff

theorem isEntered_iff {info : DirStat} :
    isEntered info = true ↔ info.stats = true ∧ info.opens = true :=
  Bool.and_eq_true_iff

/-- What the walk lists below a directory that it opens is an outermost directory and is seen. -/
theorem isOutermost_of_mem {info : DirStat} {entries : List (Bytes × JailEntry)}
    (ht : WellNamed (.node info entries)) (hopens : info.opens = true) {p : List Bytes}
    (h : p ∈ outermostOf (isHit cfg) isEntered entries) :
    IsOutermost cfg (.node info entries) p ∧ IsSeen (.node info entries) p := by
  cases p with
  | nil => exact absurd h (nil_notMem_outermostOf entries)
  | cons x p =>
    obtain ⟨c, hc, hp⟩ := cons_mem_outermostOf.mp h
    have hlookup := (lookup_eq_some_iff ht.distinct.root).mpr hc
    obtain ⟨hhit, habove⟩ := (mem_outermost (ht.child hc).distinct).mp hp
    have hbelow {q : List Bytes} {P : DirStat → Prop} (h : NodeAt c q P) :
        NodeAt (.node info entries) (x :: q) P := nodeAt_cons.mpr ⟨c, hlookup, h⟩
    have hne {q : List Bytes} (h : x :: q ≠ x :: p) : q ≠ p := fun heq => h (heq ▸ rfl)
    refine ⟨⟨List.cons_ne_nil x p, hbelow (hhit.mono fun _ h => (isHit_iff.mp h).2), ?_⟩,
      ⟨?_, ?_⟩⟩
    · intro q hnil hq hneq hwritable
      obtain ⟨y, q, rfl⟩ := List.exists_cons_of_ne_nil hnil
      obtain ⟨rfl, hq'⟩ := List.cons_prefix_cons.mp hq
      obtain ⟨d, cs, -, ⟨hfalse, hentered⟩, htrue⟩ :=
        (habove q hq' (hne hneq)).and (nodeAt_of_cons hlookup hwritable)
      rw [isHit, (isEntered_iff.mp hentered).1, htrue] at hfalse
      cases hfalse
    · intro q hnil hq
      obtain ⟨y, q, rfl⟩ := List.exists_cons_of_ne_nil hnil
      obtain ⟨rfl, hq'⟩ := List.cons_prefix_cons.mp hq
      by_cases heq : q = p
      · rw [heq]
        exact hbelow (hhit.mono fun _ h => (isHit_iff.mp h).1)
      · exact hbelow ((habove q hq' heq).mono fun _ h => (isEntered_iff.mp h.2).1)
    · intro q hq hneq
      cases q with
      | nil => exact nodeAt_nil.mpr hopens
      | cons y q =>
        obtain ⟨rfl, hq'⟩ := List.cons_prefix_cons.mp hq
        exact hbelow ((habove q hq' (hne hneq)).mono fun _ h => (isEntered_iff.mp h.2).2)

/-- The walk lists the outermost writable directories that are seen. -/
theorem mem_walk {t : JailEntry} (ht : WellNamed t) {p : List Bytes} :
    p ∈ walk cfg t ↔ IsOutermost cfg t p ∧ IsSeen t p := by
  constructor
  · intro hmem
    cases t with
    | leaf f => exact absurd hmem List.not_mem_nil
    | node info entries =>
      rw [walk] at hmem
      split at hmem
      · exact isOutermost_of_mem ht ‹_› hmem
      · exact absurd hmem List.not_mem_nil
  · rintro ⟨houtermost, hseen⟩
    cases t with
    | leaf f => exact absurd houtermost.writable not_nodeAt_leaf
    | node info entries =>
      obtain ⟨x, p, rfl⟩ := List.exists_cons_of_ne_nil houtermost.below
      have hopens := nodeAt_nil.mp (hseen.opened [] List.nil_prefix (List.cons_ne_nil x p).symm)
      obtain ⟨c, hlookup, -⟩ := nodeAt_cons.mp houtermost.writable
      have hc := (lookup_eq_some_iff ht.distinct.root).mp hlookup
      rw [walk, if_pos hopens, cons_mem_outermostOf]
      refine ⟨c, hc, (mem_outermost (ht.child hc).distinct).mpr
        ⟨nodeAt_isHit hseen houtermost.writable hc ht, fun q hq hne => ?_⟩⟩
      have hnot : ¬ NodeAt c q fun info => isWritable cfg info = true := fun hwritable =>
        houtermost.outermost (x :: q) (List.cons_ne_nil x q) (List.cons_prefix_cons.mpr ⟨rfl, hq⟩)
          (fun heq => hne (List.cons.inj heq).2) (nodeAt_cons.mpr ⟨c, hlookup, hwritable⟩)
      refine ((hseen.child hc ht q hq hne).and_not hnot).mono fun info hinfo => ⟨?_, hinfo.1⟩
      rw [isHit, (Bool.not_eq_true _).mp hinfo.2, Bool.and_false]

/-- The walk lists no path twice. -/
theorem nodup_walk {t : JailEntry} (ht : WellNamed t) : (walk cfg t).Nodup := by
  cases t with
  | leaf f => exact List.nodup_nil
  | node info entries =>
    rw [walk]
    split
    · refine (outermostOf_sublist entries).nodup (nodup_pathsOf entries ht.distinct.root ?_)
      exact fun x c hc => (ht.child hc).distinct
    · exact List.nodup_nil

/-- A writable directory that is seen is listed, or one that it is in. -/
theorem exists_prefix_mem_walk {t : JailEntry} (ht : WellNamed t) {p : List Bytes} (hp : p ≠ [])
    (hwritable : IsWritableDir cfg t p) (hseen : IsSeen t p) :
    ∃ q, q <+: p ∧ q ∈ walk cfg t := by
  obtain ⟨x, p, rfl⟩ := List.exists_cons_of_ne_nil hp
  obtain ⟨c, hlookup, -⟩ := nodeAt_cons.mp hwritable
  have hc := (lookup_eq_some_iff ht.distinct.root).mp hlookup
  obtain ⟨q, hq, hmem⟩ := @exists_prefix_mem_outermost _ _ _ _ _ isEntered _ (ht.child hc).distinct
    p (nodeAt_isHit hseen hwritable hc ht)
    fun q hq hne => (hseen.child hc ht q hq hne).mono fun _ h => .inr h
  refine ⟨x :: q, List.cons_prefix_cons.mpr ⟨rfl, hq⟩, ?_⟩
  cases t with
  | leaf f => exact absurd hwritable not_nodeAt_leaf
  | node info entries =>
    have hopens := nodeAt_nil.mp (hseen.opened [] List.nil_prefix (List.cons_ne_nil x p).symm)
    rw [walk, if_pos hopens, cons_mem_outermostOf]
    exact ⟨c, hc, hmem⟩

/-- The strings of two paths, of which one is at or below the other. -/
theorem atOrBelow_iff {p q : List Bytes} (hp : ∀ x ∈ p, (47 : UInt8) ∉ x)
    (hq : ∀ x ∈ q, (47 : UInt8) ∉ x) :
    AtOrBelow (relativePath p) (relativePath q) ↔ q <+: p := by
  constructor
  · rintro (heq | hpre)
    · rw [relativePath_inj hp hq heq]
    · exact (prefix_of_relativePath hp hq hpre).1
  · rintro ⟨r, rfl⟩
    rw [relativePath_append]
    rcases relativePath_cases r with hnil | ⟨tail, hcons⟩
    · rw [hnil, List.append_nil]
      exact .inl rfl
    · rw [hcons]
      right
      exact ⟨tail, by rw [List.append_assoc]; rfl⟩

end Refinement

/-- In every jail, what is listed are the outermost directories that some prisoner may write. -/
theorem isWalk_getWritableDirsInDir (cfg : Configuration) (jail : JailEntry)
    (h : WellNamed jail) : IsWalk cfg jail (getWritableDirsInDir cfg cfg.jailPath jail) := by
  have hdirs : getWritableDirsInDir cfg cfg.jailPath jail = (walk cfg jail).map relativePath := by
    rw [getWritableDirsInDir_eq jail h]
    exact List.map_congr_left fun p _ => List.drop_left
  have hnames {p : List Bytes} (hp : p ∈ walk cfg jail) : ∀ x ∈ p, (47 : UInt8) ∉ x :=
    isName_of_nodeAt h ((mem_walk h).mp hp).1.writable
  have hantichain {p q : List Bytes} (hp : p ∈ walk cfg jail) (hq : q ∈ walk cfg jail)
      (hpre : q <+: p) : q = p := by
    by_contra hne
    obtain ⟨houtermost, -⟩ := (mem_walk h).mp hq
    exact ((mem_walk h).mp hp).1.outermost q houtermost.below hpre hne houtermost.writable
  rw [hdirs]
  refine ⟨fun dir => ?_, ?_, ?_, ?_, fun hreadable p => isSeen_of_readable hreadable⟩
  · simp only [List.mem_map, mem_walk h, and_assoc]
    exact exists_congr fun p => and_congr_right fun _ => and_congr_right fun _ => eq_comm
  · exact (nodup_walk h).map_on fun p hp q hq heq => relativePath_inj (hnames hp) (hnames hq) heq
  · intro dir hdir dir' hdir' hbelow
    obtain ⟨p, hp, rfl⟩ := List.mem_map.mp hdir
    obtain ⟨q, hq, rfl⟩ := List.mem_map.mp hdir'
    rw [hantichain hp hq ((atOrBelow_iff (hnames hp) (hnames hq)).mp hbelow)]
  · intro p hnil hwritable hseen
    have hp := isName_of_nodeAt h hwritable
    obtain ⟨q, hpre, hq⟩ := exists_prefix_mem_walk h hnil hwritable hseen
    refine ⟨relativePath q, ⟨List.mem_map_of_mem hq, ?_⟩, ?_⟩
    · exact (atOrBelow_iff hp (hnames hq)).mpr hpre
    · rintro dir ⟨hdir, hbelow⟩
      obtain ⟨r, hr, rfl⟩ := List.mem_map.mp hdir
      have hrprefix := (atOrBelow_iff hp (hnames hr)).mp hbelow
      -- of two that it is in, one would be in the other
      rcases List.prefix_or_prefix_of_prefix hpre hrprefix with hle | hle
      · rw [hantichain hr hq hle]
      · rw [hantichain hq hr hle]

/-- A jail with a directory for all, and a link to it. -/
def smallJail : JailEntry :=
  .node ⟨0o755, 0, 0, true, true⟩
    [(ascii "tmp", .node ⟨0o1777, 0, 0, true, true⟩ []),
      (ascii "var", .leaf (.link ⟨0, 0⟩ (ascii "/tmp")))]

theorem isWalk_smallJail : IsWalk default smallJail [ascii "/tmp"] := by
  have hname (x : Bytes) (h : x = ascii "tmp" ∨ x = ascii "var") : IsName x := by
    rcases h with rfl | rfl <;> exact ⟨by decide, by decide, by decide⟩
  have hnamed : WellNamed smallJail := by
    refine wellNamed_node _ (by decide) fun x c hc => ?_
    simp only [List.mem_cons, Prod.mk.injEq, List.not_mem_nil, or_false] at hc
    rcases hc with ⟨rfl, rfl⟩ | ⟨rfl, rfl⟩
    · exact ⟨hname _ (.inl rfl), wellNamed_node _ List.nodup_nil fun _ _ hc => by cases hc⟩
    · exact ⟨hname _ (.inr rfl), wellNamed_leaf _⟩
  exact isWalk_getWritableDirsInDir default smallJail hnamed

end VplJail.Configuration
