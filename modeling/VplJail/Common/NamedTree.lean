import Mathlib.Data.List.Nodup
import Mathlib.Data.List.Lookmap
import Mathlib.Data.List.Perm.Lattice

/-!
# Trees of named entries

A tree has leaves, and nodes whose children have names. A path is the list of names from the root.
`prune` removes the entries whose labels are dead, each with all that is below it: what remains are
the paths on which no label is dead (`label_at_prune`).
-/

namespace VplJail

/-- A tree with names `ν`, leaves `β` and nodes `δ`. -/
inductive NamedTree (ν β δ : Type)
  | leaf (b : β)
  | node (d : δ) (children : List (ν × NamedTree ν β δ))

namespace NamedTree

variable {ν β δ : Type}

/-- The children of a tree by their names. -/
def children : NamedTree ν β δ → List (ν × NamedTree ν β δ)
  | leaf _ => []
  | node _ cs => cs

/-- What is at the root of a tree. -/
def label : NamedTree ν β δ → β ⊕ δ
  | leaf b => .inl b
  | node d _ => .inr d

mutual

/-- The paths of a tree, its own first. -/
def paths : NamedTree ν β δ → List (List ν)
  | leaf _ => [[]]
  | node _ cs => [] :: pathsOf cs

/-- The paths of some children. -/
def pathsOf : List (ν × NamedTree ν β δ) → List (List ν)
  | [] => []
  | (x, c) :: cs => (paths c).map (x :: ·) ++ pathsOf cs

end

mutual

/-- The tree without the entries that are dead, and what is below them. -/
def prune (dead : β ⊕ δ → Bool) : NamedTree ν β δ → Option (NamedTree ν β δ)
  | leaf b => if dead (.inl b) then none else some (leaf b)
  | node d cs => if dead (.inr d) then none else some (node d (pruneOf dead cs))

/-- The children that remain. -/
def pruneOf (dead : β ⊕ δ → Bool) : List (ν × NamedTree ν β δ) → List (ν × NamedTree ν β δ)
  | [] => []
  | (x, c) :: cs =>
      match prune dead c with
      | none => pruneOf dead cs
      | some c => (x, c) :: pruneOf dead cs

end

theorem paths_eq (t : NamedTree ν β δ) : t.paths = [] :: pathsOf t.children := by
  cases t <;> simp [paths, children, pathsOf]

theorem nil_notMem_pathsOf (cs : List (ν × NamedTree ν β δ)) : [] ∉ pathsOf cs := by
  induction cs with
  | nil => exact List.not_mem_nil
  | cons head cs ih =>
    obtain ⟨x, c⟩ := head
    simp [pathsOf, ih]

theorem cons_mem_pathsOf {cs : List (ν × NamedTree ν β δ)} {x : ν} {p : List ν} :
    x :: p ∈ pathsOf cs ↔ ∃ c, (x, c) ∈ cs ∧ p ∈ c.paths := by
  induction cs with
  | nil => simp [pathsOf]
  | cons head cs ih =>
    obtain ⟨y, d⟩ := head
    rw [pathsOf, List.mem_append, ih]
    simp only [List.mem_map, List.cons.injEq, List.mem_cons, Prod.mk.injEq]
    constructor
    · rintro (⟨q, hq, rfl, rfl⟩ | ⟨c, hc, hp⟩)
      · exact ⟨d, .inl ⟨rfl, rfl⟩, hq⟩
      · exact ⟨c, .inr hc, hp⟩
    · rintro ⟨c, ⟨rfl, rfl⟩ | hc, hp⟩
      · exact .inl ⟨p, hp, rfl, rfl⟩
      · exact .inr ⟨c, hc, hp⟩

theorem prune_eq (dead : β ⊕ δ → Bool) (t : NamedTree ν β δ) :
    (t.prune dead).map label = if dead t.label then none else some t.label := by
  cases t with
  | leaf b =>
    rw [prune, label]
    split <;> rfl
  | node d cs =>
    rw [prune, label]
    split <;> rfl

theorem prune_eq_none_iff {dead : β ⊕ δ → Bool} {t : NamedTree ν β δ} :
    t.prune dead = none ↔ dead t.label = true := by
  rw [← Option.map_eq_none_iff (f := label), prune_eq]
  split <;> simp [*]

/-- The root of a tree that remains is not dead. -/
theorem label_of_prune {dead : β ⊕ δ → Bool} {t t' : NamedTree ν β δ} (h : t.prune dead = some t') :
    dead t'.label = false := by
  have hlabel := prune_eq dead t
  rw [h] at hlabel
  split at hlabel
  · cases hlabel
  · rename_i hdead
    rw [Option.some.inj hlabel]
    exact Bool.eq_false_iff.mpr hdead

/-- The children of a tree that remains. -/
theorem children_of_prune {dead : β ⊕ δ → Bool} {t t' : NamedTree ν β δ}
    (h : t.prune dead = some t') : t'.children = pruneOf dead t.children := by
  cases t with
  | leaf b =>
    rw [prune] at h
    split at h
    · cases h
    · rw [← Option.some.inj h]
      rfl
  | node d cs =>
    rw [prune] at h
    split at h
    · cases h
    · rw [← Option.some.inj h]
      rfl

theorem pruneOf_sublist (dead : β ⊕ δ → Bool) (cs : List (ν × NamedTree ν β δ)) :
    ((pruneOf dead cs).map Prod.fst).Sublist (cs.map Prod.fst) := by
  induction cs with
  | nil => exact List.Sublist.slnil
  | cons c cs ih =>
    obtain ⟨x, c⟩ := c
    rw [pruneOf]
    cases prune dead c with
    | none => exact ih.cons x
    | some c' => exact ih.cons_cons x

mutual

/-- A tree that is pruned stays as it is, or fewer paths remain. -/
theorem prune_eq_or_lt (dead : β ⊕ δ → Bool) : (t : NamedTree ν β δ) →
    t.prune dead = some t ∨ ∀ t', t.prune dead = some t' → t'.paths.length < t.paths.length
  | leaf b => by
    rw [prune]
    split
    · exact .inr fun t' h => by cases h
    · exact .inl rfl
  | node d cs => by
    rw [prune]
    split
    · exact .inr fun t' h => by cases h
    rcases pruneOf_eq_or_lt dead cs with heq | hlt
    · rw [heq]
      exact .inl rfl
    · refine .inr fun t' h => ?_
      rw [← Option.some.inj h, paths, paths]
      exact Nat.succ_lt_succ hlt

/-- Children that are pruned stay as they are, or fewer paths remain. -/
theorem pruneOf_eq_or_lt (dead : β ⊕ δ → Bool) : (cs : List (ν × NamedTree ν β δ)) →
    pruneOf dead cs = cs ∨ (pathsOf (pruneOf dead cs)).length < (pathsOf cs).length
  | [] => .inl rfl
  | (x, c) :: cs => by
    have hpos : 0 < c.paths.length := by
      rw [paths_eq]
      exact Nat.succ_pos _
    have hrest := pruneOf_eq_or_lt dead cs
    rw [pruneOf]
    cases hc : c.prune dead with
    | none =>
      right
      show (pathsOf (pruneOf dead cs)).length < _
      rw [pathsOf, List.length_append, List.length_map]
      rcases hrest with heq | hlt
      · rw [heq]
        omega
      · omega
    | some c' =>
      simp only [pathsOf, List.length_append, List.length_map]
      rcases prune_eq_or_lt dead c with hsame | hless
      · obtain rfl := Option.some.inj (hc.symm.trans hsame)
        exact hrest.imp (congrArg _) fun hlt => by omega
      · have hlt := hless c' hc
        rcases hrest with heq | hlt'
        · rw [heq]
          exact .inr (by omega)
        · exact .inr (by omega)

end

section At

variable [DecidableEq ν]

/-- The tree at a path. -/
def at? (t : NamedTree ν β δ) : List ν → Option (NamedTree ν β δ)
  | [] => some t
  | x :: p => (t.children.lookup x).bind (at? · p)

/-- No directory has two entries of one name. -/
def Distinct (t : NamedTree ν β δ) : Prop :=
  ∀ p t', t.at? p = some t' → (t'.children.map Prod.fst).Nodup

theorem Distinct.root {t : NamedTree ν β δ} (h : t.Distinct) : (t.children.map Prod.fst).Nodup :=
  h [] t rfl

theorem Distinct.child {t c : NamedTree ν β δ} {x : ν} (h : t.Distinct)
    (hc : t.children.lookup x = some c) : c.Distinct := by
  intro p t' ht'
  refine h (x :: p) t' ?_
  rw [at?, hc]
  exact ht'

theorem distinct_leaf (b : β) : (leaf b : NamedTree ν β δ).Distinct := by
  intro p t' ht'
  cases p with
  | nil =>
    obtain rfl := Option.some.inj ht'
    exact List.nodup_nil
  | cons x p => cases ht'

/-- A directory of different names has distinct entries if the children have. -/
theorem distinct_node (d : δ) {cs : List (ν × NamedTree ν β δ)} (h : (cs.map Prod.fst).Nodup)
    (hcs : ∀ x c, cs.lookup x = some c → c.Distinct) : (node d cs).Distinct := by
  intro p t' ht'
  cases p with
  | nil =>
    obtain rfl := Option.some.inj ht'
    exact h
  | cons x p =>
    obtain ⟨c, hc, ht'⟩ := Option.bind_eq_some_iff.mp ht'
    exact hcs x c hc p t' ht'

/-- Among children of different names, the one of a name is found. -/
theorem lookup_eq_some_iff {cs : List (ν × NamedTree ν β δ)} (h : (cs.map Prod.fst).Nodup) {x : ν}
    {c : NamedTree ν β δ} : cs.lookup x = some c ↔ (x, c) ∈ cs := by
  induction cs with
  | nil => simp
  | cons head cs ih =>
    obtain ⟨y, d⟩ := head
    rw [List.map_cons, List.nodup_cons] at h
    rw [List.lookup_cons, List.mem_cons, Prod.mk.injEq]
    cases hxy : x == y with
    | true =>
      rw [beq_iff_eq] at hxy
      subst hxy
      have hnot : (x, c) ∉ cs := fun hmem => h.1 (List.mem_map.mpr ⟨_, hmem, rfl⟩)
      simp [hnot, eq_comm]
    | false =>
      rw [beq_eq_false_iff_ne] at hxy
      simp [hxy, ih h.2]

/-- The paths of a tree are those where there is a tree. -/
theorem mem_paths {t : NamedTree ν β δ} (h : t.Distinct) {p : List ν} :
    p ∈ t.paths ↔ (t.at? p).isSome = true := by
  induction p generalizing t with
  | nil => simp [paths_eq, at?]
  | cons x p ih =>
    rw [paths_eq, List.mem_cons, cons_mem_pathsOf, at?]
    simp only [reduceCtorEq, false_or]
    constructor
    · rintro ⟨c, hc, hp⟩
      have hlookup := (lookup_eq_some_iff h.root).mpr hc
      rw [hlookup]
      exact (ih (h.child hlookup)).mp hp
    · intro hsome
      cases hlookup : t.children.lookup x with
      | none =>
        rw [hlookup] at hsome
        cases hsome
      | some c =>
        rw [hlookup] at hsome
        exact ⟨c, (lookup_eq_some_iff h.root).mp hlookup, (ih (h.child hlookup)).mpr hsome⟩

mutual

/-- No path is listed twice. -/
theorem nodup_paths : (t : NamedTree ν β δ) → t.Distinct → t.paths.Nodup
  | leaf _, _ => List.nodup_singleton []
  | node d cs, h => by
    have hcs : ∀ x c, (x, c) ∈ cs → c.Distinct := fun x c hc =>
      Distinct.child h ((lookup_eq_some_iff h.root).mpr hc)
    rw [paths, List.nodup_cons]
    exact ⟨nil_notMem_pathsOf cs, nodup_pathsOf cs h.root hcs⟩

theorem nodup_pathsOf : (cs : List (ν × NamedTree ν β δ)) → (cs.map Prod.fst).Nodup →
    (∀ x c, (x, c) ∈ cs → c.Distinct) → (pathsOf cs).Nodup
  | [], _, _ => List.nodup_nil
  | (x, c) :: cs, hnames, h => by
    rw [List.map_cons, List.nodup_cons] at hnames
    rw [pathsOf, List.nodup_append]
    refine ⟨?_, nodup_pathsOf cs hnames.2 fun y d hd => h y d (List.mem_cons_of_mem _ hd), ?_⟩
    · refine List.Nodup.map (fun p q heq => (List.cons.inj heq).2) ?_
      exact nodup_paths c (h x c List.mem_cons_self)
    · -- the names of the other children differ
      intro p hp q hq heq
      obtain ⟨p', -, rfl⟩ := List.mem_map.mp hp
      obtain ⟨c', hc', -⟩ := cons_mem_pathsOf.mp (heq ▸ hq)
      exact hnames.1 (List.mem_map.mpr ⟨_, hc', rfl⟩)

end

/-! ## What remains -/

/-- An entry is dead, or it is below one that is. -/
def IsDead (dead : β ⊕ δ → Bool) (t : NamedTree ν β δ) (p : List ν) : Prop :=
  ∃ q, q <+: p ∧ ∃ t', t.at? q = some t' ∧ dead t'.label = true

section Prune

variable {dead : β ⊕ δ → Bool} {t : NamedTree ν β δ}

theorem isDead_of_root (h : dead t.label = true) (p : List ν) : IsDead dead t p :=
  ⟨[], List.nil_prefix, t, rfl, h⟩

/-- Below a root that is not dead, the entries of a child that are dead. -/
theorem isDead_cons {x : ν} {p : List ν} (h : ¬ dead t.label = true) :
    IsDead dead t (x :: p) ↔ ∃ c, t.children.lookup x = some c ∧ IsDead dead c p := by
  constructor
  · rintro ⟨q, hq, t', ht', hdead⟩
    cases q with
    | nil =>
      obtain rfl := Option.some.inj ht'
      exact absurd hdead h
    | cons y q =>
      obtain ⟨rfl, hprefix⟩ := List.cons_prefix_cons.mp hq
      obtain ⟨c, hc, hat⟩ := Option.bind_eq_some_iff.mp ht'
      exact ⟨c, hc, q, hprefix, t', hat, hdead⟩
  · rintro ⟨c, hc, q, hq, t', ht', hdead⟩
    refine ⟨x :: q, List.cons_prefix_cons.mpr ⟨rfl, hq⟩, t', ?_, hdead⟩
    rw [at?, hc]
    exact ht'

/-- The child of a name that remains. -/
theorem lookup_pruneOf {cs : List (ν × NamedTree ν β δ)} (h : (cs.map Prod.fst).Nodup) (x : ν) :
    (pruneOf dead cs).lookup x = (cs.lookup x).bind (prune dead) := by
  have hnone (cs : List (ν × NamedTree ν β δ)) (hx : x ∉ cs.map Prod.fst) : cs.lookup x = none := by
    rw [List.lookup_eq_none_iff]
    exact fun c hc => bne_iff_ne.mpr fun heq => hx (List.mem_map.mpr ⟨c, hc, heq.symm⟩)
  induction cs with
  | nil => rfl
  | cons head cs ih =>
    obtain ⟨y, d⟩ := head
    rw [List.map_cons, List.nodup_cons] at h
    rw [pruneOf, List.lookup_cons]
    cases hxy : x == y with
    | true =>
      rw [beq_iff_eq] at hxy
      subst hxy
      cases hd : prune dead d with
      | none =>
        have hrest : x ∉ (pruneOf dead cs).map Prod.fst := fun hmem =>
          h.1 ((pruneOf_sublist dead cs).subset hmem)
        simp [hnone _ hrest, hd]
      | some d' => simp [hd]
    | false =>
      cases prune dead d with
      | none => exact ih h.2
      | some d' => rw [List.lookup_cons, hxy]; exact ih h.2

/-- A path into what remains of a root that is not dead. -/
theorem at?_prune_cons (h : t.Distinct) (hroot : ¬ dead t.label = true) (x : ν) (p : List ν) :
    (t.prune dead).bind (at? · (x :: p)) =
      ((t.children.lookup x).bind (prune dead)).bind (at? · p) := by
  cases hprune : t.prune dead with
  | none => exact absurd (prune_eq_none_iff.mp hprune) hroot
  | some t' =>
    show (t'.children.lookup x).bind (at? · p) = _
    rw [children_of_prune hprune, lookup_pruneOf h.root]

/-- Nothing that is dead remains. -/
theorem at?_prune_of_isDead (h : t.Distinct) {p : List ν} (hp : IsDead dead t p) :
    (t.prune dead).bind (at? · p) = none := by
  induction p generalizing t with
  | nil =>
    obtain ⟨q, hq, t', ht', hdead⟩ := hp
    obtain rfl := List.prefix_nil.mp hq
    obtain rfl := Option.some.inj ht'
    rw [prune_eq_none_iff.mpr hdead]
    rfl
  | cons x p ih =>
    by_cases hroot : dead t.label = true
    · rw [prune_eq_none_iff.mpr hroot]
      rfl
    · obtain ⟨c, hc, hdead⟩ := (isDead_cons hroot).mp hp
      rw [at?_prune_cons h hroot, hc]
      exact ih (h.child hc) hdead

/-- Elsewhere the tree that remains is the one that was there, pruned. -/
theorem at?_prune_of_not_isDead (h : t.Distinct) {p : List ν} (hp : ¬ IsDead dead t p) :
    (t.prune dead).bind (at? · p) = (t.at? p).bind (prune dead) := by
  induction p generalizing t with
  | nil =>
    show (t.prune dead).bind some = t.prune dead
    cases t.prune dead <;> rfl
  | cons x p ih =>
    have hroot : ¬ dead t.label = true := fun hdead => hp (isDead_of_root hdead _)
    rw [at?_prune_cons h hroot, at?]
    cases hc : t.children.lookup x with
    | none => rfl
    | some c => exact ih (h.child hc) fun hdead => hp ((isDead_cons hroot).mpr ⟨c, hc, hdead⟩)

/-- What is at a path of the tree that remains was there, and is not dead. -/
theorem at?_of_at?_prune (h : t.Distinct) {t' s' : NamedTree ν β δ} {p : List ν}
    (ht' : t.prune dead = some t') (hs' : t'.at? p = some s') :
    ¬ IsDead dead t p ∧ ∃ s, t.at? p = some s ∧ s.prune dead = some s' := by
  have hbind : (t.prune dead).bind (at? · p) = some s' := by
    rw [ht']
    exact hs'
  have hp : ¬ IsDead dead t p := by
    intro hdead
    rw [at?_prune_of_isDead h hdead] at hbind
    cases hbind
  rw [at?_prune_of_not_isDead h hp] at hbind
  exact ⟨hp, Option.bind_eq_some_iff.mp hbind⟩

/-- An entry that is not dead remains as it was. -/
theorem label_at?_prune (h : t.Distinct) {p : List ν} (hp : ¬ IsDead dead t p) :
    ((t.prune dead).bind (at? · p)).map label = (t.at? p).map label := by
  rw [at?_prune_of_not_isDead h hp]
  cases hs : t.at? p with
  | none => rfl
  | some s =>
    have hdead : ¬ dead s.label = true := fun hdead => hp ⟨p, List.prefix_rfl, s, hs, hdead⟩
    show (s.prune dead).map label = some s.label
    rw [prune_eq, if_neg hdead]

theorem Distinct.prune (h : t.Distinct) {t' : NamedTree ν β δ} (ht' : t.prune dead = some t') :
    t'.Distinct := by
  intro p s' hs'
  obtain ⟨-, s, hs, hprune⟩ := at?_of_at?_prune h ht' hs'
  rw [children_of_prune hprune]
  exact (pruneOf_sublist dead _).nodup (h p s hs)

/-- The paths that remain are those of the entries that are not dead. -/
theorem paths_prune_perm (h : t.Distinct) :
    (((t.prune dead).map paths).getD []).Perm
      (t.paths.filter fun p => ((t.prune dead).bind (at? · p)).isSome) := by
  have hsome {p : List ν} (hp : ((t.prune dead).bind (at? · p)).isSome = true) :
      (t.at? p).isSome = true := by
    have hnot : ¬ IsDead dead t p := by
      intro hdead
      rw [at?_prune_of_isDead h hdead] at hp
      cases hp
    rw [← Option.isSome_map, ← label_at?_prune h hnot, Option.isSome_map]
    exact hp
  have hnodup : (t.paths.filter fun p => ((t.prune dead).bind (at? · p)).isSome).Nodup :=
    (nodup_paths t h).filter _
  cases ht' : t.prune dead with
  | none =>
    simp
  | some t' =>
    rw [ht'] at hnodup hsome
    refine (List.perm_ext_iff_of_nodup (nodup_paths t' (h.prune ht')) hnodup).mpr fun p => ?_
    rw [mem_paths (h.prune ht'), List.mem_filter, mem_paths h]
    exact ⟨fun hp => ⟨hsome hp, hp⟩, fun hp => hp.2⟩

/-- The entries that remain and those that are gone are all. -/
theorem length_paths_prune (h : t.Distinct) (dead : β ⊕ δ → Bool) :
    (((t.prune dead).map paths).getD []).length +
        (t.paths.filter fun p => ((t.prune dead).bind (at? · p)).isNone).length =
      t.paths.length := by
  rw [(paths_prune_perm h).length_eq,
    List.length_eq_length_filter_add (l := t.paths) fun p =>
      ((t.prune dead).bind (at? · p)).isSome]
  simp only [Option.not_isSome]

end Prune

end At

end NamedTree

end VplJail
