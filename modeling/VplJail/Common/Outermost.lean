import VplJail.Common.NamedTree

/-!
# The outermost nodes of a tree

A walk through a tree of named entries lists the nodes that it is looking for and does not go on below
them. It enters the other nodes, unless they are shut. It lists every node that it looks for and that
is not shut off from the root, or one above it (`exists_prefix_mem_outermost`).
-/

namespace VplJail.NamedTree

variable {ν β δ : Type}

mutual

/-- The outermost nodes that are `hit`, where the walk goes through those to `enter`. -/
def outermost (hit enter : δ → Bool) : NamedTree ν β δ → List (List ν)
  | leaf _ => []
  | node d cs => if hit d then [[]] else if enter d then outermostOf hit enter cs else []

/-- The outermost nodes of some children. -/
def outermostOf (hit enter : δ → Bool) : List (ν × NamedTree ν β δ) → List (List ν)
  | [] => []
  | (x, c) :: cs => (outermost hit enter c).map (x :: ·) ++ outermostOf hit enter cs

end

section Lists

variable {hit enter : δ → Bool}

theorem nil_notMem_outermostOf (cs : List (ν × NamedTree ν β δ)) :
    [] ∉ outermostOf hit enter cs := by
  induction cs with
  | nil => exact List.not_mem_nil
  | cons head cs ih =>
    obtain ⟨x, c⟩ := head
    simp [outermostOf, ih]

theorem cons_mem_outermostOf {cs : List (ν × NamedTree ν β δ)} {x : ν} {p : List ν} :
    x :: p ∈ outermostOf hit enter cs ↔ ∃ c, (x, c) ∈ cs ∧ p ∈ outermost hit enter c := by
  induction cs with
  | nil => simp [outermostOf]
  | cons head cs ih =>
    obtain ⟨y, d⟩ := head
    rw [outermostOf, List.mem_append, ih]
    simp only [List.mem_map, List.cons.injEq, List.mem_cons, Prod.mk.injEq]
    constructor
    · rintro (⟨q, hq, rfl, rfl⟩ | ⟨c, hc, hp⟩)
      · exact ⟨d, .inl ⟨rfl, rfl⟩, hq⟩
      · exact ⟨c, .inr hc, hp⟩
    · rintro ⟨c, ⟨rfl, rfl⟩ | hc, hp⟩
      · exact .inl ⟨p, hp, rfl, rfl⟩
      · exact .inr ⟨c, hc, hp⟩

mutual

/-- The walk lists paths in the order of the tree. -/
theorem outermost_sublist : (t : NamedTree ν β δ) → (outermost hit enter t).Sublist t.paths
  | leaf _ => List.nil_sublist _
  | node d cs => by
    rw [outermost, paths]
    split
    · exact (List.nil_sublist _).cons_cons []
    split
    · exact (outermostOf_sublist cs).cons []
    · exact List.nil_sublist _

theorem outermostOf_sublist :
    (cs : List (ν × NamedTree ν β δ)) → (outermostOf hit enter cs).Sublist (pathsOf cs)
  | [] => List.nil_sublist _
  | (x, c) :: cs => by
    rw [outermostOf, pathsOf]
    exact ((outermost_sublist c).map _).append (outermostOf_sublist cs)

end

end Lists

/-! ## The nodes listed -/

section At

variable [DecidableEq ν]

/-- There is a node with the property at a path. -/
def NodeAt (t : NamedTree ν β δ) (p : List ν) (P : δ → Prop) : Prop :=
  ∃ d cs, t.at? p = some (node d cs) ∧ P d

theorem nodeAt_nil {d : δ} {cs : List (ν × NamedTree ν β δ)} {P : δ → Prop} :
    NodeAt (node d cs) [] P ↔ P d := by
  constructor
  · rintro ⟨d', cs', hat, hP⟩
    cases hat
    exact hP
  · exact fun hP => ⟨d, cs, rfl, hP⟩

theorem not_nodeAt_leaf {b : β} {p : List ν} {P : δ → Prop} :
    ¬ NodeAt (leaf b : NamedTree ν β δ) p P := by
  rintro ⟨d, cs, hat, -⟩
  cases p <;> cases hat

theorem nodeAt_cons {t : NamedTree ν β δ} {x : ν} {p : List ν} {P : δ → Prop} :
    NodeAt t (x :: p) P ↔ ∃ c, t.children.lookup x = some c ∧ NodeAt c p P := by
  constructor
  · rintro ⟨d, cs, hat, hP⟩
    obtain ⟨c, hc, hat⟩ := Option.bind_eq_some_iff.mp hat
    exact ⟨c, hc, d, cs, hat, hP⟩
  · rintro ⟨c, hc, d, cs, hat, hP⟩
    refine ⟨d, cs, ?_, hP⟩
    rw [at?, hc]
    exact hat

theorem NodeAt.mono {t : NamedTree ν β δ} {p : List ν} {P Q : δ → Prop} (h : NodeAt t p P)
    (hPQ : ∀ d, P d → Q d) : NodeAt t p Q := by
  obtain ⟨d, cs, hat, hP⟩ := h
  exact ⟨d, cs, hat, hPQ d hP⟩

/-- What is known of the node at a path. -/
theorem NodeAt.and {t : NamedTree ν β δ} {p : List ν} {P Q : δ → Prop} (h : NodeAt t p P)
    (h' : NodeAt t p Q) : NodeAt t p fun d => P d ∧ Q d := by
  obtain ⟨d, cs, hat, hP⟩ := h
  obtain ⟨d', cs', hat', hQ⟩ := h'
  cases hat.symm.trans hat'
  exact ⟨d, cs, hat, hP, hQ⟩

theorem NodeAt.and_not {t : NamedTree ν β δ} {p : List ν} {P Q : δ → Prop} (h : NodeAt t p P)
    (h' : ¬ NodeAt t p Q) : NodeAt t p fun d => P d ∧ ¬ Q d := by
  obtain ⟨d, cs, hat, hP⟩ := h
  exact ⟨d, cs, hat, hP, fun hQ => h' ⟨d, cs, hat, hQ⟩⟩

/-- Above a node there are nodes. -/
theorem NodeAt.of_prefix {t : NamedTree ν β δ} {p q : List ν} {P : δ → Prop} (h : NodeAt t p P)
    (hq : q <+: p) : NodeAt t q fun _ => True := by
  induction p generalizing t q with
  | nil =>
    rw [List.prefix_nil.mp hq]
    exact h.mono fun _ _ => trivial
  | cons x p ih =>
    obtain ⟨c, hc, hp⟩ := nodeAt_cons.mp h
    cases q with
    | nil =>
      cases t with
      | leaf b => exact absurd h not_nodeAt_leaf
      | node d cs => exact nodeAt_nil.mpr trivial
    | cons y q =>
      obtain ⟨rfl, hq'⟩ := List.cons_prefix_cons.mp hq
      exact nodeAt_cons.mpr ⟨c, hc, ih hp hq'⟩

/-- The node at a path below a child is the one in the child. -/
theorem nodeAt_of_cons {t c : NamedTree ν β δ} {x : ν} {p : List ν} {P : δ → Prop}
    (hc : t.children.lookup x = some c) (h : NodeAt t (x :: p) P) : NodeAt c p P := by
  obtain ⟨c', hc', hp⟩ := nodeAt_cons.mp h
  obtain rfl := Option.some.inj (hc.symm.trans hc')
  exact hp

variable {hit enter : δ → Bool}

/-- What the walk lists: a node that is hit and that is reached through others. -/
theorem mem_outermost {t : NamedTree ν β δ} (h : t.Distinct) {p : List ν} :
    p ∈ outermost hit enter t ↔ NodeAt t p (fun d => hit d = true) ∧
      ∀ q, q <+: p → q ≠ p → NodeAt t q fun d => hit d = false ∧ enter d = true := by
  induction p generalizing t with
  | nil =>
    have hvacuous : ∀ q : List ν, q <+: [] → q ≠ [] →
        NodeAt t q fun d => hit d = false ∧ enter d = true :=
      fun q hq hne => absurd (List.prefix_nil.mp hq) hne
    rw [and_iff_left hvacuous]
    cases t with
    | leaf b => exact iff_of_false (by simp [outermost]) not_nodeAt_leaf
    | node d cs =>
      rw [outermost, nodeAt_nil]
      split
      · rename_i hhit
        exact iff_of_true (List.mem_singleton_self _) hhit
      · rename_i hhit
        refine iff_of_false ?_ hhit
        split
        · exact nil_notMem_outermostOf cs
        · exact List.not_mem_nil
  | cons x p ih =>
    cases t with
    | leaf b => exact iff_of_false (by simp [outermost]) fun hp => not_nodeAt_leaf hp.1
    | node d cs =>
      have hchild : x :: p ∈ outermostOf hit enter cs ↔
          ∃ c, cs.lookup x = some c ∧ p ∈ outermost hit enter c := by
        rw [cons_mem_outermostOf]
        exact exists_congr fun c => and_congr_left fun _ => (lookup_eq_some_iff h.root).symm
      rw [outermost]
      constructor
      · -- a path below the root is listed only if the root is entered without being hit
        intro hmem
        split at hmem
        · exact absurd (List.mem_singleton.mp hmem) (List.cons_ne_nil x p)
        split at hmem
        swap
        · exact absurd hmem List.not_mem_nil
        rename_i hhit henter
        obtain ⟨c, hc, hp⟩ := hchild.mp hmem
        obtain ⟨hnode, habove⟩ := (ih (h.child hc)).mp hp
        refine ⟨nodeAt_cons.mpr ⟨c, hc, hnode⟩, fun q hq hne => ?_⟩
        cases q with
        | nil => exact nodeAt_nil.mpr ⟨(Bool.not_eq_true _).mp hhit, henter⟩
        | cons y q =>
          obtain ⟨rfl, hq'⟩ := List.cons_prefix_cons.mp hq
          exact nodeAt_cons.mpr ⟨c, hc, habove q hq' fun heq => hne (heq ▸ rfl)⟩
      · rintro ⟨hnode, habove⟩
        obtain ⟨hhit, henter⟩ :=
          nodeAt_nil.mp (habove [] List.nil_prefix (List.cons_ne_nil x p).symm)
        rw [if_neg (by rw [hhit]; exact Bool.false_ne_true), if_pos henter]
        obtain ⟨c, hc, hp⟩ := nodeAt_cons.mp hnode
        refine hchild.mpr ⟨c, hc, (ih (h.child hc)).mpr ⟨hp, fun q hq hne => ?_⟩⟩
        refine nodeAt_of_cons hc (habove (x :: q) (List.cons_prefix_cons.mpr ⟨rfl, hq⟩) ?_)
        exact fun heq => hne (List.cons.inj heq).2

/-- A node that is hit and that nothing shuts off is listed, or one above it. -/
theorem exists_prefix_mem_outermost {t : NamedTree ν β δ} (h : t.Distinct) {p : List ν}
    (hp : NodeAt t p fun d => hit d = true)
    (habove : ∀ q, q <+: p → q ≠ p → NodeAt t q fun d => hit d = true ∨ enter d = true) :
    ∃ q, q <+: p ∧ q ∈ outermost hit enter t := by
  induction p generalizing t with
  | nil =>
    refine ⟨[], List.nil_prefix, (mem_outermost h).mpr ⟨hp, fun q hq hne => ?_⟩⟩
    exact absurd (List.prefix_nil.mp hq) hne
  | cons x p ih =>
    cases t with
    | leaf b => exact absurd hp not_nodeAt_leaf
    | node d cs =>
      cases hhit : hit d with
      | true =>
        refine ⟨[], List.nil_prefix, ?_⟩
        rw [outermost, if_pos hhit]
        exact List.mem_singleton_self _
      | false =>
        have henter : enter d = true := by
          have hroot := nodeAt_nil.mp (habove [] List.nil_prefix (List.cons_ne_nil x p).symm)
          rwa [hhit, or_iff_right Bool.false_ne_true] at hroot
        obtain ⟨c, hc, hp⟩ := nodeAt_cons.mp hp
        obtain ⟨q, hq, hmem⟩ := ih (h.child hc) hp fun q hq hne =>
          nodeAt_of_cons hc (habove (x :: q) (List.cons_prefix_cons.mpr ⟨rfl, hq⟩)
            fun heq => hne (List.cons.inj heq).2)
        refine ⟨x :: q, List.cons_prefix_cons.mpr ⟨rfl, hq⟩, ?_⟩
        rw [outermost, if_neg (by rw [hhit]; exact Bool.false_ne_true), if_pos henter,
          cons_mem_outermostOf]
        exact ⟨c, (lookup_eq_some_iff h.root).mp hc, hmem⟩

end At

end VplJail.NamedTree
