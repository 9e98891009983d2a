import Mathlib.Data.List.Basic
import Mathlib.Logic.Relation

/-!
# File trees

A tree of directories, files and symbolic links, whose nodes are the places of a list and whose root
is the first of them. `Names` says which node a path names, where links are followed, `resolve` finds
this node as long as there are not too many links, and `Beneath` says which nodes are reached from a
directory through its entries alone.
-/

namespace VplJail

/-- The steps of a path. -/
inductive Component (ν : Type)
  | here
  | up
  | name (x : ν)
deriving DecidableEq, Repr

/-- A node. A link has the components of its target, which may start at the root. -/
inductive Node (ν : Type)
  | directory (parent : ℕ) (entries : ν → Option ℕ)
  | file
  | link (absolute : Bool) (target : List (Component ν))

/-- A file tree. -/
structure FileTree (ν : Type) where
  nodes : List (Node ν)

namespace FileTree

variable {ν : Type}

/-- The node of an entry of a directory. -/
def entry (t : FileTree ν) (d : ℕ) (x : ν) : Option ℕ :=
  match t.nodes[d]? with
  | some (.directory _ entries) => entries x
  | _ => none

/-- The directory that a directory is in. -/
def parent (t : FileTree ν) (d : ℕ) : Option ℕ :=
  match t.nodes[d]? with
  | some (.directory parent _) => some parent
  | _ => none

/-- A directory. -/
def isDirectory (t : FileTree ν) (d : ℕ) : Bool :=
  (t.parent d).isSome

/-- The target of a link. -/
def target (t : FileTree ν) (n : ℕ) : Option (Bool × List (Component ν)) :=
  match t.nodes[n]? with
  | some (.link absolute target) => some (absolute, target)
  | _ => none

/-- Where the target of a link in the directory `d` starts. -/
def base (absolute : Bool) (d : ℕ) : ℕ :=
  if absolute then 0 else d

/-! ## Paths -/

/-- The node that a path names, from a directory on. -/
inductive Names (t : FileTree ν) : ℕ → List (Component ν) → ℕ → Prop
  | nil (d : ℕ) : Names t d [] d
  | here {d n : ℕ} {cs : List (Component ν)} (hd : t.isDirectory d = true) (h : Names t d cs n) :
      Names t d (.here :: cs) n
  | up {d p n : ℕ} {cs : List (Component ν)} (hp : t.parent d = some p) (h : Names t p cs n) :
      Names t d (.up :: cs) n
  | name {d m n : ℕ} {x : ν} {cs : List (Component ν)} (hm : t.entry d x = some m)
      (hlink : t.target m = none) (h : Names t m cs n) : Names t d (.name x :: cs) n
  | link {d m n : ℕ} {x : ν} {absolute : Bool} {target cs : List (Component ν)}
      (hm : t.entry d x = some m) (hlink : t.target m = some (absolute, target))
      (h : Names t (base absolute d) (target ++ cs) n) : Names t d (.name x :: cs) n

/-- A path names at most one node. -/
theorem Names.unique {t : FileTree ν} {d n n' : ℕ} {cs : List (Component ν)} (h : Names t d cs n)
    (h' : Names t d cs n') : n = n' := by
  induction h with
  | nil d =>
    cases h'
    rfl
  | here hd h ih =>
    cases h' with
    | here hd' h' => exact ih h'
  | up hp h ih =>
    cases h' with
    | up hp' h' =>
      obtain rfl := Option.some.inj (hp.symm.trans hp')
      exact ih h'
  | name hm hlink h ih =>
    cases h' with
    | name hm' hlink' h' =>
      obtain rfl := Option.some.inj (hm.symm.trans hm')
      exact ih h'
    | link hm' hlink' h' =>
      obtain rfl := Option.some.inj (hm.symm.trans hm')
      cases hlink.symm.trans hlink'
  | link hm hlink h ih =>
    cases h' with
    | name hm' hlink' h' =>
      obtain rfl := Option.some.inj (hm.symm.trans hm')
      cases hlink.symm.trans hlink'
    | link hm' hlink' h' =>
      obtain rfl := Option.some.inj (hm.symm.trans hm')
      cases hlink.symm.trans hlink'
      exact ih h'

/-- A path may be walked in parts. -/
theorem Names.append {t : FileTree ν} {d m n : ℕ} {cs cs' : List (Component ν)}
    (h : Names t d cs m) (h' : Names t m cs' n) : Names t d (cs ++ cs') n := by
  induction h with
  | nil d => exact h'
  | here hd h ih => exact .here hd (ih h')
  | up hp h ih => exact .up hp (ih h')
  | name hm hlink h ih => exact .name hm hlink (ih h')
  | link hm hlink h ih => exact .link hm hlink (List.append_assoc _ _ _ ▸ ih h')

/-- The node that a path names, where at most `limit` links are followed. -/
def resolve (t : FileTree ν) (limit d : ℕ) : List (Component ν) → Option ℕ
  | [] => some d
  | .here :: cs => if t.isDirectory d then resolve t limit d cs else none
  | .up :: cs =>
      match t.parent d with
      | none => none
      | some p => resolve t limit p cs
  | .name x :: cs =>
      match t.entry d x with
      | none => none
      | some m =>
          match t.target m, limit with
          | none, limit => resolve t limit m cs
          | some _, 0 => none
          | some (absolute, target), limit + 1 => resolve t limit (base absolute d) (target ++ cs)
termination_by cs => (limit, cs.length)

theorem names_of_resolve {t : FileTree ν} {limit d n : ℕ} {cs : List (Component ν)}
    (h : resolve t limit d cs = some n) : Names t d cs n := by
  induction limit, d, cs using resolve.induct t with
  | case1 limit d =>
    rw [resolve] at h
    cases h
    exact .nil _
  | case2 limit d cs hd ih =>
    rw [resolve, if_pos hd] at h
    exact .here hd (ih h)
  | case3 limit d cs hd =>
    rw [resolve, if_neg hd] at h
    cases h
  | case4 limit d cs hp =>
    rw [resolve, hp] at h
    cases h
  | case5 limit d cs p hp ih =>
    rw [resolve, hp] at h
    exact .up hp (ih h)
  | case6 limit d x cs hm =>
    rw [resolve, hm] at h
    cases h
  | case7 d x cs m hm limit hlink ih =>
    rw [resolve, hm] at h
    simp only [hlink] at h
    exact .name hm hlink (ih h)
  | case8 d x cs m hm link hlink =>
    rw [resolve, hm] at h
    simp only [hlink] at h
    cases h
  | case9 d x cs m hm absolute target limit hlink ih =>
    rw [resolve, hm] at h
    simp only [hlink] at h
    exact .link hm hlink (ih h)

/-! ## Nodes beneath a directory -/

/-- The nodes reached from a directory through entries, never through a link or upwards. -/
inductive Beneath (t : FileTree ν) (top : ℕ) : ℕ → Prop
  | top : Beneath t top top
  | entry {d n : ℕ} {x : ν} (hd : Beneath t top d) (hn : t.entry d x = some n)
      (hlink : t.target n = none) : Beneath t top n

theorem exists_of_isDirectory {t : FileTree ν} {d : ℕ} (h : t.isDirectory d = true) :
    ∃ parent entries, t.nodes[d]? = some (.directory parent entries) := by
  rw [isDirectory, parent] at h
  split at h
  · rename_i parent entries hnode
    exact ⟨parent, entries, hnode⟩
  · cases h

theorem lt_length_of_isDirectory {t : FileTree ν} {d : ℕ} (h : t.isDirectory d = true) :
    d < t.nodes.length := by
  obtain ⟨parent, entries, hnode⟩ := exists_of_isDirectory h
  exact (List.getElem?_eq_some_iff.mp hnode).1

/-- The tree with a new node in a directory. -/
def add [DecidableEq ν] (t : FileTree ν) (d : ℕ) (x : ν) (node : Node ν) : FileTree ν :=
  match t.nodes[d]? with
  | some (.directory parent entries) =>
      ⟨t.nodes.set d (.directory parent (Function.update entries x (some t.nodes.length))) ++ [node]⟩
  | _ => t

section Add

variable [DecidableEq ν] {t : FileTree ν} {d : ℕ} {x : ν} {node : Node ν}

variable (x node) in
theorem nodes_add (h : t.isDirectory d = true) :
    ∃ parent entries, t.nodes[d]? = some (.directory parent entries) ∧
      (t.add d x node).nodes =
        t.nodes.set d (.directory parent (Function.update entries x (some t.nodes.length))) ++
          [node] := by
  obtain ⟨parent, entries, hnode⟩ := exists_of_isDirectory h
  refine ⟨parent, entries, hnode, ?_⟩
  rw [add, hnode]

/-- The new node. -/
theorem nodes_add_length (h : t.isDirectory d = true) :
    (t.add d x node).nodes[t.nodes.length]? = some node := by
  obtain ⟨parent, entries, -, hadd⟩ := nodes_add x node h
  rw [hadd, List.getElem?_append_right (Nat.le_of_eq List.length_set), List.length_set, Nat.sub_self]
  rfl

variable (x node) in
/-- The directory with the new entry. -/
theorem nodes_add_self (h : t.isDirectory d = true) :
    ∃ parent entries, t.nodes[d]? = some (.directory parent entries) ∧
      (t.add d x node).nodes[d]? =
        some (.directory parent (Function.update entries x (some t.nodes.length))) := by
  obtain ⟨parent, entries, hnode, hadd⟩ := nodes_add x node h
  have hlt := lt_length_of_isDirectory h
  refine ⟨parent, entries, hnode, ?_⟩
  rw [hadd, List.getElem?_append_left (by rwa [List.length_set]), List.getElem?_set_self hlt]

/-- The other nodes stay as they are. -/
theorem nodes_add_of_ne (h : t.isDirectory d = true) {n : ℕ} (hd : n ≠ d)
    (hn : n ≠ t.nodes.length) : (t.add d x node).nodes[n]? = t.nodes[n]? := by
  obtain ⟨parent, entries, -, hadd⟩ := nodes_add x node h
  rw [hadd]
  rcases Nat.lt_or_gt_of_ne hn with hlt | hgt
  · rw [List.getElem?_append_left (by rwa [List.length_set]), List.getElem?_set_ne hd.symm]
  · rw [List.getElem?_eq_none, List.getElem?_eq_none (Nat.le_of_lt hgt)]
    rw [List.length_append, List.length_set, List.length_singleton]
    exact hgt

theorem entry_add_self (h : t.isDirectory d = true) :
    (t.add d x node).entry d x = some t.nodes.length := by
  obtain ⟨parent, entries, -, hself⟩ := nodes_add_self x node h
  rw [entry, hself]
  exact Function.update_self _ _ _

/-- The entries there were are kept. -/
theorem entry_add (h : t.isDirectory d = true) (hfree : t.entry d x = none) {d' n : ℕ} {y : ν}
    (hn : t.entry d' y = some n) : (t.add d x node).entry d' y = some n := by
  have hlt : d' < t.nodes.length := by
    by_contra hge
    rw [entry, List.getElem?_eq_none (Nat.le_of_not_lt hge)] at hn
    cases hn
  by_cases hd : d' = d
  · subst hd
    obtain ⟨parent, entries, hnode, hself⟩ := nodes_add_self x node h
    rw [entry, hnode] at hn hfree
    have hxy : y ≠ x := by
      rintro rfl
      cases hfree.symm.trans hn
    rw [entry, hself]
    exact (Function.update_of_ne hxy _ _).trans hn
  · rwa [entry, nodes_add_of_ne h hd (Nat.ne_of_lt hlt)]

/-- What was no link is none, if the new node is none. -/
theorem target_add (h : t.isDirectory d = true)
    (hnode : ∀ absolute target, node ≠ .link absolute target) {n : ℕ} (hn : t.target n = none) :
    (t.add d x node).target n = none := by
  by_cases hd : n = d
  · obtain ⟨parent, entries, -, hself⟩ := nodes_add_self x node h
    rw [target, hd, hself]
  by_cases hlen : n = t.nodes.length
  · rw [target, hlen, nodes_add_length h]
    cases node with
    | link absolute target => exact absurd rfl (hnode absolute target)
    | _ => rfl
  · rwa [target, nodes_add_of_ne h hd hlen]

/-- What was beneath a directory stays beneath it. -/
theorem Beneath.add {top n : ℕ} (hn : Beneath t top n) (h : t.isDirectory d = true)
    (hfree : t.entry d x = none) (hnode : ∀ absolute target, node ≠ .link absolute target) :
    Beneath (t.add d x node) top n := by
  induction hn with
  | top => exact .top
  | entry hd hm hlink ih => exact .entry ih (entry_add h hfree hm) (target_add h hnode hlink)

/-- A new node in a directory beneath another is beneath it. -/
theorem Beneath.new {top : ℕ} (hd : Beneath t top d) (h : t.isDirectory d = true)
    (hfree : t.entry d x = none) (hnode : ∀ absolute target, node ≠ .link absolute target) :
    Beneath (t.add d x node) top t.nodes.length := by
  refine .entry (hd.add h hfree hnode) (entry_add_self h) ?_
  rw [target, nodes_add_length h]
  cases node with
  | link absolute target => exact absurd rfl (hnode absolute target)
  | _ => rfl

end Add

end FileTree

end VplJail
