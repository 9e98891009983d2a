import Std.Data.TreeMap.Lemmas
import VplJail.Common.Bytes
import VplJail.Util.Exceptions

/-!
# Parse trees

`TreeNode` of `requestmessage.h` as the parsers build it: a tag, a part of the text, and the
children. The text itself is passed to the functions that read it.
-/

namespace VplJail.Rpc

/-- A node of a parsed message. -/
inductive ParseNode where
  | mk (tag : Bytes) (offset len : ℕ) (children : List ParseNode)

namespace ParseNode

/-- `getName`: the name of the node. -/
def tag : ParseNode → Bytes
  | mk tag _ _ _ => tag

/-- `getOffset`: where its content starts. -/
def offset : ParseNode → ℕ
  | mk _ offset _ _ => offset

/-- `getLen`: the length of its content. -/
def len : ParseNode → ℕ
  | mk _ _ len _ => len

/-- The children in their order. -/
def children : ParseNode → List ParseNode
  | mk _ _ _ children => children

/-- `setTag`: the node with another name. -/
def setTag (tag : Bytes) : ParseNode → ParseNode
  | mk _ offset len children => mk tag offset len children

/-- `getRawContent`: the bytes of the text that the node covers. -/
def rawContent (raw : Bytes) (t : ParseNode) : Bytes :=
  (raw.drop t.offset).take t.len

/-- `child` by its place -/
def childAt (t : ParseNode) (i : ℕ) : Except Thrown ParseNode :=
  match t.children[i]? with
  | some c => pure c
  | none => throw (.http badRequestCode "Message data structure error")

/-- `child` by its name: the first one of that name -/
def child (t : ParseNode) (stag : String) : Except Thrown ParseNode :=
  match t.children.find? (·.tag = ascii stag) with
  | some c => pure c
  | none =>
    throw (.http badRequestCode ("The child or attribute name requested does not exist " ++ stag))

@[simp] theorem tag_mk (tag : Bytes) (offset len : ℕ) (children : List ParseNode) :
    (mk tag offset len children).tag = tag := rfl

@[simp] theorem children_mk (tag : Bytes) (offset len : ℕ) (children : List ParseNode) :
    (mk tag offset len children).children = children := rfl

@[simp] theorem tag_setTag (tag : Bytes) (t : ParseNode) : (t.setTag tag).tag = tag := by
  cases t
  rfl

/-- The only child of its name is found. -/
theorem child_eq_ok {t c : ParseNode} {stag : String} {before after : List ParseNode}
    (h : t.children = before ++ c :: after) (hbefore : ∀ b ∈ before, b.tag ≠ ascii stag)
    (hc : c.tag = ascii stag) : t.child stag = .ok c := by
  have hfind : t.children.find? (·.tag = ascii stag) = some c := by
    rw [h, List.find?_append, List.find?_eq_none.mpr fun b hb => by simpa using hbefore b hb,
      List.find?_cons_of_pos (by simpa using hc)]
    rfl
  rw [child, hfind]
  rfl

end ParseNode

/-- `mapstruct` of the nodes of a tree -/
abbrev NodeMap := Std.TreeMap Bytes ParseNode compare

end VplJail.Rpc
