import VplJail.Rpc.ParseNode
import VplJail.Util.Text

/-!
# The nodes of a request

`TreeNode` of `requestmessage.h` and `TreeNodeJSON`: how a node is read as a number. A JSON number
is any text, an XML one has the tag `int` or `double`.
-/

namespace VplJail.Rpc

open Util

/-- The encoding of a request. -/
inductive Encoding
  | json
  | xml
deriving DecidableEq, Repr

/-- A node: its tag and its text. -/
structure TreeNode where
  encoding : Encoding
  tag : Bytes
  rawContent : Bytes
deriving DecidableEq, Repr

/-- A node as the readers of numbers see it. -/
def ParseNode.view (encoding : Encoding) (raw : Bytes) (t : ParseNode) : TreeNode :=
  ⟨encoding, t.tag, t.rawContent raw⟩

/-- `mapstruct`: nodes by name. -/
abbrev Mapstruct := Std.TreeMap Bytes TreeNode compare

/-- A JSON object with one member. -/
def Mapstruct.single (name tag value : String) : Mapstruct :=
  (∅ : Mapstruct).insert (ascii name) ⟨.json, ascii tag, ascii value⟩

/-- `INT_MAX`: the greatest `int`. -/
def intMax : ℤ := 2 ^ 31 - 1

/-- The library's floating point: the integer part that `atof` reads, and the conversions of one to
`int` and to `long long`, which are those numbers where they fit. -/
structure FloatLib where
  atof : Bytes → ℤ
  toInt : ℤ → ℤ
  toLong : ℤ → ℤ
  toInt_eq : ∀ v, -2 ^ 31 ≤ v → v ≤ intMax → toInt v = v
  toInt_range : ∀ v, -2 ^ 31 ≤ toInt v ∧ toInt v ≤ intMax
  toLong_eq : ∀ v, -2 ^ 63 ≤ v → v < 2 ^ 63 → toLong v = v
  toLong_range : ∀ v, -2 ^ 63 ≤ toLong v ∧ toLong v < 2 ^ 63

/-- Floating point on the texts of integers that a double holds exactly. -/
def FloatLib.integers : FloatLib where
  atof := atoll
  toInt v := if -2 ^ 31 ≤ v ∧ v ≤ intMax then v else -2 ^ 31
  toLong v := if -2 ^ 63 ≤ v ∧ v < 2 ^ 63 then v else -2 ^ 63
  toInt_eq v hlow hhigh := if_pos ⟨hlow, hhigh⟩
  toInt_range v := by
    rw [intMax]
    split <;> omega
  toLong_eq v hlow hhigh := if_pos ⟨hlow, hhigh⟩
  toLong_range v := by split <;> omega

namespace TreeNode

/-- A node that holds a number. -/
def IsNumber (node : TreeNode) : Prop :=
  node.encoding = .json ∨ node.tag = ascii "int" ∨ node.tag = ascii "double"

/-- `getInt` of an integer's text. -/
def intOfText (text : Bytes) : ℤ :=
  if intMax < atoll text then intMax else (atoll text).bmod (2 ^ 32)

/-- The exception for a node of another type. -/
def typeError : Thrown :=
  .http badRequestCode "Message data type error"

/-- `getInt`: the content of the node as an `int`. -/
def getInt (lib : FloatLib) (node : TreeNode) : Except Thrown ℤ :=
  if node.encoding = .json ∨ node.tag = ascii "int" then pure (intOfText node.rawContent)
  else if node.tag = ascii "double" then
    pure (if intMax < lib.atof node.rawContent then intMax
      else lib.toInt (lib.atof node.rawContent))
  else throw typeError

/-- `getLong`: the content of the node as a `long long`. -/
def getLong (lib : FloatLib) (node : TreeNode) : Except Thrown ℤ :=
  if node.encoding = .json ∨ node.tag = ascii "int" then pure (atoll node.rawContent)
  else if node.tag = ascii "double" then
    pure (if intMax < lib.atof node.rawContent then intMax
      else lib.toLong (lib.atof node.rawContent))
  else throw typeError

variable {lib : FloatLib} {node : TreeNode}

/-- A number is read as an `int`. -/
theorem exists_getInt (h : node.IsNumber) : ∃ n, getInt lib node = .ok n := by
  rw [getInt]
  split
  · exact ⟨_, rfl⟩
  · rename_i hint
    rw [not_or] at hint
    rcases h with h | h | h
    · exact absurd h hint.1
    · exact absurd h hint.2
    · exact ⟨_, if_pos h⟩

/-- A number is read as a `long long`. -/
theorem exists_getLong (h : node.IsNumber) : ∃ n, getLong lib node = .ok n := by
  rw [getLong]
  split
  · exact ⟨_, rfl⟩
  · rename_i hint
    rw [not_or] at hint
    rcases h with h | h | h
    · exact absurd h hint.1
    · exact absurd h hint.2
    · exact ⟨_, if_pos h⟩

/-- What `getInt` reads is an `int`. -/
theorem getInt_range {n : ℤ} (h : getInt lib node = .ok n) : -2 ^ 31 ≤ n ∧ n ≤ intMax := by
  rw [getInt] at h
  split at h
  · obtain rfl := Except.ok.inj h
    rw [intOfText]
    split
    · exact ⟨by decide, le_rfl⟩
    · have hlow := Int.le_bmod (x := atoll node.rawContent) (m := 2 ^ 32) (by decide)
      have hhigh := Int.bmod_lt (x := atoll node.rawContent) (m := 2 ^ 32) (by decide)
      rw [intMax]
      omega
  · split at h
    · obtain rfl := Except.ok.inj h
      split
      · exact ⟨by decide, le_rfl⟩
      · exact lib.toInt_range _
    · cases h

end TreeNode

end VplJail.Rpc
