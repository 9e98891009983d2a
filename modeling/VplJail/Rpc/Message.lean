import VplJail.Rpc.Request
import VplJail.Xml.References

/-!
# Messages

A request as Moodle means it, and its texts in the two encodings: an XML document with any text
between its tags and any way of escaping, and a JSON text with its members in any order.
-/

namespace VplJail.Rpc

open Json Util Xml

/-- An integer that a `double` holds. -/
def DoubleInt : Type :=
  { n : ℤ // -2 ^ 53 ≤ n ∧ n ≤ 2 ^ 53 }

/-- A value without members. -/
inductive Scalar
  | string (s : List Char)
  | int (n : DoubleInt)

/-- A member of the parameters. -/
inductive Param
  | scalar (v : Scalar)
  | struct (members : List (List Char × Scalar))

/-- The names of members differ. -/
def DistinctNames {V : Type} (members : List (List Char × V)) : Prop :=
  (members.map fun m => utf8 m.1).Nodup

/-- The structs that a request may have. -/
def structNames : List Bytes :=
  [ascii "files", ascii "fileencoding", ascii "filestodelete"]

/-- A request: just `files`, `fileencoding` and `filestodelete` are structs. -/
structure Message where
  method : List Char
  params : List (List Char × Param)
  distinct : DistinctNames params
  distinct_struct : ∀ p ∈ params, ∀ members, p.2 = .struct members → DistinctNames members
  struct_iff : ∀ p ∈ params, utf8 p.1 ∈ structNames ↔ ∃ members, p.2 = .struct members

/-- The value is an integer with a property. -/
def Scalar.IntsSatisfy (P : ℤ → Prop) : Scalar → Prop
  | .string _ => True
  | .int n => P n.1

/-- All the integers of a request have a property. -/
def Message.IntsSatisfy (P : ℤ → Prop) (msg : Message) : Prop :=
  ∀ p ∈ msg.params,
    match p.2 with
    | .scalar v => v.IntsSatisfy P
    | .struct members => ∀ m ∈ members, m.2.IntsSatisfy P

/-! ## XML -/

/-- A text that can be the name of an element. -/
def IsName (s : String) : Prop :=
  ascii s ≠ [] ∧ 60 ∉ ascii s ∧ 62 ∉ ascii s ∧ (ascii s).head? ≠ some 47 ∧
    (ascii s).getLast? ≠ some 47

instance : DecidablePred IsName :=
  fun s => inferInstanceAs (Decidable (ascii s ≠ [] ∧ _))

/-- The name of an element of a request. -/
def element (s : String) (h : IsName s := by decide) : Name :=
  XmlRpc.element s h

/-- The tag of an integer. -/
def intTag (n : ℤ) : Name :=
  if -2 ^ 31 ≤ n ∧ n ≤ intMax then element "int" else element "double"

/-- The texts of a value without members, between the tags `value`. -/
inductive XmlScalar : Scalar → Content → Prop
  | string {s : List Char} {before text after : CharData} (h : Spelled (utf8 s) text.bytes) :
      XmlScalar (.string s)
        (.element before (element "string") (.last text) (.last after))
  | int {n : DoubleInt} {before text after : CharData} (h : text.bytes = itos n.1) :
      XmlScalar (.int n) (.element before (intTag n.1) (.last text) (.last after))

/-- The texts of members, between the tags `struct`. -/
inductive XmlMembers {V : Type} (value : V → Content → Prop) : List (List Char × V) → Content → Prop
  | nil (text : CharData) : XmlMembers value [] (.last text)
  | cons {k : List Char} {v : V} {ms : List (List Char × V)} {inner rest : Content}
      {before before' before'' name after : CharData} (hname : Spelled (utf8 k) name.bytes)
      (hvalue : value v inner) (hrest : XmlMembers value ms rest) :
      XmlMembers value ((k, v) :: ms)
        (.element before (element "member")
          (.element before' (element "name") (.last name)
            (.element before'' (element "value") inner (.last after)))
          rest)

/-- The texts of a member of the parameters. -/
inductive XmlParam : Param → Content → Prop
  | scalar {v : Scalar} {content : Content} (h : XmlScalar v content) :
      XmlParam (.scalar v) content
  | struct {members : List (List Char × Scalar)} {before after : CharData} {inner : Content}
      (h : XmlMembers XmlScalar members inner) :
      XmlParam (.struct members)
        (.element before (element "struct") inner (.last after))

/-- The documents of a request, with what stands there for the name of the method. -/
inductive XmlText (msg : Message) : CharData → Bytes → Prop
  | intro {d : Xml.Document} {nameText : CharData} {members : Content} {after : Bytes}
      {b1 b2 b3 b4 b5 a1 a2 a3 a4 : CharData} (hroot : d.root = element "methodCall")
      (hname : Spelled (utf8 msg.method) nameText.bytes)
      (hmembers : XmlMembers XmlParam msg.params members)
      (hinner : d.inner = .element b1 (element "methodName") (.last nameText)
        (.element b2 (element "params")
          (.element b3 (element "param")
            (.element b4 (element "value")
              (.element b5 (element "struct") members (.last a1)) (.last a2)) (.last a3))
          (.last a4))) :
      XmlText msg nameText (d.render ++ after)

/-! ## JSON -/

/-- The value of the grammar for a value without members. -/
def Scalar.json : Scalar → Value (List Char)
  | .string s => .string s
  | .int n => .number (itos n.1)

/-- The value of the grammar for a member of the parameters. -/
def Param.json : Param → Value (List Char)
  | .scalar v => v.json
  | .struct members => .object (members.map fun m => (m.1, m.2.json))

/-- The members of a request with an id. -/
def Message.json (msg : Message) (id : List Char) : List (List Char × Value (List Char)) :=
  [("jsonrpc".toList, .string "2.0".toList), ("method".toList, .string msg.method),
    ("params".toList, .object (msg.params.map fun p => (p.1, p.2.json))), ("id".toList, .string id)]

/-- The texts of a request. -/
inductive JsonText (msg : Message) : Bytes → Prop
  | intro {id : List Char} {members : List (List Char × Value (List Char))} {text : Bytes}
      (hmembers : members.Perm (msg.json id))
      (h : Json.Document CharsText (.object members) text) : JsonText msg text

end VplJail.Rpc
