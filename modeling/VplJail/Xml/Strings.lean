import VplJail.Rpc.ParseNode
import VplJail.Util.Text
import VplJail.Util.Utf8

/-!
# XML strings

`encodeXML`, `decodeXML` and `TreeNodeXML::getString`.
-/

namespace VplJail.Xml

open Rpc Util

/-- What `encodeXML` writes for a byte. -/
def encodeByte (c : UInt8) : Bytes :=
  if c = 38 then ascii "&amp;"
  else if c = 60 then ascii "&lt;"
  else if c = 62 then ascii "&gt;"
  else if c = 39 then ascii "&apos;"
  else if c = 34 then ascii "&quot;"
  else [c]

/-- `encodeXML`: the characters of the markup become references. -/
def encodeXML (rawdata : Bytes) : Bytes :=
  (getCleanUtf8 rawdata).flatMap encodeByte

/-- The exception of the decoder. -/
def decodeError : Thrown :=
  .http badRequestCode "XML string decode error"

/-- What a code between an ampersand and a semicolon means. -/
def decodeEntity (code : Bytes) : Except Thrown UInt8 :=
  if code.head? = some 35 then pure (UInt8.ofInt (atoi code.tail))
  else if code = ascii "amp" then pure 38
  else if code = ascii "lt" then pure 60
  else if code = ascii "gt" then pure 62
  else if code = ascii "apos" then pure 39
  else if code = ascii "quot" then pure 34
  else throw decodeError

/-- The loop of `decodeXML`, in an entity of which a part has been read or outside. -/
def decodeFrom : Option Bytes → Bytes → Except Thrown Bytes
  | none, [] => pure []
  | some _, [] => throw decodeError
  | none, b :: data =>
      if b = 38 then decodeFrom (some []) data
      else do
        let rest ← decodeFrom none data
        pure (b :: rest)
  | some code, b :: data =>
      if b = 59 then do
        let c ← decodeEntity code
        let rest ← decodeFrom none data
        pure (c :: rest)
      else decodeFrom (some (code ++ [b])) data

/-- `decodeXML`: the references are replaced by what they stand for. -/
def decodeXML (data : Bytes) : Except Thrown Bytes :=
  decodeFrom none data

/-- `TreeNodeXML::getString`: the content of the node, decoded. -/
def getString (raw : Bytes) (t : ParseNode) : Except Thrown Bytes :=
  if t.tag = ascii "string" ∨ t.tag = ascii "name" then decodeXML (t.rawContent raw)
  else throw (.http badRequestCode "Message data type error")

/-! ## Round trip -/

/-- A reference is read up to its semicolon. -/
theorem decodeFrom_reference {read code rest : Bytes} (hcode : 59 ∉ code) :
    decodeFrom (some read) (code ++ 59 :: rest) = (do
      let c ← decodeEntity (read ++ code)
      let rest ← decodeFrom none rest
      pure (c :: rest)) := by
  induction code generalizing read with
  | nil => rw [List.nil_append, decodeFrom, if_pos rfl, List.append_nil]
  | cons b code ih =>
    rw [List.mem_cons, not_or] at hcode
    rw [List.cons_append, decodeFrom, if_neg fun h => hcode.1 h.symm, ih hcode.2,
      List.append_assoc, List.singleton_append]

/-- A byte is read back. -/
theorem decodeFrom_encodeByte (c : UInt8) (rest : Bytes) :
    decodeFrom none (encodeByte c ++ rest) = (do
      let rest ← decodeFrom none rest
      pure (c :: rest)) := by
  have hentity (code : Bytes) {c : UInt8} (hcode : 59 ∉ code) (hc : decodeEntity code = .ok c) :
      decodeFrom none (38 :: (code ++ 59 :: rest)) = (do
        let rest ← decodeFrom none rest
        pure (c :: rest)) := by
    rw [decodeFrom, if_pos rfl, decodeFrom_reference hcode, List.nil_append, hc]
    rfl
  rw [encodeByte]
  split
  · rename_i h
    exact h ▸ hentity (ascii "amp") (by decide) rfl
  split
  · rename_i h
    exact h ▸ hentity (ascii "lt") (by decide) rfl
  split
  · rename_i h
    exact h ▸ hentity (ascii "gt") (by decide) rfl
  split
  · rename_i h
    exact h ▸ hentity (ascii "apos") (by decide) rfl
  split
  · rename_i h
    exact h ▸ hentity (ascii "quot") (by decide) rfl
  · rw [List.singleton_append, decodeFrom, if_neg ‹_›]

/-- `decodeXML` reads back what `encodeXML` has kept. -/
theorem decodeXML_encodeXML (s : Bytes) : decodeXML (encodeXML s) = .ok (getCleanUtf8 s) := by
  rw [decodeXML, encodeXML]
  induction getCleanUtf8 s with
  | nil => rfl
  | cons c text ih =>
    rw [List.flatMap_cons, decodeFrom_encodeByte, ih]
    rfl

/-- Nothing that is written starts a tag. -/
theorem no_lt_encodeXML (s : Bytes) : 60 ∉ encodeXML s := by
  intro h
  obtain ⟨c, -, hc⟩ := List.mem_flatMap.mp h
  rw [encodeByte] at hc
  split at hc
  · exact absurd hc (by decide)
  split at hc
  · exact absurd hc (by decide)
  split at hc
  · exact absurd hc (by decide)
  split at hc
  · exact absurd hc (by decide)
  split at hc
  · exact absurd hc (by decide)
  · have hne : c ≠ 60 := ‹_›
    exact hne (List.mem_singleton.mp hc).symm

end VplJail.Xml
