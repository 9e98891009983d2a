import VplJail.Common.Places
import VplJail.Rpc.ParseNode

/-!
# The XML parser

`XML` of `xml.h`: the tags of the text one by one, and the tree that they span. The functions are
given a number of steps that suffices for every text, `fuelOf`.
-/

namespace VplJail.Xml

open Rpc

/-- The exception of the parser. -/
def parseError (message : String) : Thrown :=
  .http badRequestCode ("XML parse error: " ++ message)

/-- `nextTag`: the tag, where it starts, and the offset behind it. -/
def nextTag (raw : Bytes) (offset : ℕ) : Except Thrown (Option (Bytes × ℕ × ℕ)) :=
  let btag := offset + ((raw.drop offset).takeWhile (· ≠ 60)).length
  if raw.length ≤ btag then pure none
  else
    let etag := btag + ((raw.drop btag).takeWhile (· ≠ 62)).length
    if raw.length ≤ etag then throw (parseError "unexpected end of XML")
    else pure (some (part raw (btag + 1) etag, btag, etag + 1))

/-- `processNode`: the children of the node `name` from an offset on, where its end tag starts, and
the offset behind that. -/
def processNode (raw : Bytes) : ℕ → Bytes → ℕ → Except Thrown (List ParseNode × ℕ × ℕ)
  | 0, _, _ => throw outOfFuel
  | fuel + 1, name, offset => do
      match ← nextTag raw offset with
      | none => throw (parseError "end tag not found")
      | some (ntag, ontag, offset) =>
        -- `</name>`, which must be the end of this node
        if ntag.head? = some 47 then
          if name = ntag.tail then pure ([], ontag, offset)
          else throw (parseError "unexpected end of tag")
        -- `<name/>`
        else if ntag.getLast? = some 47 then do
          let (rest, last, next) ← processNode raw fuel name offset
          pure (.mk ntag.dropLast offset 0 [] :: rest, last, next)
        else do
          let (children, ontag, next) ← processNode raw fuel ntag offset
          let (rest, last, next) ← processNode raw fuel name next
          pure (.mk ntag offset (ontag - offset) children :: rest, last, next)

/-- Steps that suffice for a text. -/
def fuelOf (raw : Bytes) : ℕ :=
  raw.length + 1

/-- The constructor of `XML`: the root, which is the second tag of the text. -/
def parse (raw : Bytes) : Except Thrown ParseNode := do
  match ← nextTag raw 0 with
  | none => throw (parseError "start tag not found")
  | some (_, _, offset) =>
    match ← nextTag raw offset with
    | none => throw (parseError "start tag not found")
    | some (tag, _, offset) => do
      let (children, ontag, _) ← processNode raw (fuelOf raw) tag offset
      pure (.mk tag offset (ontag - offset) children)

example : (parse (ascii "<?xml?><a>x<b/><c></c></a>")).map (fun t => t.children.map ParseNode.tag) =
    .ok [ascii "b", ascii "c"] := by
  decide +kernel

end VplJail.Xml
