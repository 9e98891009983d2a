import VplJail.Json.Strings
import VplJail.Rpc.ParseNode

/-!
# The JSON parser

`JSON` of `json.h`: a recursive descent over the text by offsets. The functions are given a number of
steps that suffices for every text, `fuelOf`.
-/

namespace VplJail.Json

open Rpc Util

/-- `isWhiteSpace`: a blank, a tab, or a byte of the end of a line. -/
def isWhiteSpace (b : UInt8) : Bool :=
  b == 32 || b == 10 || b == 13 || b == 9

/-- `ignoreWhiteSpaces`: the offset of what follows them. -/
def ignoreWhiteSpaces (raw : Bytes) (offset : ℕ) : Except Thrown ℕ :=
  let next := offset + ((raw.drop offset).takeWhile isWhiteSpace).length
  if raw.length ≤ next then throw (parseError "unexpected en of JSON") else pure next

/-- `TreeNodeJSON::getString`: the text between the quotes, decoded. -/
def getString (u : Uninit) (raw : Bytes) (t : ParseNode) : Except Thrown Bytes :=
  if t.children ≠ [] then pure (ascii "Object/Array") else decodeJSONString u raw t.offset t.len

/-- What ends the scan of a number. -/
def isDelimiter (b : UInt8) : Bool :=
  b == 44 || b == 125 || b == 93

mutual

/-- `processNode`: the node at an offset, and the offset behind it. -/
def processNode (u : Uninit) (raw : Bytes) : ℕ → ℕ → Except Thrown (ParseNode × ℕ)
  | 0, _ => throw outOfFuel
  | fuel + 1, offset =>
      if charAt raw offset = 123 then do
        let (children, last) ← processObject u raw fuel (offset + 1)
        pure (.mk (ascii "object") offset (last - offset) children, last + 1)
      else if charAt raw offset = 91 then do
        let (children, last) ← processArray u raw fuel (offset + 1)
        pure (.mk (ascii "array") offset (last - offset) children, last + 1)
      else if charAt raw offset = 34 then do
        let last ← scanString raw (raw.length + 1) (offset + 1)
        pure (.mk (ascii "string") (offset + 1) (last - (offset + 1)) [], last + 1)
      else if charAt raw offset = 45 ∨ isDigit (charAt raw offset) then
        let len := ((raw.drop offset).takeWhile (!isDelimiter ·)).length
        pure (.mk (ascii "number") offset len [], offset + len)
      else if (raw.drop offset).take 4 = ascii "true" then
        pure (.mk (ascii "boolean") offset 4 [], offset + 4)
      else if (raw.drop offset).take 5 = ascii "false" then
        pure (.mk (ascii "boolean") offset 5 [], offset + 5)
      else if (raw.drop offset).take 4 = ascii "null" then
        pure (.mk (ascii "null") offset 4 [], offset + 4)
      else throw (parseError "unexpected value")

/-- The loop of `processObjectNode`: the members from an offset on, and the offset of the closing
brace. -/
def processObject (u : Uninit) (raw : Bytes) : ℕ → ℕ → Except Thrown (List ParseNode × ℕ)
  | 0, _ => throw outOfFuel
  | fuel + 1, offset =>
      if raw.length ≤ offset then throw (parseError "end of object not found")
      else do
        let offset ← ignoreWhiteSpaces raw offset
        if charAt raw offset = 125 then pure ([], offset)
        else if charAt raw offset = 34 then do
          let (name, offset) ← processNode u raw fuel offset
          let offset ← ignoreWhiteSpaces raw offset
          if charAt raw offset ≠ 58 then throw (parseError "expected ':' not found")
          else do
            let offset ← ignoreWhiteSpaces raw (offset + 1)
            let (value, offset) ← processNode u raw fuel offset
            let tag ← getString u raw name
            let offset ← ignoreWhiteSpaces raw offset
            -- the brace may stand right behind the comma
            if charAt raw offset = 44 then do
              let (rest, last) ← processObject u raw fuel (offset + 1)
              pure (value.setTag tag :: rest, last)
            else if charAt raw offset ≠ 125 then throw (parseError "Object bad format")
            else do
              let (rest, last) ← processObject u raw fuel offset
              pure (value.setTag tag :: rest, last)
        else throw (parseError ("unexpected char in object. Offset " ++ toString offset))

/-- The loop of `processArrayNode`: the elements from an offset on, and the offset of the closing
bracket. -/
def processArray (u : Uninit) (raw : Bytes) : ℕ → ℕ → Except Thrown (List ParseNode × ℕ)
  | 0, _ => throw outOfFuel
  | fuel + 1, offset =>
      if raw.length ≤ offset then throw (parseError "end of array not found")
      else do
        let offset ← ignoreWhiteSpaces raw offset
        if charAt raw offset = 93 then pure ([], offset)
        else do
          let (value, offset) ← processNode u raw fuel offset
          let offset ← ignoreWhiteSpaces raw offset
          -- and so may the bracket
          if charAt raw offset = 44 then do
            let (rest, last) ← processArray u raw fuel (offset + 1)
            pure (value :: rest, last)
          else if charAt raw offset ≠ 93 then throw (parseError "Array bad format")
          else do
            let (rest, last) ← processArray u raw fuel offset
            pure (value :: rest, last)

end

/-- Steps that suffice for a text. -/
def fuelOf (raw : Bytes) : ℕ :=
  2 * raw.length + 4

/-- The constructor of `JSON`: the root, whose text is `raw`. -/
def parse (u : Uninit) (raw : Bytes) : Except Thrown ParseNode := do
  let offset ← ignoreWhiteSpaces raw 0
  let (root, _) ← processNode u raw (fuelOf raw) offset
  pure root

example : (parse .zero (ascii "\x7b\"a\": [1, true]\x7d")).map
    (fun t => t.children.map ParseNode.tag) = .ok [ascii "a"] := by
  decide +kernel

end VplJail.Json
