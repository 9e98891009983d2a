import VplJail.Rpc.JsonRpc
import VplJail.Rpc.XmlRpc

/-!
# Requests

`RPC` of `rpc.h`: a request as the commands see it, whichever its encoding is. The virtual methods of
the nodes and the maps of members are those of the encoding.
-/

namespace VplJail.Rpc

/-- An accepted request. `uninit` is for the strings of JSON. -/
structure Request where
  encoding : Encoding
  raw : Bytes
  methodName : Bytes
  data : NodeMap
  uninit : Json.Uninit

def JsonRpc.request (rpc : JsonRpc) : Request :=
  ⟨.json, rpc.raw, rpc.method, rpc.data, rpc.uninit⟩

def XmlRpc.request (rpc : XmlRpc) : Request :=
  ⟨.xml, rpc.raw, rpc.getMethodName, rpc.data, .zero⟩

/-- The object that `Jail::process` makes of a body. -/
def Request.ofBody (u : Json.Uninit) (body : Bytes) : Except Thrown Request :=
  if charAt body 0 = 60 then XmlRpc.request <$> XmlRpc.ofText body
  else JsonRpc.request <$> JsonRpc.ofText u body

/-- How a process leaves what it is at: with an exception, or killed because it goes through a null
pointer. -/
inductive Stop
  | crash
  | thrown (e : Thrown)
deriving DecidableEq

/-- A computation that goes through no pointer of a map. -/
def lift {α : Type} (x : Except Thrown α) : Except Stop α :=
  x.mapError .thrown

/-- The nodes as the readers of numbers see them. -/
def NodeMap.view (encoding : Encoding) (raw : Bytes) (m : NodeMap) : Mapstruct :=
  m.map fun _ t => t.view encoding raw

namespace Request

variable (r : Request)

/-- `getString` of a node -/
def getString (t : ParseNode) : Except Thrown Bytes :=
  match r.encoding with
  | .json => Json.getString r.uninit r.raw t
  | .xml => Xml.getString r.raw t

/-- `getInt` of a node -/
def getInt (lib : FloatLib) (t : ParseNode) : Except Thrown ℤ :=
  (t.view r.encoding r.raw).getInt lib

/-- `getLong` of a node -/
def getLong (lib : FloatLib) (t : ParseNode) : Except Thrown ℤ :=
  (t.view r.encoding r.raw).getLong lib

/-- `getStructMembers`, as the encoding of the request has it. -/
def getStructMembers (st : ParseNode) : Except Thrown NodeMap :=
  match r.encoding with
  | .json => pure (JsonRpc.getStructMembers st)
  | .xml => XmlRpc.getStructMembers r.raw st

/-- `data[name]->`: the node of a member that is not looked for first. -/
def member (name : String) : Except Stop ParseNode :=
  match r.data[ascii name]? with
  | some t => pure t
  | none => throw .crash

/-- `getFiles`: the members of `files`, which must be there. -/
def getFiles : Except Stop NodeMap := do
  let st ← r.member "files"
  lift (r.getStructMembers st)

/-- A struct that need not be there. -/
def optionalStruct (name : String) : Except Thrown NodeMap :=
  match r.data[ascii name]? with
  | some st => r.getStructMembers st
  | none => pure ∅

/-- `getFileEncoding`: the members of `fileencoding`, if there are any. -/
def getFileEncoding : Except Thrown NodeMap :=
  r.optionalStruct "fileencoding"

/-- `getFileToDelete`: the members of `filestodelete`, if there are any. -/
def getFileToDelete : Except Thrown NodeMap :=
  r.optionalStruct "filestodelete"

end Request

end VplJail.Rpc
