import VplJail.Rpc.Response
import VplJail.Rpc.TreeNode
import VplJail.Xml.Strings
import VplJail.Xml.Tree

/-!
# XML-RPC

`XMLRPC` of `xmlrpc.h`: a request and the replies to it. A reply is a document of
`VplJail.Xml.Tree`, so it is parsed, and its strings are read without what is no UTF-8.
-/

namespace VplJail.Rpc

open Util Xml

/-- `XMLRPC`: the parts of a request. -/
structure XmlRpc where
  raw : Bytes
  root : ParseNode
  method : ParseNode
  data : NodeMap

namespace XmlRpc

/-! ## The request -/

/-- A member of a struct: its name and the node of its value. -/
def structMember (raw : Bytes) (t : ParseNode) : Except Thrown (Bytes × ParseNode) := do
  let name ← t.child "name"
  let name ← getString raw name
  let value ← t.child "value"
  let value ← value.childAt 0
  pure (name, value)

/-- The loop of `getStructMembers`. -/
def structMembers (raw : Bytes) : List ParseNode → NodeMap → Except Thrown NodeMap
  | [], ret => pure ret
  | t :: ts, ret => do
      let (name, value) ← structMember raw t
      structMembers raw ts (ret.insert name value)

/-- `getStructMembers`: the members of a struct, by name. -/
def getStructMembers (raw : Bytes) (st : ParseNode) : Except Thrown NodeMap :=
  if st.tag = ascii "struct" then structMembers raw st.children ∅
  else if st.tag = ascii "array" ∧ st.children = [] then pure ∅
  else throw (.http badRequestCode "RPC/XML getStructMembers parse error")

/-- `processRoot`: the method and the parameters of a call. -/
def processRoot (raw : Bytes) (root : ParseNode) : Except Thrown XmlRpc :=
  if root.tag = ascii "methodCall" then
    if root.children.length ≠ 2 then
      throw (.http badRequestCode "RPC/XML root must have 2 attributes")
    else do
      let method ← root.child "methodName"
      let params ← root.child "params"
      let param ← params.child "param"
      let value ← param.child "value"
      let st ← value.child "struct"
      let data ← getStructMembers raw st
      pure { raw, root, method, data }
  else throw (.http badRequestCode "RPC/XML methodName parse error")

/-- The constructor of `XMLRPC`. -/
def ofText (rawData : Bytes) : Except Thrown XmlRpc := do
  let root ← parse rawData
  processRoot rawData root

/-- `getMethodName`: the method that is called. -/
def getMethodName (rpc : XmlRpc) : Bytes :=
  rpc.method.rawContent rpc.raw

/-! ## Replies -/

/-- `Util::dtos`, the library's `%lg`, which writes no brackets. -/
structure Dtos where
  dtos : ℤ → Bytes
  no_lt : ∀ n, 60 ∉ dtos n

/-- `INT32_MAX`: the greatest `int`. -/
def int32Max : ℤ := 2 ^ 31 - 1

variable (lib : Dtos)

/-- The value of `responseMember`, for strings and for numbers -/
def responseValue : MemberValue → Bytes
  | .text value => ascii "<string>" ++ encodeXML value ++ ascii "</string>"
  | .number value =>
      if value.toInt ≤ int32Max then ascii "<int>" ++ itos value.toInt ++ ascii "</int>"
      else ascii "<double>" ++ lib.dtos value.toInt ++ ascii "</double>"

/-- `responseMember`: a member of a reply. -/
def responseMember (m : Bytes × MemberValue) : Bytes :=
  ascii "<member><name>" ++ encodeXML m.1 ++ ascii "</name>\n<value>" ++ responseValue lib m.2 ++
    ascii "</value>\n</member>\n"

/-- `responseWraper`: the struct of a reply as a document. -/
def responseWraper (response : Bytes) : Bytes :=
  ascii "<?xml version=\"1.0\" encoding=\"UTF-8\"?>\n" ++
    ascii "<methodResponse>\n<params>\n<param>\n<struct>\n" ++ response ++
    ascii "</struct>\n</param>\n</params>\n</methodResponse>\n"

/-- What the builders have in common. -/
def response (members : List (Bytes × MemberValue)) : Bytes :=
  responseWraper (members.flatMap (responseMember lib))

/-- `availableResponse`: the load and the limits of the server. -/
def availableResponse (status : Bytes) (load maxtime : Int32) (maxfilesize maxmemory : Int64)
    (maxprocesses secureport : Int32) : Bytes :=
  response lib [(ascii "status", .text status), (ascii "load", intValue load),
    (ascii "maxtime", intValue maxtime), (ascii "maxfilesize", .number maxfilesize),
    (ascii "maxmemory", .number maxmemory), (ascii "maxprocesses", intValue maxprocesses),
    (ascii "secureport", intValue secureport)]

/-- `requestResponse`: the tickets of a task and the ports. -/
def requestResponse (adminticket monitorticket executionticket : Bytes) (port secuport : Int32) :
    Bytes :=
  response lib [(ascii "adminticket", .text adminticket),
    (ascii "monitorticket", .text monitorticket), (ascii "executionticket", .text executionticket),
    (ascii "port", intValue port), (ascii "secureport", intValue secuport)]

/-- `directRunResponse`: the home and the tickets of a task, and the ports. -/
def directRunResponse (homepath adminticket executionticket : Bytes) (port secuport : Int32) :
    Bytes :=
  response lib [(ascii "homepath", .text homepath), (ascii "adminticket", .text adminticket),
    (ascii "executionticket", .text executionticket), (ascii "port", intValue port),
    (ascii "secureport", intValue secuport)]

/-- `getResultResponse`: the outputs of a task. -/
def getResultResponse (compilation execution : Bytes) (executed interactive : Bool) : Bytes :=
  response lib [(ascii "compilation", .text compilation), (ascii "execution", .text execution),
    (ascii "executed", boolValue executed), (ascii "interactive", boolValue interactive)]

/-- `updateResponse`: whether the files are written. -/
def updateResponse (ok : Bool) : Bytes :=
  response lib [(ascii "update", boolValue ok)]

/-- `runningResponse`: whether the task runs. -/
def runningResponse (running : Bool) : Bytes :=
  response lib [(ascii "running", boolValue running)]

/-- `stopResponse`: there is nothing to tell. -/
def stopResponse : Bytes :=
  response lib [(ascii "stop", .number 1)]

/-- The text of a reply. -/
def text : Response → Bytes
  | .available status load maxtime maxfilesize maxmemory maxprocesses secureport =>
      availableResponse lib status load maxtime maxfilesize maxmemory maxprocesses secureport
  | .request adminticket monitorticket executionticket port secuport =>
      requestResponse lib adminticket monitorticket executionticket port secuport
  | .directRun homepath adminticket executionticket port secuport =>
      directRunResponse lib homepath adminticket executionticket port secuport
  | .getResult compilation execution executed interactive =>
      getResultResponse lib compilation execution executed interactive
  | .update ok => updateResponse lib ok
  | .running b => runningResponse lib b
  | .stop => stopResponse lib

/-- The builders write the members of the reply. -/
theorem text_eq (reply : Response) : text lib reply = response lib reply.members := by
  cases reply <;> rfl

/-! ## The reply as a document -/

theorem no_lt_itos (n : ℤ) : 60 ∉ itos n := by
  intro h
  rcases mem_itos h with h | h
  · exact absurd h (by decide)
  · exact absurd h (by decide)

/-- The name of an element. -/
def element (s : String) (h : ascii s ≠ [] ∧ 60 ∉ ascii s ∧ 62 ∉ ascii s ∧
    (ascii s).head? ≠ some 47 ∧ (ascii s).getLast? ≠ some 47 := by decide) : Name :=
  ⟨ascii s, h.1, h.2.1, h.2.2.1, h.2.2.2.1, h.2.2.2.2⟩

/-- No text, and the end of a line. -/
def noText : CharData :=
  ⟨[], List.not_mem_nil⟩

def newline : CharData :=
  ⟨[10], by decide⟩

/-- The text of a number. -/
def numberText (value : Int64) : CharData :=
  if value.toInt ≤ int32Max then ⟨itos value.toInt, no_lt_itos _⟩
  else ⟨lib.dtos value.toInt, lib.no_lt _⟩

/-- What stands in the `value` of a member. -/
def valueContent : MemberValue → Content
  | .text value =>
      .element noText (element "string") (.last ⟨encodeXML value, no_lt_encodeXML value⟩)
        (.last noText)
  | .number value =>
      .element noText (if value.toInt ≤ int32Max then element "int" else element "double")
        (.last (numberText lib value)) (.last noText)

/-- What stands in a `member`. -/
def memberContent (m : Bytes × MemberValue) : Content :=
  .element noText (element "name") (.last ⟨encodeXML m.1, no_lt_encodeXML m.1⟩)
    (.element newline (element "value") (valueContent lib m.2) (.last newline))

/-- What stands in the `struct`. -/
def structContent : List (Bytes × MemberValue) → Content
  | [] => .last newline
  | m :: ms => .element newline (element "member") (memberContent lib m) (structContent ms)

/-- A reply without the end of its last line. -/
def document (members : List (Bytes × MemberValue)) : Document where
  declaration := ⟨ascii "?xml version=\"1.0\" encoding=\"UTF-8\"?", by decide⟩
  text := newline
  root := element "methodResponse"
  inner := .element newline (element "params")
    (.element newline (element "param")
      (.element newline (element "struct") (structContent lib members) (.last newline))
      (.last newline))
    (.last newline)

theorem render_valueContent (value : MemberValue) :
    (valueContent lib value).render = responseValue lib value := by
  cases value with
  | text value =>
    simp [valueContent, responseValue, Content.render, Name.opening, Name.closing, bracketed,
      element, noText, ascii]
  | number value =>
    rw [valueContent, responseValue, numberText]
    split <;> simp [Content.render, Name.opening, Name.closing, bracketed, element, noText, ascii]

theorem render_structContent (members : List (Bytes × MemberValue)) :
    (structContent lib members).render = 10 :: members.flatMap (responseMember lib) := by
  induction members with
  | nil => rfl
  | cons m ms ih =>
    rw [structContent, Content.render, ih, memberContent, List.flatMap_cons, responseMember]
    simp [Content.render, render_valueContent, Name.opening, Name.closing, bracketed, element,
      noText, newline, ascii]

/-- The text of a reply is that of its document. -/
theorem response_eq (members : List (Bytes × MemberValue)) :
    response lib members = (document lib members).render ++ [10] := by
  rw [response, responseWraper, Document.render, document, startText]
  simp [Content.render, render_structContent, Name.opening, Name.closing, bracketed, element,
    newline, ascii]

/-! ## Reading nodes -/

section Children

variable {raw : Bytes} {t : ParseNode} {stag : String}

/-- The only child of its name. -/
theorem child_of_nodes {text after : CharData} {name : Name} {inner : Content}
    (h : Nodes raw (.element text name inner (.last after)) t.children)
    (hname : name.bytes = ascii stag) :
    ∃ c, t.child stag = .ok c ∧ c.tag = ascii stag ∧ Nodes raw inner c.children := by
  generalize hchildren : t.children = ts at h
  obtain _ | ⟨-, htag, -, hinner, hrest⟩ := h
  cases hrest
  have htag := htag.trans hname
  exact ⟨_, ParseNode.child_eq_ok hchildren (fun _ h => absurd h List.not_mem_nil) htag, htag,
    hinner⟩

/-- Two children of different names. -/
theorem children_of_nodes {before before' after : CharData} {name name' : Name}
    {inner inner' : Content} {stag' : String}
    (h : Nodes raw (.element before name inner (.element before' name' inner' (.last after)))
      t.children) (hname : name.bytes = ascii stag) (hname' : name'.bytes = ascii stag')
    (hne : ascii stag ≠ ascii stag') :
    ∃ c c', t.children = [c, c'] ∧ t.child stag = .ok c ∧ t.child stag' = .ok c' ∧
      c.tag = ascii stag ∧ c.rawContent raw = inner.render ∧ Nodes raw inner' c'.children := by
  generalize hchildren : t.children = ts at h
  obtain _ | ⟨-, htag, hrawContent, -, h⟩ := h
  obtain _ | ⟨-, htag', -, hinner', h⟩ := h
  cases h
  rename_i c c'
  rw [hname] at htag
  rw [hname'] at htag'
  refine ⟨c, c', rfl, ?_, ?_, htag, hrawContent, hinner'⟩
  · exact ParseNode.child_eq_ok hchildren (fun _ h => absurd h List.not_mem_nil) htag
  · refine ParseNode.child_eq_ok (show t.children = [c] ++ [c'] from hchildren) ?_ htag'
    intro b hb
    rw [List.mem_singleton.mp hb, htag]
    exact hne

end Children

/-! ## Reading a reply -/

/-- A node is read as a value, where a string has lost what is no UTF-8. -/
def ReadsValue (lib : FloatLib) (raw : Bytes) (v : ParseNode) : MemberValue → Prop
  | .text s => getString raw v = .ok (getCleanUtf8 s)
  | .number n => n.toInt ≤ int32Max → (v.view .xml raw).getLong lib = .ok n.toInt

/-- A node is read as a member. -/
def Reads (lib : FloatLib) (raw : Bytes) (m : Bytes × MemberValue) (t : ParseNode) : Prop :=
  ∃ name value v, t.child "name" = .ok name ∧ getString raw name = .ok (getCleanUtf8 m.1) ∧
    t.child "value" = .ok value ∧ value.childAt 0 = .ok v ∧ ReadsValue lib raw v m.2

/-- The node of a value is read as the value. -/
theorem valueNode_reads (floatLib : FloatLib) {raw : Bytes} {value : MemberValue}
    {ts : List ParseNode} (h : Nodes raw (valueContent lib value) ts) :
    ∃ v, ts = [v] ∧ ReadsValue floatLib raw v value := by
  cases value with
  | text s =>
    obtain _ | ⟨-, htag, hraw, -, hrest⟩ := h
    cases hrest
    refine ⟨_, rfl, ?_⟩
    rw [ReadsValue, getString, if_pos (.inl htag), hraw]
    exact decodeXML_encodeXML s
  | number n =>
    obtain _ | ⟨-, htag, hraw, -, hrest⟩ := h
    cases hrest
    refine ⟨_, rfl, fun hn => ?_⟩
    rw [if_pos hn] at htag
    rw [Content.render, numberText, if_pos hn] at hraw
    rw [TreeNode.getLong, if_pos (.inr htag)]
    refine congrArg Except.ok ?_
    rw [ParseNode.view, hraw]
    exact strtol_itos (Int64.le_toInt n) (Int64.toInt_lt n)

/-- The node of a member is read as the member. -/
theorem memberNode_reads (floatLib : FloatLib) {raw : Bytes} {m : Bytes × MemberValue}
    {t : ParseNode} (h : Nodes raw (memberContent lib m) t.children) : Reads floatLib raw m t := by
  obtain ⟨name, value, -, hname, hvalue, htag, hrawName, hinner⟩ :=
    children_of_nodes h rfl rfl (by decide)
  obtain ⟨v, hv, hread⟩ := valueNode_reads lib floatLib hinner
  refine ⟨name, value, v, hname, ?_, hvalue, ?_, hread⟩
  · rw [getString, if_pos (.inr htag), hrawName]
    exact decodeXML_encodeXML m.1
  · rw [ParseNode.childAt, hv]
    rfl

/-- The nodes of the struct are read as the members. -/
theorem structNodes_read (floatLib : FloatLib) {raw : Bytes} {members : List (Bytes × MemberValue)}
    {ts : List ParseNode} (h : Nodes raw (structContent lib members) ts) :
    List.Forall₂ (Reads floatLib raw) members ts := by
  induction members generalizing ts with
  | nil =>
    cases h
    exact .nil
  | cons m ms ih =>
    obtain _ | ⟨-, -, -, hinner, hrest⟩ := h
    exact .cons (memberNode_reads lib floatLib hinner) (ih hrest)

/-- The text of a reply is read as the members, in the tree of the reply. -/
def Faithful (lib : FloatLib) (text : Bytes) (members : List (Bytes × MemberValue)) : Prop :=
  ∃ root params param st, parse text = .ok root ∧ root.tag = ascii "methodResponse" ∧
    root.child "params" = .ok params ∧ params.child "param" = .ok param ∧
    param.child "struct" = .ok st ∧ List.Forall₂ (Reads lib text) members st.children

theorem faithful_response (floatLib : FloatLib) (members : List (Bytes × MemberValue)) :
    Faithful floatLib (response lib members) members := by
  obtain ⟨root, hparse, htag, -, hnodes⟩ := parse_render_append (document lib members) [10]
  rw [← response_eq] at hparse hnodes
  obtain ⟨params, hparams, -, hnodes⟩ := child_of_nodes hnodes rfl
  obtain ⟨param, hparam, -, hnodes⟩ := child_of_nodes hnodes rfl
  obtain ⟨st, hst, -, hnodes⟩ := child_of_nodes hnodes rfl
  exact ⟨root, params, param, st, hparse, htag, hparams, hparam, hst,
    structNodes_read lib floatLib hnodes⟩

/-- Replies are read back without what is no UTF-8 in their strings, as is everything that is
encoded, and valid UTF-8 loses nothing. -/
theorem faithful_text (floatLib : FloatLib) :
    (∀ reply : Response, Faithful floatLib (text lib reply) reply.members) ∧
      (∀ s : Bytes, decodeXML (encodeXML s) = .ok (getCleanUtf8 s)) ∧
      ∀ cs : List Char, getCleanUtf8 (utf8 cs) = utf8 cs :=
  ⟨fun reply => text_eq lib reply ▸ faithful_response lib floatLib reply.members,
    decodeXML_encodeXML, getCleanUtf8_utf8⟩

end XmlRpc

end VplJail.Rpc
