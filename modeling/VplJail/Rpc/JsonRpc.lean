import VplJail.Json.Unescaped
import VplJail.Rpc.Response
import VplJail.Rpc.TreeNode

/-!
# JSON-RPC

`JSONRPC` of `jsonrpc.h`: a request and the replies to it. The members of a reply are escaped, the id
is not, so `faithful_iff` asks for an id without quotation marks and backslashes.
-/

namespace VplJail.Rpc

open Json Util

/-- `JSONRPC`, with what uninitialised variables hold when its strings are read. -/
structure JsonRpc where
  raw : Bytes
  root : ParseNode
  method : Bytes
  id : Bytes
  data : NodeMap
  uninit : Uninit

namespace JsonRpc

/-! ## The request -/

/-- `getStructMembers`: the members of an object, by name. -/
def getStructMembers (st : ParseNode) : NodeMap :=
  st.children.foldl (fun ret t => ret.insert t.tag t) ∅

/-- Whether `processRoot` finds four members and the version. -/
def isVersion2 (u : Uninit) (raw : Bytes) (root : ParseNode) : Except Thrown Bool :=
  if root.children.length = 4 then do
    let version ← root.child "jsonrpc"
    let version ← getString u raw version
    pure (version = ascii "2.0")
  else pure false

/-- `processRoot`: the method, the parameters and the id of a request. -/
def processRoot (u : Uninit) (raw : Bytes) (root : ParseNode) : Except Thrown JsonRpc :=
  if root.tag ≠ ascii "object" then throw (.http badRequestCode "JSONRPC root must be object")
  else do
    let method ← root.child "method"
    let method ← getString u raw method
    let params ← root.child "params"
    let id ← root.child "id"
    let id ← getString u raw id
    let version2 ← isVersion2 u raw root
    if ¬ version2 ∧ root.children.length ≠ 3 then
      throw (.http badRequestCode "JSONRPC root must have 4 attributes")
    else pure { raw, root, method, id, data := getStructMembers params, uninit := u }

/-- The constructor of `JSONRPC`. -/
def ofText (u : Uninit) (rawData : Bytes) : Except Thrown JsonRpc := do
  let root ← parse u rawData
  processRoot u rawData root

/-! ## Replies -/

/-- `responseMember`, for strings and for numbers -/
def responseMember (name : Bytes) : MemberValue → Bytes
  | .text value => 34 :: (name ++ ascii "\":\"" ++ encodeJSONString value ++ ascii "\"")
  | .number value => 34 :: (name ++ ascii "\":" ++ itos value.toInt)

/-- Members with commas between them. -/
def responseMembers : List (Bytes × MemberValue) → Bytes
  | [] => []
  | [m] => responseMember m.1 m.2
  | m :: ms => responseMember m.1 m.2 ++ ascii "," ++ responseMembers ms

variable (rpc : JsonRpc)

/-- `responseWraper`: the result with the id of the request. -/
def responseWraper (response : Bytes) : Bytes :=
  ascii "\x7b\"jsonrpc\":\"2.0\",\"result\":" ++ response ++ ascii ",\"id\":\"" ++ rpc.id ++
    ascii "\"\x7d"

/-- What the builders have in common. -/
def response (members : List (Bytes × MemberValue)) : Bytes :=
  rpc.responseWraper (ascii "\x7b" ++ responseMembers members ++ ascii "\x7d")

/-- `availableResponse`: the load and the limits of the server. -/
def availableResponse (status : Bytes) (load maxtime : Int32) (maxfilesize maxmemory : Int64)
    (maxprocesses secureport : Int32) : Bytes :=
  rpc.response [(ascii "status", .text status), (ascii "load", intValue load),
    (ascii "maxtime", intValue maxtime), (ascii "maxfilesize", .number maxfilesize),
    (ascii "maxmemory", .number maxmemory), (ascii "maxprocesses", intValue maxprocesses),
    (ascii "secureport", intValue secureport)]

/-- `requestResponse`: the tickets of a task and the ports. -/
def requestResponse (adminticket monitorticket executionticket : Bytes) (port secuport : Int32) :
    Bytes :=
  rpc.response [(ascii "adminticket", .text adminticket),
    (ascii "monitorticket", .text monitorticket), (ascii "executionticket", .text executionticket),
    (ascii "port", intValue port), (ascii "secureport", intValue secuport)]

/-- `directRunResponse`: the home and the tickets of a task, and the ports. -/
def directRunResponse (homepath adminticket executionticket : Bytes) (port secuport : Int32) :
    Bytes :=
  rpc.response [(ascii "homepath", .text homepath), (ascii "adminticket", .text adminticket),
    (ascii "executionticket", .text executionticket), (ascii "port", intValue port),
    (ascii "secureport", intValue secuport)]

/-- `getResultResponse`: the outputs of a task. -/
def getResultResponse (compilation execution : Bytes) (executed interactive : Bool) : Bytes :=
  rpc.response [(ascii "compilation", .text compilation), (ascii "execution", .text execution),
    (ascii "executed", boolValue executed), (ascii "interactive", boolValue interactive)]

/-- `updateResponse`: whether the files are written. -/
def updateResponse (ok : Bool) : Bytes :=
  rpc.response [(ascii "update", boolValue ok)]

/-- `runningResponse`: whether the task runs. -/
def runningResponse (running : Bool) : Bytes :=
  rpc.response [(ascii "running", boolValue running)]

/-- `stopResponse`: there is nothing to tell. -/
def stopResponse : Bytes :=
  rpc.response [(ascii "stop", .number 1)]

/-- The text of a reply. -/
def text : Response → Bytes
  | .available status load maxtime maxfilesize maxmemory maxprocesses secureport =>
      rpc.availableResponse status load maxtime maxfilesize maxmemory maxprocesses secureport
  | .request adminticket monitorticket executionticket port secuport =>
      rpc.requestResponse adminticket monitorticket executionticket port secuport
  | .directRun homepath adminticket executionticket port secuport =>
      rpc.directRunResponse homepath adminticket executionticket port secuport
  | .getResult compilation execution executed interactive =>
      rpc.getResultResponse compilation execution executed interactive
  | .update ok => rpc.updateResponse ok
  | .running b => rpc.runningResponse b
  | .stop => rpc.stopResponse

/-- The builders write the members of the reply. -/
theorem text_eq (reply : Response) : rpc.text reply = rpc.response reply.members := by
  cases reply <;> rfl

/-! ## Reading a reply -/

/-- A node is read as a member. -/
def Reads (u : Uninit) (lib : FloatLib) (raw : Bytes) (m : Bytes × MemberValue) (t : ParseNode) : Prop :=
  t.tag = m.1 ∧ t.children = [] ∧
    match m.2 with
    | .text value => getString u raw t = .ok value
    | .number value => (t.view .json raw).getLong lib = .ok value.toInt

/-- The text of a reply is read as the version, exactly the members in their order, and the id. -/
def Faithful (u : Uninit) (lib : FloatLib) (text id : Bytes) (members : List (Bytes × MemberValue)) : Prop :=
  ∃ root version result idNode, parse u text = .ok root ∧ root.tag = ascii "object" ∧
    root.children = [version, result, idNode] ∧
    version.tag = ascii "jsonrpc" ∧ getString u text version = .ok (ascii "2.0") ∧
    result.tag = ascii "result" ∧ List.Forall₂ (Reads u lib text) members result.children ∧
    idNode.tag = ascii "id" ∧ getString u text idNode = .ok id

/-- A value of the grammar for a member. -/
def jsonValue : MemberValue → Value Bytes
  | .text value => .string value
  | .number value => .number (itos value.toInt)

/-- The value of the grammar for the members. -/
def resultValue (members : List (Bytes × MemberValue)) : Value Bytes :=
  .object (members.map fun m => (m.1, jsonValue m.2))

/-- A number is a number of the grammar. -/
theorem isNumber_itos (n : ℤ) : IsNumber (itos n) := by
  have hdigits : IsDigits (decimal n.natAbs) := by
    obtain ⟨d, ds, hcons, -⟩ := exists_decimal_eq_cons n.natAbs
    refine ⟨by simp [hcons], fun b hb => ?_⟩
    have hdigit := isDigit_of_mem_decimal hb
    rwa [isDigit, Bool.and_eq_true, decide_eq_true_eq, decide_eq_true_eq] at hdigit
  have hint := And.intro hdigits (decimal_of_head_eq (n := n.natAbs))
  rw [itos]
  split
  · have h := IsNumber.intro (.inr rfl) hint (.inl rfl) (.inl rfl)
    rwa [List.append_nil, List.append_nil, List.singleton_append] at h
  · have h := IsNumber.intro (.inl rfl) hint (.inl rfl) (.inl rfl)
    rwa [List.append_nil, List.append_nil, List.nil_append] at h

/-- The value of a member in the text. -/
def valueText : MemberValue → Bytes
  | .text value => 34 :: (encodeJSONString value ++ [34])
  | .number value => itos value.toInt

theorem text_valueText (value : MemberValue) : Text Escaped (jsonValue value) (valueText value) := by
  cases value with
  | text value => exact .string (escaped_encodeJSONString value)
  | number value => exact .number (isNumber_itos _)

theorem responseMember_eq (name : Bytes) (value : MemberValue) :
    responseMember name value = 34 :: (name ++ 34 :: 58 :: valueText value) := by
  cases value with
  | text value => simp [responseMember, valueText, ascii]
  | number value => simp [responseMember, valueText, ascii]

/-- The members are a text of the grammar. -/
theorem membersText_responseMembers {members : List (Bytes × MemberValue)}
    (hnames : ∀ m ∈ members, Escaped m.1 m.1) :
    MembersText Escaped (members.map fun m => (m.1, jsonValue m.2)) (responseMembers members) := by
  induction members using responseMembers.induct with
  | case1 => exact .none isWhitespace_nil
  | case2 m =>
    have h := MembersText.one isWhitespace_nil (hnames m List.mem_cons_self) isWhitespace_nil
      isWhitespace_nil (text_valueText m.2) isWhitespace_nil
    simpa [responseMembers, responseMember_eq] using h
  | case3 m ms hms ih =>
    obtain ⟨m', ms, rfl⟩ := List.exists_cons_of_ne_nil hms
    have h := MembersText.more isWhitespace_nil (hnames m List.mem_cons_self) isWhitespace_nil
      isWhitespace_nil (text_valueText m.2) isWhitespace_nil
      (ih fun m h => hnames m (List.mem_cons_of_mem _ h))
    simpa [responseMembers, responseMember_eq, ascii] using h

/-- The text of the whole reply behind its first brace. -/
theorem response_eq (members : List (Bytes × MemberValue)) :
    rpc.response members = 123 :: 34 :: (ascii "jsonrpc" ++ 34 :: 58 ::
      (34 :: (ascii "2.0" ++ [34]) ++ 44 :: 34 :: (ascii "result" ++ 34 :: 58 ::
        (123 :: (responseMembers members ++ [125]) ++ 44 :: 34 :: (ascii "id" ++ 34 :: 58 ::
          34 :: (rpc.id ++ [34, 125])))))) := by
  simp [response, responseWraper, ascii]

/-- With nothing to escape in the id the reply is a text of the grammar. -/
theorem document_response {members : List (Bytes × MemberValue)}
    (hnames : ∀ m ∈ members, Escaped m.1 m.1) (hid : ∀ b ∈ rpc.id, IsPlain b) :
    Document Escaped (.object [(ascii "jsonrpc", .string (ascii "2.0")),
      (ascii "result", resultValue members), (ascii "id", .string rpc.id)])
      (rpc.response members) := by
  have hplain (s : String) (h : ∀ b ∈ ascii s, IsPlain b) : Escaped (ascii s) (ascii s) :=
    escaped_of_isPlain h
  have hnone := isWhitespace_nil
  have hidText := MembersText.one hnone (hplain "id" (by decide +kernel)) hnone hnone
    (.string (escaped_of_isPlain hid)) hnone
  have hresult := MembersText.more hnone (hplain "result" (by decide +kernel)) hnone hnone
    (.object (membersText_responseMembers hnames)) hnone hidText
  have hversion := MembersText.more hnone (hplain "jsonrpc" (by decide +kernel)) hnone hnone
    (.string (hplain "2.0" (by decide +kernel))) hnone hresult
  have hdocument := Document.intro hnone (.object hversion) hnone
  rw [response_eq]
  simpa [resultValue] using hdocument

theorem takeWhile_isDigit {ws : Bytes} (h : IsWhitespace ws) : ws.takeWhile isDigit = [] := by
  cases ws with
  | nil => rfl
  | cons b ws =>
    rcases h b List.mem_cons_self with rfl | rfl | rfl | rfl <;> rfl

/-- The tree of the members is read as the members. -/
theorem forall₂_reads {u : Uninit} {lib : FloatLib} {raw : Bytes} {members : List (Bytes × MemberValue)}
    {ts : List ParseNode}
    (h : MembersShape u (fun s => s) raw (members.map fun m => (m.1, jsonValue m.2)) ts) :
    List.Forall₂ (Reads u lib raw) members ts := by
  induction members generalizing ts with
  | nil =>
    cases h
    exact .nil
  | cons m ms ih =>
    obtain ⟨name, value⟩ := m
    cases h with
    | cons htag hshape hrest =>
      refine .cons ?_ (ih hrest)
      cases value with
      | text value =>
        cases hshape with
        | string hstring => exact ⟨htag, rfl, hstring⟩
      | number value =>
        cases hshape with
        | number hws hcontent =>
          refine ⟨htag, rfl, congrArg Except.ok ?_⟩
          rw [ParseNode.view, hcontent, atoll]
          exact strtol_itos_append (Int64.le_toInt value) (Int64.toInt_lt value)
            (takeWhile_isDigit hws)

theorem faithful_of_isPlain (u : Uninit) (lib : FloatLib) {members : List (Bytes × MemberValue)}
    (hnames : ∀ m ∈ members, Escaped m.1 m.1) (hid : ∀ b ∈ rpc.id, IsPlain b) :
    Faithful u lib (rpc.response members) rpc.id members := by
  obtain ⟨root, hparse, htag, hshape⟩ : ∃ root, parse u (rpc.response members) = .ok root ∧
      root.tag = ascii "object" ∧ Shape u (fun s => s) (rpc.response members) _ root :=
    parse_of_document (fun _ _ h => h) (.object _) (rpc.document_response hnames hid)
  cases hshape with
  | object hroot =>
    obtain _ | ⟨hversionTag, hversion, hroot⟩ := hroot
    obtain _ | ⟨hresultTag, hresult, hroot⟩ := hroot
    obtain _ | ⟨hidTag, hidShape, hroot⟩ := hroot
    cases hroot
    cases hversion with
    | string hversion =>
      cases hresult with
      | object hresult =>
        cases hidShape with
        | string hidString =>
          exact ⟨_, _, _, _, hparse, htag, rfl, hversionTag, hversion, hresultTag,
            forall₂_reads hresult, hidTag, hidString⟩

/-- A faithful reply has nothing to escape in its id: the two members before it are read whatever the
id is, and then it is read up to the quotation mark that ends it. -/
theorem isPlain_of_faithful {u : Uninit} {lib : FloatLib} {members : List (Bytes × MemberValue)}
    (hnames : ∀ m ∈ members, Escaped m.1 m.1)
    (h : Faithful u lib (rpc.response members) rpc.id members) : ∀ b ∈ rpc.id, IsPlain b := by
  obtain ⟨root, version, result, idNode, hparse, -, hchildren, -, -, -, -, -, hid⟩ := h
  have htext := rpc.response_eq members
  generalize rpc.response members = text at hparse hid htext
  have hplain (s : String) (h : ∀ b ∈ ascii s, IsPlain b) : Escaped (ascii s) (ascii s) :=
    escaped_of_isPlain h
  have hlength := congrArg List.length htext
  simp only [List.length_cons, List.length_append] at hlength
  have hread : ∀ s t : Bytes, Escaped s t → Escaped ((fun s => s) s) t := fun _ _ h => h
  obtain ⟨last, hroot⟩ := exists_of_parse_object htext hparse
  have hversion : Text Escaped (.string (ascii "2.0")) (34 :: (ascii "2.0" ++ [34])) :=
    .string (hplain "2.0" (by decide +kernel))
  obtain ⟨t1, ts1, next1, hts1, hrest1, hdrop1⟩ := exists_of_member hread
    (hplain "jsonrpc" (by decide +kernel)) hversion
    (by simp only [List.length_cons, List.length_append]; omega) (congrArg (List.drop 1) htext) hroot
  have hresult : Text Escaped (resultValue members) (123 :: (responseMembers members ++ [125])) :=
    .object (membersText_responseMembers hnames)
  obtain ⟨t2, ts2, next2, hts2, hrest2, hdrop2⟩ := exists_of_member hread
    (hplain "result" (by decide +kernel)) hresult
    (by simp only [List.length_cons, List.length_append]; omega) hdrop1 hrest1
  obtain ⟨start, place, ts3, hstart, hscan, hts3⟩ :=
    processObject_unescaped (hplain "id" (by decide +kernel)) hdrop2 hrest2
  rw [hchildren, hts2, hts3] at hts1
  obtain ⟨-, hts⟩ := List.cons.inj hts1
  obtain ⟨-, hts⟩ := List.cons.inj hts
  obtain ⟨rfl, -⟩ := List.cons.inj hts
  exact isPlain_of_read hstart hscan hid

/-- A reply is read as what it was built from exactly if the id of the request has neither quotation
marks nor backslashes. -/
theorem faithful_iff (u : Uninit) (lib : FloatLib) (reply : Response) :
    Faithful u lib (rpc.text reply) rpc.id reply.members ↔ ∀ b ∈ rpc.id, b ≠ 34 ∧ b ≠ 92 := by
  have hnames : ∀ m ∈ reply.members, Escaped m.1 m.1 := by
    refine fun m hm => escaped_of_isPlain fun b hb => ?_
    obtain ⟨hlow, hhigh⟩ := Response.isLetter_of_mem_name hm hb
    exact ⟨fun h => absurd (h ▸ hlow) (by decide), fun h => absurd (h ▸ hlow) (by decide)⟩
  rw [text_eq]
  exact ⟨rpc.isPlain_of_faithful hnames, rpc.faithful_of_isPlain u lib hnames⟩

/-- A request to stop a task whose id has a quotation mark. -/
def quotedId : Bytes :=
  ascii "\x7b\"jsonrpc\":\"2.0\",\"method\":\"stop\",\"params\":\x7b\x7d,\"id\":\"a\\\"b\"\x7d"

/-- The request is accepted and its reply is not read back. -/
theorem not_faithful_quotedId :
    ¬ ∀ (u : Uninit) (lib : FloatLib) (rawData : Bytes) (rpc : JsonRpc) (reply : Response),
      ofText u rawData = .ok rpc → Faithful u lib (rpc.text reply) rpc.id reply.members := by
  intro h
  have haccepted : (ofText .zero quotedId).map JsonRpc.id = .ok (ascii "a\"b") := by decide +kernel
  cases hrpc : ofText .zero quotedId with
  | error e =>
    rw [hrpc] at haccepted
    cases haccepted
  | ok rpc =>
    rw [hrpc] at haccepted
    have hid : rpc.id = ascii "a\"b" := Except.ok.inj haccepted
    obtain ⟨root, version, result, idNode, hparse, -⟩ :=
      h .zero FloatLib.integers quotedId rpc .stop hrpc
    have hrejected : (parse .zero (rpc.text .stop)).map ParseNode.tag =
        .error (parseError "Object bad format") := by
      rw [text, stopResponse, response, responseWraper, hid]
      decide +kernel
    rw [hparse] at hrejected
    cases hrejected

end JsonRpc

end VplJail.Rpc
