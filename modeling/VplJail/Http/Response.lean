import VplJail.Http.Message
import VplJail.Http.Server
import VplJail.Xml.Strings

/-!
# Responses

What `HttpJailServer` writes. `prepare_HTTP` puts the text together piece by piece, from a payload that
may be anything, a version that the build sets, and further headers that its callers write out. A client
reads it as one message, whatever it carries (`readMessage_bytes`), and finds the text of an error in
the page that it gets (`errorMessage_page`).
-/

namespace VplJail.HttpServer

open Http Socket Util Xml

/-- What the responses depend on beside the answer: the version of the build, the setting
`HSTS_MAX_AGE`, and whether the request has passed the checks. -/
structure Header where
  version : Bytes
  HSTSMaxAge : ℤ
  authenticated : Bool
  version_line : ∀ b ∈ version, b ≠ 13

/-- `load.find(start) == 0`: the load starts so. -/
def startsWith (start : String) (load : Bytes) : Bool :=
  find (ascii start) load == some 0

/-- The type of a payload. -/
def contentType (load : Bytes) : Bytes :=
  if startsWith "<?xml " load then ascii "text/xml"
  else if startsWith "\x7b" load then ascii "application/json"
  else if startsWith "<!DOCTYPE svg" load || startsWith "<svg" load then ascii "image/svg+xml"
  else if startsWith "<!DOCTYPE html" load || startsWith "<html" load then ascii "text/html"
  else ascii "text/plain"

/-- `prepare_HTTP`: the text of an answer. -/
def prepareHTTP (h : Header) (code : ℤ) (codeText load : Bytes) (headMethod : Bool)
    (extraHeader : Bytes) : Bytes :=
  ascii "HTTP/1.1 " ++ itos code ++ ascii " " ++ codeText ++ ascii "\r\n" ++
    if code ≠ 100 then
      (if h.authenticated then ascii "Server: vpl-jail-system " ++ h.version ++ ascii "\r\n"
        else []) ++
      ascii "Connection: close\r\n" ++ extraHeader ++
      (ascii "Content-Length: " ++ itos load.length ++ ascii "\r\n") ++
      (if 0 ≤ h.HSTSMaxAge then
        ascii "Strict-Transport-Security: max-age=" ++ itos h.HSTSMaxAge ++ ascii "\r\n" else []) ++
      (ascii "Content-Type: " ++ contentType load ++ ascii "; charset=utf-8\r\n\r\n") ++
      if headMethod then [] else load
    else ascii "\r\n"

/-- `CodeNumber`: the codes of the answers. -/
inductive Code
  | continue
  | badRequest
  | notFound
  | methodNotAllowed
  | requestTimeout
  | requestEntityTooLarge
  | internalServerError
  | notImplemented
deriving DecidableEq, Repr

/-- The number of a code. -/
def Code.number : Code → ℕ
  | .continue => 100
  | badRequest => badRequestCode
  | notFound => notFoundCode
  | methodNotAllowed => 405
  | requestTimeout => requestTimeoutCode
  | requestEntityTooLarge => requestEntityTooLargeCode
  | internalServerError => internalServerErrorCode
  | notImplemented => 501

/-- The text of a code in `sendCode`. -/
def Code.text : Code → Bytes
  | .continue => ascii "Continue"
  | badRequest => ascii "Bad Request"
  | notFound => ascii "Not Found"
  | methodNotAllowed => ascii "Not Allowed"
  | requestTimeout => ascii "Request Time-out"
  | requestEntityTooLarge => ascii "Request Entity Too Large"
  | internalServerError => ascii "Internal Server Error"
  | notImplemented => ascii "Not Implemented"

/-- `status`: the number of the code with its text. -/
def Code.status (code : Code) : Bytes :=
  itos code.number ++ ascii " " ++ code.text

/-- The page in front of the text. -/
def pageStart (code : Code) : Bytes :=
  ascii "<html>\r\n<head><title>" ++ code.status ++ ascii "</title></head>\r\n<body>\r\n" ++
    (ascii "<center><h1>" ++ code.status ++
      ascii "</h1></center>\r\n<hr><center>nginx</center>\r\n")

/-- The page of `sendCode`. -/
def errorPage (code : Code) (text : Bytes) : Bytes :=
  if code = .continue then []
  else pageStart code ++
    (if text ≠ [] then ascii "<p>" ++ encodeXML text ++ ascii "</p>\r\n" else []) ++
    ascii "</body>\r\n</html>\r\n"

/-- `VPL_SETIWASHERECOOKIE`: the header line that marks a browser as seen. -/
def setIWasHereCookie : Bytes :=
  ascii "Set-Cookie: VPL_Iwh=y; Path=/; SameSite=none; Secure; Partitioned\r\n"

/-- The headers with which `commandSetPassthroughCookie` hands out a ticket. -/
def passthroughHeaders (passthroughticket : Bytes) : Bytes :=
  ascii "Set-Cookie: VPL_web=" ++ passthroughticket ++ ascii "; Path=/\r\n" ++
    ascii "Location: /\r\n"

/-- What the server answers: a page for a `GET`, one for a `HEAD`, the reply to a request, the ticket
for a local web server, or a code. -/
inductive Answer
  | page (load : Bytes)
  | head (load : Bytes)
  | reply (load : Bytes)
  | redirect (passthroughticket : Bytes)
  | code (code : Code) (text : Bytes)
deriving DecidableEq

/-- What `send` gets of an answer: by `send200`, by `sendCode`, or directly. -/
def Answer.bytes (h : Header) : Answer → Bytes
  | page load => prepareHTTP h 200 (ascii "OK") load false setIWasHereCookie
  | head load => prepareHTTP h 200 (ascii "OK") load true []
  | reply load => prepareHTTP h 200 (ascii "OK") load false []
  | redirect ticket => prepareHTTP h 302 (ascii "REDIRECT") [] false (passthroughHeaders ticket)
  | code c text => prepareHTTP h c.number c.text (errorPage c text) false []

/-- The answer is the last one on its connection. -/
def Answer.isFinal : Answer → Bool
  | code .continue _ => false
  | _ => true

/-- `HttpJailServer::send`. Nothing is sent on a WebSocket. -/
def sendAnswer (h : Header) (s : Socket) (answer : Answer) (polls : List SendPoll) :
    Bytes × Socket × SendOutcome :=
  if s.websocketProtocol then ([], s.close, .returned)
  else
    match s.send (answer.bytes h) false polls with
    | (wire, s, .returned) => (wire, if answer.isFinal then s.close else s, .returned)
    | failed => failed

/-- The answer to `Expect` is the one that `receive` gives. -/
theorem bytes_continue (h : Header) (text : Bytes) :
    (Answer.code .continue text).bytes h = continueReply := by
  rw [Answer.bytes, prepareHTTP, if_neg (by decide)]
  rfl

example : contentType (ascii "<svg viewBox") = ascii "image/svg+xml" := by decide +kernel

/-! ## What a client reads -/

/-- The number and the text of an answer. -/
def Answer.status : Answer → ℕ × Bytes
  | page _ | head _ | reply _ => (200, ascii "OK")
  | redirect _ => (302, ascii "REDIRECT")
  | code c _ => (c.number, c.text)

/-- What an answer is about, of which the body is a copy if there is one. -/
def Answer.load : Answer → Bytes
  | page load | head load | reply load => load
  | redirect _ => []
  | code c text => errorPage c text

/-- The body of an answer. -/
def Answer.body : Answer → Bytes
  | head _ => []
  | answer => answer.load

/-- The status line of an answer. -/
def Answer.statusLine (answer : Answer) : Bytes :=
  ascii "HTTP/1.1 " ++ itos answer.status.1 ++ ascii " " ++ answer.status.2

/-- Whether a client waits for no body: it has asked for the head only, or it reads a code of three
digits that starts with 1. -/
def bodiless (headMethod : Bool) (statusLine : Bytes) : Bool :=
  headMethod || (ascii "HTTP/1.1 1").isPrefixOf statusLine

/-- The client has asked for the head only. -/
def Answer.headMethod : Answer → Bool
  | head _ => true
  | _ => false

/-- The ticket handed out does not end its line. -/
def Answer.Clean : Answer → Prop
  | redirect ticket => ∀ b ∈ ticket, b ≠ 13
  | _ => True

theorem ne_13_of_mem_itos {value : ℤ} : ∀ b ∈ itos value, b ≠ 13 := by
  rintro b hb rfl
  rcases mem_itos hb with h | h
  · exact absurd h (by decide)
  · exact absurd h (by decide)

theorem ne_13_of_mem_contentType (load : Bytes) : ∀ b ∈ contentType load, b ≠ 13 := by
  rw [contentType]
  repeat' split
  all_goals decide +kernel

/-! ## The fields -/

/-- A field that does not vary. -/
def fixedField (name value : Bytes)
    (h : name ≠ [] ∧ (∀ b ∈ name, b ≠ 13 ∧ b ≠ 58) ∧ (∀ b ∈ value, b ≠ 13) ∧
      ∀ b ∈ value.head?, b ≠ 32) : Field :=
  ⟨name, value, h.1, h.2.1, h.2.2.1, h.2.2.2⟩

/-- A field whose value goes on behind a text that does not vary. -/
def openField (name start rest : Bytes)
    (h : name ≠ [] ∧ (∀ b ∈ name, b ≠ 13 ∧ b ≠ 58) ∧ (∀ b ∈ start, b ≠ 13) ∧ start ≠ [] ∧
      ∀ b ∈ start.head?, b ≠ 32) (hrest : ∀ b ∈ rest, b ≠ 13) : Field where
  name := name
  value := start ++ rest
  name_ne := h.1
  name_line := h.2.1
  value_line := fun b hb => (List.mem_append.mp hb).elim (h.2.2.1 b) (hrest b)
  value_head := by
    rw [List.head?_append_of_ne_nil _ h.2.2.2.1]
    exact h.2.2.2.2

/-- `Server`, which is not told to strangers. -/
def serverField (h : Header) : Field :=
  openField (ascii "Server") (ascii "vpl-jail-system ") h.version (by decide +kernel) h.version_line

/-- `Connection`: it is closed behind every answer. -/
def connectionField : Field :=
  fixedField (ascii "Connection") (ascii "close") (by decide +kernel)

/-- `Content-Length`, in digits. -/
def lengthField (n : ℕ) : Field where
  name := ascii "Content-Length"
  value := itos n
  name_ne := by decide +kernel
  name_line := by decide +kernel
  value_line := ne_13_of_mem_itos
  value_head := by
    intro b hb h
    have hmem : b ∈ itos n := List.mem_of_mem_head? hb
    rw [h] at hmem
    rcases mem_itos hmem with h | h
    · exact absurd h (by decide)
    · exact absurd h (by decide)

/-- `Strict-Transport-Security`, with its age in seconds. -/
def transportField (maxAge : ℤ) : Field :=
  openField (ascii "Strict-Transport-Security") (ascii "max-age=") (itos maxAge) (by decide +kernel)
    ne_13_of_mem_itos

/-- `Content-Type`, by the start of the load. -/
def typeField (load : Bytes) : Field where
  name := ascii "Content-Type"
  value := contentType load ++ ascii "; charset=utf-8"
  name_ne := by decide +kernel
  name_line := by decide +kernel
  value_line := fun b hb => (List.mem_append.mp hb).elim (ne_13_of_mem_contentType load b)
    ((by decide +kernel : ∀ b ∈ ascii "; charset=utf-8", b ≠ 13) b)
  value_head := by
    rw [contentType]
    repeat' split
    all_goals decide +kernel

/-- `Location`: the redirection to the root. -/
def locationField : Field :=
  fixedField (ascii "Location") (ascii "/") (by decide +kernel)

/-- `Set-Cookie` with the mark of a browser. -/
def markField : Field :=
  fixedField (ascii "Set-Cookie")
    (ascii "VPL_Iwh=y; Path=/; SameSite=none; Secure; Partitioned") (by decide +kernel)

/-- `Set-Cookie` with a ticket. -/
def ticketField (ticket : Bytes) (h : ∀ b ∈ ticket, b ≠ 13) : Field :=
  openField (ascii "Set-Cookie") (ascii "VPL_web=") (ticket ++ ascii "; Path=/") (by decide +kernel)
    fun b hb => (List.mem_append.mp hb).elim (h b)
      ((by decide +kernel : ∀ b ∈ ascii "; Path=/", b ≠ 13) b)

/-- The fields that only some answers have. -/
def Answer.ownFields : (answer : Answer) → answer.Clean → List Field
  | page _, _ => [markField]
  | redirect ticket, h => [ticketField ticket h, locationField]
  | head _, _ | reply _, _ | code _ _, _ => []

/-- The fields of an answer, in their order. The answer to `Expect` has none. -/
def Answer.fields (h : Header) (answer : Answer) (hclean : answer.Clean) : List Field :=
  if answer.isFinal then
    (if h.authenticated then [serverField h] else []) ++ connectionField ::
      (answer.ownFields hclean ++ lengthField answer.load.length ::
        ((if 0 ≤ h.HSTSMaxAge then [transportField h.HSTSMaxAge] else []) ++
          [typeField answer.load]))
  else []

/-- The message that an answer is. -/
def Answer.message (h : Header) (answer : Answer) (hclean : answer.Clean) : Message where
  startLine := answer.statusLine
  fields := (answer.fields h hclean).map Field.pair
  body := answer.body

/-- A literal of the source that writes a field is the line of the field. -/
theorem line_openField {name start rest : Bytes} {h hrest} {literal : Bytes}
    (hliteral : literal = name ++ 58 :: 32 :: start) :
    literal ++ rest ++ ascii "\r\n" = (openField name start rest h hrest).line ++ lineEnd := by
  rw [hliteral, Field.line, openField]
  simp only [List.append_assoc, List.cons_append]
  rfl

theorem line_lengthField (n : ℕ) : ascii "Content-Length: " ++ itos n ++ ascii "\r\n" =
    (lengthField n).line ++ lineEnd := by
  have hliteral : ascii "Content-Length: " = ascii "Content-Length" ++ [58, 32] := by decide
  rw [hliteral, Field.line, lengthField]
  simp only [List.append_assoc, List.cons_append, List.nil_append]
  rfl

theorem line_typeField (load : Bytes) :
    ascii "Content-Type: " ++ contentType load ++ ascii "; charset=utf-8\r\n\r\n" =
      (typeField load).line ++ (lineEnd ++ lineEnd) := by
  have hliteral : ascii "Content-Type: " = ascii "Content-Type" ++ [58, 32] := by decide
  have hcharset : ascii "; charset=utf-8\r\n\r\n" =
      ascii "; charset=utf-8" ++ (lineEnd ++ lineEnd) := by decide
  rw [hliteral, hcharset, Field.line, typeField]
  simp only [List.append_assoc, List.cons_append, List.nil_append]

theorem fieldText_append (fields fields' : List Field) :
    fieldText (fields ++ fields') = fieldText fields ++ fieldText fields' :=
  List.flatMap_append

theorem fieldText_cons (f : Field) (fields : List Field) :
    fieldText (f :: fields) = f.line ++ lineEnd ++ fieldText fields :=
  List.flatMap_cons

/-- The pieces of `prepare_HTTP` are the lines of the fields. -/
theorem prepareHTTP_eq (h : Header) {code : ℤ} (hcode : code ≠ 100) (codeText load : Bytes)
    (headMethod : Bool) (own : List Field) :
    prepareHTTP h code codeText load headMethod (fieldText own) =
      ascii "HTTP/1.1 " ++ itos code ++ ascii " " ++ codeText ++ lineEnd ++
        (fieldText ((if h.authenticated then [serverField h] else []) ++ connectionField ::
          (own ++ lengthField load.length ::
            ((if 0 ≤ h.HSTSMaxAge then [transportField h.HSTSMaxAge] else []) ++
              [typeField load]))) ++ lineEnd) ++ if headMethod then [] else load := by
  have hserver : (if h.authenticated then
      ascii "Server: vpl-jail-system " ++ h.version ++ ascii "\r\n" else []) =
        fieldText (if h.authenticated then [serverField h] else []) := by
    split
    · have hline : ascii "Server: vpl-jail-system " ++ h.version ++ ascii "\r\n" =
          (serverField h).line ++ lineEnd := line_openField (by decide)
      rw [hline, fieldText_cons]
      exact (List.append_nil _).symm
    · rfl
  have htransport : (if 0 ≤ h.HSTSMaxAge then
      ascii "Strict-Transport-Security: max-age=" ++ itos h.HSTSMaxAge ++ ascii "\r\n" else []) =
        fieldText (if 0 ≤ h.HSTSMaxAge then [transportField h.HSTSMaxAge] else []) := by
    split
    · have hline : ascii "Strict-Transport-Security: max-age=" ++ itos h.HSTSMaxAge ++ ascii "\r\n" =
          (transportField h.HSTSMaxAge).line ++ lineEnd := line_openField (by decide)
      rw [hline, fieldText_cons]
      exact (List.append_nil _).symm
    · rfl
  have hconnection : ascii "Connection: close\r\n" = connectionField.line ++ lineEnd := by
    decide
  rw [prepareHTTP, if_pos hcode, hserver, htransport, hconnection, line_lengthField, line_typeField]
  simp only [fieldText_append, fieldText_cons, List.append_assoc]
  rfl

/-- The headers that hand out a ticket are the lines of their fields. -/
theorem passthroughHeaders_eq {ticket : Bytes} (h : ∀ b ∈ ticket, b ≠ 13) :
    passthroughHeaders ticket = fieldText [ticketField ticket h, locationField] := by
  have hpath : ascii "; Path=/\r\n" = ascii "; Path=/" ++ ascii "\r\n" := by decide
  have hlocation : ascii "Location: /\r\n" = locationField.line ++ lineEnd := by decide
  have hline : ascii "Set-Cookie: VPL_web=" ++ (ticket ++ ascii "; Path=/") ++ ascii "\r\n" =
      (ticketField ticket h).line ++ lineEnd := line_openField (by decide)
  rw [passthroughHeaders, fieldText_cons, fieldText_cons, ← hline, ← hlocation, hpath]
  simp only [List.append_assoc]
  rw [show fieldText [] = ([] : Bytes) from rfl, List.append_nil]

/-! ## Status lines -/

theorem ne_13_of_mem_text (c : Code) : ∀ b ∈ c.text, b ≠ 13 := by
  cases c <;> decide +kernel

theorem isFinal_code (c : Code) (text : Bytes) :
    (Answer.code c text).isFinal = decide (c ≠ .continue) := by
  cases c <;> rfl

/-- Of the codes only 100 has no body. -/
theorem bodiless_code (c : Code) : bodiless false
    (ascii "HTTP/1.1 " ++ itos c.number ++ ascii " " ++ c.text) = decide (c = .continue) := by
  cases c <;> decide

section Read

variable (h : Header) (answer : Answer) (hclean : answer.Clean)

/-- The status line ends where it is to end. -/
theorem ne_13_of_mem_statusLine : ∀ b ∈ answer.statusLine, b ≠ 13 := by
  have hfixed : ∀ text ∈ [ascii "HTTP/1.1 ", ascii " ", ascii "OK", ascii "REDIRECT"],
      ∀ b ∈ text, b ≠ 13 := by decide +kernel
  have htext : ∀ b ∈ answer.status.2, b ≠ 13 := by
    cases answer with
    | code c text => exact ne_13_of_mem_text c
    | redirect ticket => exact hfixed (ascii "REDIRECT") (by simp)
    | _ => exact hfixed (ascii "OK") (by simp)
  intro b hb
  rw [Answer.statusLine, List.mem_append, List.mem_append, List.mem_append] at hb
  rcases hb with ((hb | hb) | hb) | hb
  · exact hfixed _ (by simp) b hb
  · exact ne_13_of_mem_itos b hb
  · exact hfixed _ (by simp) b hb
  · exact htext b hb

/-- A client knows for which answers there is no body. -/
theorem bodiless_statusLine :
    bodiless answer.headMethod answer.statusLine = (answer.headMethod || !answer.isFinal) := by
  have hok : bodiless false (ascii "HTTP/1.1 " ++ itos (200 : ℕ) ++ ascii " " ++ ascii "OK") =
      false := by decide
  have hredirect : bodiless false (ascii "HTTP/1.1 " ++ itos (302 : ℕ) ++ ascii " " ++
      ascii "REDIRECT") = false := by decide
  cases answer with
  | code c text =>
    refine (bodiless_code c).trans ?_
    rw [isFinal_code]
    cases c <;> rfl
  | head load => rfl
  | page load => exact hok
  | reply load => exact hok
  | redirect ticket => exact hredirect

/-- The answer as a message to be written. -/
def Answer.draft : Draft where
  startLine := answer.statusLine
  fields := answer.fields h hclean
  body := answer.body
  line := ne_13_of_mem_statusLine answer

/-- The bytes of an answer are its status line, its fields and its body. -/
theorem bytes_eq_text : answer.bytes h = (answer.draft h hclean).text := by
  have hmark : setIWasHereCookie = fieldText [markField] := by decide
  have hnone : ([] : Bytes) = fieldText [] := rfl
  cases answer with
  | page load =>
    rw [Answer.bytes, hmark, prepareHTTP_eq h (by decide)]
    rfl
  | head load =>
    rw [Answer.bytes, hnone, prepareHTTP_eq h (by decide)]
    rfl
  | reply load =>
    rw [Answer.bytes, hnone, prepareHTTP_eq h (by decide)]
    rfl
  | redirect ticket =>
    rw [Answer.bytes, passthroughHeaders_eq hclean, prepareHTTP_eq h (by decide)]
    rfl
  | code c text =>
    by_cases hc : c = .continue
    · subst hc
      rw [bytes_continue]
      rfl
    · have hnumber : (c.number : ℤ) ≠ 100 := by
        cases c with
        | «continue» => exact absurd rfl hc
        | _ => decide
      rw [Answer.bytes, hnone, prepareHTTP_eq h hnumber]
      cases c with
      | «continue» => exact absurd rfl hc
      | _ => rfl

/-- The names of the fields beside `Content-Length`. -/
def otherNames : List Bytes :=
  [ascii "Server", ascii "Connection", ascii "Set-Cookie", ascii "Location",
    ascii "Strict-Transport-Security", ascii "Content-Type"]

/-- The fields beside `Content-Length` do not tell a length. -/
theorem filter_otherNames {fields : List Field} (hfields : ∀ f ∈ fields, f.name ∈ otherNames) :
    (fields.map Field.pair).filter
      (fun f => decide (toUppercase f.1 = ascii "CONTENT-LENGTH")) = [] := by
  have hnames : ∀ name ∈ otherNames, toUppercase name ≠ ascii "CONTENT-LENGTH" := by decide
  rw [List.filter_eq_nil_iff]
  intro pair hpair
  obtain ⟨f, hf, rfl⟩ := List.mem_map.mp hpair
  rw [decide_eq_true_eq]
  exact hnames _ (hfields f hf)

/-- The only `Content-Length` of an answer is that of its load. -/
theorem contentLength_fields (hfinal : answer.isFinal = true) :
    contentLength ((answer.fields h hclean).map Field.pair) = some answer.load.length := by
  let front := (if h.authenticated then [serverField h] else []) ++ connectionField ::
    answer.ownFields hclean
  let back := (if 0 ≤ h.HSTSMaxAge then [transportField h.HSTSMaxAge] else []) ++
    [typeField answer.load]
  have hsplit : answer.fields h hclean = front ++ lengthField answer.load.length :: back := by
    rw [Answer.fields, if_pos hfinal]
    simp only [front, back, List.append_assoc, List.cons_append]
  have hfront : ∀ f ∈ front, f.name ∈ otherNames := by
    have hown : ∀ f ∈ answer.ownFields hclean, f.name ∈ otherNames := by
      cases answer <;> simp [Answer.ownFields, markField, ticketField, locationField, fixedField,
        openField, otherNames]
    intro f hf
    rcases List.mem_append.mp hf with hf | hf
    · split at hf
      · rw [List.mem_singleton.mp hf]
        exact .head _
      · exact absurd hf List.not_mem_nil
    · rcases List.mem_cons.mp hf with rfl | hf
      · exact .tail _ (.head _)
      · exact hown f hf
  have hback : ∀ f ∈ back, f.name ∈ otherNames := by
    intro f hf
    rcases List.mem_append.mp hf with hf | hf
    · split at hf
      · rw [List.mem_singleton.mp hf]
        simp [otherNames, transportField, openField]
      · exact absurd hf List.not_mem_nil
    · rw [List.mem_singleton.mp hf]
      simp [otherNames, typeField]
  have hlength : decide (toUppercase (lengthField answer.load.length).pair.1 =
      ascii "CONTENT-LENGTH") = true := by
    have hname : decide (toUppercase (ascii "Content-Length") = ascii "CONTENT-LENGTH") = true := by
      decide
    exact hname
  have hfilter : ((answer.fields h hclean).map Field.pair).filter
      (fun f => decide (toUppercase f.1 = ascii "CONTENT-LENGTH")) =
        [(lengthField answer.load.length).pair] := by
    rw [hsplit, List.map_append, List.map_cons, List.filter_append, filter_otherNames hfront,
      List.filter_cons, if_pos hlength, filter_otherNames hback, List.nil_append]
  obtain ⟨d, ds, hdecimal, -⟩ := exists_decimal_eq_cons answer.load.length
  have hne : decimal answer.load.length ≠ [] := hdecimal ▸ List.cons_ne_nil d ds
  have hdigits : (decimal answer.load.length).all isDigit = true :=
    List.all_eq_true.mpr fun b hb => isDigit_of_mem_decimal hb
  rw [contentLength, hfilter]
  exact (if_pos ⟨hne, hdigits⟩).trans (congrArg some (digitsValue_decimal _))

end Read

/-! ## Errors -/

/-- The text of an error in its page, between the first `<p>` and the tag behind it. -/
def errorMessage (page : Bytes) : Option (Except Thrown Bytes) :=
  (find (ascii "<p>") page).map fun pos =>
    decodeXML ((page.drop (pos + 3)).takeWhile fun b => decide (b ≠ 60))

/-- What is found at the start of a text is found in the whole. -/
theorem find_append {pattern s : Bytes} {pos : ℕ} (h : find pattern s = some pos) (rest : Bytes) :
    find pattern (s ++ rest) = some pos := by
  obtain ⟨hpattern, hfirst⟩ := find_eq_some.mp h
  have hlen := hpattern.length_le
  rw [List.length_drop] at hlen
  refine find_eq_some.mpr ⟨?_, fun k hk hprefix => hfirst k hk ?_⟩
  · rw [List.drop_append]
    exact hpattern.trans (List.prefix_append _ _)
  · rw [List.drop_append] at hprefix
    refine List.prefix_of_prefix_length_le hprefix (List.prefix_append _ _) ?_
    rw [List.length_drop]
    omega

/-- A client finds the text of an error in the page, cleaned of bytes that are not UTF-8, and no tag
of it. -/
theorem errorMessage_errorPage {c : Code} (hc : c ≠ .continue) {text : Bytes} (htext : text ≠ []) :
    errorMessage (errorPage c text) = some (.ok (getCleanUtf8 text)) := by
  have hstart : find (ascii "<p>") (pageStart c ++ ascii "<p>") = some (pageStart c).length := by
    cases c with
    | «continue» => exact absurd rfl hc
    | _ => decide +kernel
  have hpage : errorPage c text = pageStart c ++ ascii "<p>" ++
      (encodeXML text ++ (60 :: ascii "/p>\r\n" ++ ascii "</body>\r\n</html>\r\n")) := by
    have hclose : ascii "</p>\r\n" = 60 :: ascii "/p>\r\n" := by decide
    rw [errorPage, if_neg hc, if_pos htext, hclose]
    simp only [List.append_assoc, List.cons_append]
  have hdrop : (errorPage c text).drop ((pageStart c).length + 3) =
      encodeXML text ++ (60 :: ascii "/p>\r\n" ++ ascii "</body>\r\n</html>\r\n") := by
    have hlen : (pageStart c).length + 3 = (pageStart c ++ ascii "<p>").length := by
      rw [List.length_append]
      rfl
    rw [hpage, hlen, List.drop_left]
  have htake : (encodeXML text ++ (60 :: ascii "/p>\r\n" ++ ascii "</body>\r\n</html>\r\n")).takeWhile
      (fun b => decide (b ≠ 60)) = encodeXML text := by
    refine PosixRegex.takeWhile_run (fun b hb => decide_eq_true ?_) fun b hb => ?_
    · rintro rfl
      exact no_lt_encodeXML text hb
    · obtain rfl := Option.some.inj hb
      rfl
  rw [errorMessage, hpage, find_append hstart, Option.map_some, ← hpage, hdrop, htake,
    decodeXML_encodeXML]

/-! ## Reading an answer -/

/-- A client reads what the server answers as one message, and what comes behind it apart: the number
and the text of the code, the fields, and the load as the body, whatever the load is. From the page of
an error it reads the text of the error. -/
theorem readMessage_bytes (h : Header) (answer : Answer) (hclean : answer.Clean) (rest : Bytes) :
    readMessage (bodiless answer.headMethod) (answer.bytes h ++ rest) =
        some (answer.message h hclean, rest) ∧
      ∀ c text, answer = .code c text → c ≠ .continue → text ≠ [] →
        errorMessage (answer.message h hclean).body = some (.ok (getCleanUtf8 text)) := by
  constructor
  · rw [bytes_eq_text h answer hclean]
    refine readMessage_text (answer.draft h hclean) rest ?_
    have hbodiless := bodiless_statusLine answer
    cases hmethod : answer.headMethod with
    | true =>
      rw [hmethod, Bool.true_or] at hbodiless
      have hbody : answer.body = [] := by
        cases answer with
        | head load => rfl
        | _ => cases hmethod
      exact (if_pos hbodiless).mpr hbody
    | false =>
      rw [hmethod, Bool.false_or] at hbodiless
      cases hfinal : answer.isFinal with
      | false =>
        have hbody : answer.body = [] := by
          cases answer with
          | code c text =>
            rw [isFinal_code, decide_eq_false_iff_not, not_not] at hfinal
            rw [hfinal]
            rfl
          | _ => cases hfinal
        rw [hfinal, Bool.not_false] at hbodiless
        exact (if_pos hbodiless).mpr hbody
      | true =>
        have hbody : answer.body = answer.load := by
          cases answer with
          | head load => cases hmethod
          | _ => rfl
        rw [hfinal, Bool.not_true] at hbodiless
        have hlength := contentLength_fields h answer hclean hfinal
        rw [← hbody] at hlength
        exact (if_neg (by rw [Answer.draft, hbodiless]; exact Bool.false_ne_true)).mpr hlength
  · rintro c text rfl hc htext
    exact errorMessage_errorPage hc htext

/-- A ticket that is handed out to a stranger. -/
theorem readMessage_bytes_redirect :
    readMessage (bodiless false)
        ((Answer.redirect (ascii "12")).bytes ⟨ascii "5.0.3", -1, false, by decide +kernel⟩ ++
          ascii "HTTP/1.1 ") =
      some (⟨ascii "HTTP/1.1 302 REDIRECT",
        [(ascii "Connection", ascii "close"), (ascii "Set-Cookie", ascii "VPL_web=12; Path=/"),
          (ascii "Location", ascii "/"), (ascii "Content-Length", ascii "0"),
          (ascii "Content-Type", ascii "text/plain; charset=utf-8")], []⟩, ascii "HTTP/1.1 ") := by
  have hread := (readMessage_bytes ⟨ascii "5.0.3", -1, false, by decide +kernel⟩
    (.redirect (ascii "12")) (by decide +kernel : ∀ b ∈ ascii "12", b ≠ 13) (ascii "HTTP/1.1 ")).1
  exact hread.trans (by decide)

end VplJail.HttpServer
