import VplJail.Common.Triple
import VplJail.Configuration.ReadConfigFile
import VplJail.Http.Response
import VplJail.Jail.TaskOnlyFrom
import VplJail.Rpc.Request
import VplJail.Server.Daemon
import VplJail.Socket.Cookies
import VplJail.Socket.RequestHead
import VplJail.Util.Base64

/-!
# The process of a connection

`Jail::process`: the request head, the way to a local web server, the pages, the checks of a request
and its reply, the commands on a WebSocket, and what becomes of an exception. The process ends with an
exit status, which the server counts for the client. The commands are left open here: one that
accepts its ticket gets the socket and the tasks, and leaves both as it likes.
-/

namespace VplJail.Jail.Connection

open HttpServer PosixRegex Rpc VplJail.Server Socket Util

/-! ## Exceptions -/

/-- What `process` tells apart: an `HttpException`, an exception of the standard library, a text, and
the rest, such as the bare code that `Socket::send` throws. -/
inductive Exception
  | http (code : Code) (message : Bytes)
  | std
  | text (message : Bytes)
  | other
deriving DecidableEq

/-- The enumerator with a number. -/
def codeOfNumber (number : ℕ) : Code :=
  if number = 400 then .badRequest
  else if number = 404 then .notFound
  else if number = 405 then .methodNotAllowed
  else if number = 408 then .requestTimeout
  else if number = 413 then .requestEntityTooLarge
  else if number = 501 then .notImplemented
  else .internalServerError

/-- An exception of the sockets and the parsers. -/
def Exception.ofThrown : Thrown → Exception
  | .text message => .text (ascii message)
  | .http code message => .http (codeOfNumber code) (ascii message)
  | .std _ => .std
  | .unreadableConfig => .http .internalServerError (ascii "Config file can't be opened")
  | .taskCleaning => .http .internalServerError (ascii "Task is being cleaned")

/-- An exception of `Socket::send`. -/
def Exception.ofSendError : SendError → Exception
  | .thrown e => .ofThrown e
  | .code _ => .other

/-! ## The process -/

/-- What has been done for the client. -/
inductive Done
  | passthrough (ticket : Bytes) (granted : Bool)
  | cookie (ticket : Bytes) (granted : Bool)
  | command (r : Request)
  | monitor (ticket : Bytes)
  | execute (ticket : Bytes)

/-- The process: its socket with what `poll` will answer when it reads, and in each of its calls of
`send`, the tasks, what it has written, whether the request has passed the checks, the answers given to
an open connection, each with whether the checks had been passed, the handshake of a WebSocket on one,
what has been done, and whether the socket has been handed over. -/
structure State (W : Type) where
  socket : Socket
  world : W
  polls : List RecvPoll
  sends : List (List SendPoll)
  wire : Bytes := []
  authenticated : Bool := false
  answers : List (Bool × Answer) := []
  handshake : Bytes := []
  done : List Done := []
  handedOver : Bool := false

/-- The process before its first step. -/
def start {W : Type} (socket : Socket) (world : W) (polls : List RecvPoll)
    (sends : List (List SendPoll)) : State W :=
  { socket, world, polls, sends }

/-- How the process leaves what it is at: it throws, it ends, it is killed as it goes through a null
pointer, or it still waits for its socket. -/
inductive Leave
  | thrown (e : Exception)
  | exit (status : ExitStatus)
  | crash
  | waiting
deriving DecidableEq

/-- A computation of the process. -/
abbrev ProcessM (W : Type) := ExceptT Leave (StateM (State W))

/-- What the process is started with: the settings, the version of the server, the kind of its port, the
address of the client, and what its memory holds. -/
structure Site where
  cfg : ServerConfiguration
  version : Bytes
  secure : Bool
  IP : Bytes
  uninit : Json.Uninit
  version_line : ∀ b ∈ version, b ≠ 13

/-- Two sockets with the same request head. -/
structure SameHead (s s' : Socket) : Prop where
  method : s'.method = s.method
  URLPath : s'.URLPath = s.URLPath
  queryString : s'.queryString = s.queryString
  headers : s'.headers = s.headers
  cookies : s'.cookies = s.cookies
  header : s'.header = s.header

/-- A session behind an accepted ticket: the socket that it leaves, what it has written, and what it
throws. -/
abbrev Session := Socket × Bytes × Except Exception Unit

/-- The commands: what they do with the tasks and with the socket, what they write, and what they
throw. `command` gives the text of the reply, or nothing if the process is killed. `httpPassthrough`
gives nothing for a ticket that it refuses, and else whether it comes to its end; it throws nothing, nor
do the checks of `commandSetPassthroughCookie`. The commands on a WebSocket throw if they refuse their
ticket, before they touch the socket; they take that of a task that is being cleaned, and close the
WebSocket. The head of a request is read once. -/
structure Handlers (W : Type) where
  SHA1 : Bytes → Bytes
  httpPassthrough : Bytes → Socket → W → W × Option (Socket × Bytes × Bool)
  grantsPassthrough : Bytes → W → W × Bool
  readFile : Bytes → Except Exception Bytes
  command : Request → W → W × Option (Except Exception Bytes)
  monitor : Bytes → Socket → W → W × Except Exception Session
  execute : Bytes → Socket → W → W × Except Exception Session
  httpPassthrough_head : ∀ ticket s w r, (httpPassthrough ticket s w).2 = some r → SameHead s r.1
  monitor_head : ∀ ticket s w r, (monitor ticket s w).2 = .ok r → SameHead s r.1
  execute_head : ∀ ticket s w r, (execute ticket s w).2 = .ok r → SameHead s r.1

section Process

variable {W : Type} (site : Site) (h : Handlers W)

/-- What the answers depend on. -/
def Site.header (authenticated : Bool) : Header :=
  ⟨site.version, site.cfg.HSTSMaxAge, authenticated, site.version_line⟩

/-- The answer is given to an open connection that is no WebSocket. -/
def IsOpen (s : Socket) : Prop :=
  s.closed = false ∧ s.websocketProtocol = false

instance (s : Socket) : Decidable (IsOpen s) :=
  inferInstanceAs (Decidable (_ ∧ _))

/-- `send200`, `sendCode` and the `send` of `commandSetPassthroughCookie` -/
def send (answer : Answer) : ProcessM W Unit := do
  let s ← get
  let (wire, socket, o) :=
    sendAnswer (site.header s.authenticated) s.socket answer (s.sends.headD [])
  set { s with
    socket
    sends := s.sends.tail
    wire := s.wire ++ wire
    answers := if IsOpen s.socket then s.answers ++ [(s.authenticated, answer)] else s.answers }
  match o with
  | .returned => pure ()
  | .raised e => throw (.thrown (.ofSendError e))
  | .waiting => throw .waiting

/-- `readHeaders`: the head of the request. -/
def readHeaders : ProcessM W Unit := do
  let s ← get
  let (socket, o, polls) := s.socket.readHeaders s.polls
  set { s with socket, polls }
  match o with
  | .returned _ => pure ()
  | .raised e => throw (.thrown (.ofThrown e))
  | .waiting => throw .waiting

/-- `compareConstantTime`: equality in blocks of 32 bytes. -/
def compareConstantTime (a b : Bytes) : Bool :=
  let workSize := max a.length b.length
  let workSize := if workSize % 32 ≠ 0 then workSize + (32 - workSize % 32) else workSize
  let result := (List.range workSize).foldl
    (fun result i => result ||| (a[i]?.getD 0 ^^^ b[i]?.getD 0)) (0 : UInt8)
  (result ||| if a.length ≠ b.length then 1 else 0) == 0

/-- `validateRequest`: the request must be a `POST` for the path of the server. -/
def validateRequest (expectedPath : Bytes) : ProcessM W Unit := do
  let s ← get
  let expectedPath := if expectedPath = [] then ascii "/" else expectedPath
  let URLPath := if s.socket.getURLPath = [] then ascii "/" else s.socket.getURLPath
  if s.socket.getMethod ≠ ascii "POST" then
    throw (.thrown (.http .notImplemented (ascii "http METHOD not implemented")))
  else if compareConstantTime expectedPath URLPath = false then
    throw (.thrown (.http .notFound (ascii "http request URL path not found")))
  else pure ()

/-- The answer of `receive` to the header `Expect`. -/
def answerExpect : ProcessM W Unit := do
  let s ← get
  if s.socket.getHeader (ascii "Expect") = ascii "100-continue" then send site (.code .continue [])
  else pure ()

/-- The body in `receive`. -/
def body : ProcessM W Bytes := do
  let s ← get
  let (socket, o, polls) := receiveBody s.socket site.cfg.requestMaxSize s.polls
  set { s with socket, polls }
  match o with
  | .returned data => pure data
  | .raised e => throw (.thrown (.ofThrown e))
  | .waiting => throw .waiting

/-- `HttpJailServer::receive`: the body, behind the answer to `Expect`. -/
def receive : ProcessM W Bytes := do
  answerExpect site
  body site

/-- `httpPassthrough`, if the browser has a ticket for it. -/
def passthrough : ProcessM W Unit := do
  let s ← get
  let ticket := s.socket.getCookie (ascii "VPL_web")
  if ticket = [] then pure ()
  else
    match h.httpPassthrough ticket s.socket s.world with
    | (world, none) => set { s with world, done := s.done ++ [Done.passthrough ticket false] }
    | (world, some (socket, wire, granted)) => do
        set { s with
          world
          socket
          wire := s.wire ++ wire
          done := s.done ++ [Done.passthrough ticket granted]
          handedOver := true }
        if granted then throw (.exit .success) else pure ()

/-- `regPassthroughTicket`, which is `^\/([^\/]+)\/httpPassthrough$` -/
def regPassthroughTicket : List (Item UInt8) :=
  [.one (· == 47), .plus (· != 47)] ++ (ascii "/httpPassthrough").map fun b => .one (· == b)

/-- `isRequestingCookie`: the ticket that is asked for. -/
def isRequestingCookie (URLPath : Bytes) : Option Bytes :=
  (searchWhole regPassthroughTicket (cstr URLPath)).map fun found => (found[1]?).getD []

/-- `regChallenge`, which is `^\/\.well-known\/acme-challenge\/([^\/]*)$` -/
def regChallenge : List (Item UInt8) :=
  (ascii "/.well-known/acme-challenge/").map (fun b => .one (· == b)) ++ [.star (· != 47)]

/-- The picture for `/favicon.ico`. -/
def favicon : Bytes :=
  ascii "<svg viewBox=\"0 0 25 14\" xmlns=\"http://www.w3.org/2000/svg\">" ++
    ascii "<style> .logo \x7b font: bold 12px Arial Rounded MT,Arial,Helvetica;" ++
    ascii "fill: #277ab0; stroke: black; stroke-width: 0.7px;\x7d </style>" ++
    ascii "<text x=\"0\" y=\"12\" class=\"logo\">VPL</text></svg>"

/-- `predefinedURLResponse`. `readFile` gives nothing for what is no regular file. -/
def predefinedURLResponse (URLPath : Bytes) : ProcessM W Bytes :=
  if toUppercase URLPath = ascii "/OK" then
    pure (ascii "<!DOCTYPE html><html><body><h1>OK</h1></body></html>")
  else if URLPath = ascii "/robots.txt" then pure (ascii "User-agent: *\nDisallow: /\n")
  else if URLPath = ascii "/favicon.ico" then pure favicon
  else if site.cfg.certbotWebrootPath ≠ [] ∧ matchesWhole regChallenge (cstr URLPath) = true then
    match h.readFile (site.cfg.certbotWebrootPath ++ URLPath) with
    | .ok page => pure page
    | .error e => throw (.thrown e)
  else pure []

/-- The page for a browser that has been here without a private window. -/
def privatePage : Bytes :=
  ascii "<html><body><h1>Please, to access web applications use a new Private or Incognito window.</h1></body></html>"

/-- `commandSetPassthroughCookie`: a redirection with the cookie, if the ticket is granted. -/
def setPassthroughCookie (ticket : Bytes) : ProcessM W Bool := do
  let s ← get
  let (world, granted) := h.grantsPassthrough ticket s.world
  set { s with world, done := s.done ++ [Done.cookie ticket granted] }
  if granted then do
    send site (.redirect ticket)
    pure true
  else pure false

/-- The page for one that asks for a ticket, and the status that the process is to have. -/
def requestCookie (ticket : Bytes) : ProcessM W (Bytes × ExitStatus) := do
  let s ← get
  if s.socket.getCookie (ascii "VPL_Iwh") ≠ [] ∧ s.socket.getQueryString = ascii "private" then
    pure (privatePage, .neutral)
  else do
    let granted ← setPassthroughCookie site h ticket
    pure ([], if granted then .neutral else .httpError)

/-- The page for one that asks for a ticket, if this is such a path. -/
def cookiePage (URLPath : Bytes) : ProcessM W (Bytes × ExitStatus) :=
  match isRequestingCookie URLPath with
  | some ticket => requestCookie site h ticket
  | none => pure ([], .neutral)

/-- The predefined page, unless there is one. -/
def orPredefined (response URLPath : Bytes) : ProcessM W Bytes :=
  if response = [] then predefinedURLResponse site h URLPath else pure response

/-- The method `GET`. -/
def getPage : ProcessM W Unit := do
  let s ← get
  let found ← cookiePage site h s.socket.getURLPath
  let response ← orPredefined site h found.1 s.socket.getURLPath
  if response = [] then
    throw (.thrown (.http .notFound (ascii "HTTP GET: URL path not found")))
  else do
    send site (.page response)
    throw (.exit found.2)

/-- The method `HEAD`. -/
def headPage : ProcessM W Unit := do
  let s ← get
  let response ← predefinedURLResponse site h s.socket.getURLPath
  if response = [] then
    throw (.thrown (.http .notFound (ascii "HTTP HEAD: URL path not found '" ++
      s.socket.getURLPath ++ ascii "'")))
  else do
    send site (.head response)
    throw (.exit .neutral)

/-- The command of a request, and its reply. -/
def reply (r : Request) : ProcessM W Unit := do
  let s ← get
  let (world, result) := h.command r s.world
  set { s with world, done := s.done ++ [Done.command r] }
  match result with
  | none => throw .crash
  | some (.error e) => throw (.thrown e)
  | some (.ok text) => send site (.reply text)

/-- A request, which the commands reply to. -/
def request : ProcessM W Unit :=
  if isValidIPforRequest site.cfg.taskOnlyFrom site.IP = false then
    throw (.thrown (.http .badRequest (ascii "Client not allowed")))
  else do
    validateRequest site.cfg.URLPath
    modify fun s => { s with authenticated := true }
    let data ← receive site
    match Request.ofBody site.uninit data with
    | .error e => throw (.thrown (.ofThrown e))
    | .ok r => reply site h r

/-- `regWebSocketPath`, which is `^\/([^\/]+)\/(.+)$` -/
def regWebSocketPath : List (Item UInt8) :=
  [.one (· == 47), .plus (· != 47), .one (· == 47), .plus fun _ => true]

/-- The protocol that `getHandshakeAnswer` takes of those that the client offers. -/
def protocols (offered : Bytes) : Bytes :=
  if (find (ascii "binary") offered).isSome then ascii "Sec-WebSocket-Protocol: binary\r\n"
  else if (find (ascii "base64") offered).isSome then ascii "Sec-WebSocket-Protocol: base64\r\n"
  else []

/-- `getHandshakeAnswer`: the answer that opens a WebSocket. -/
def getHandshakeAnswer (SHA1 : Bytes → Bytes) (s : Socket) : Bytes :=
  let key := s.getHeader (ascii "Sec-WebSocket-Key") ++ ascii "258EAFA5-E914-47DA-95CA-C5AB0DC85B11"
  ascii "HTTP/1.1 101 Switching Protocols\r\n" ++ ascii "Connection: Upgrade\r\n" ++
    ascii "Upgrade: websocket\r\n" ++ setIWasHereCookie ++
    protocols (s.getHeader (ascii "Sec-WebSocket-Protocol")) ++
    ascii "Sec-WebSocket-Accept: " ++ Base64.encode (SHA1 key) ++ ascii "\r\n\r\n"

/-- `webSocket::webSocket`: the handshake is the last that is written of HTTP. -/
def openWebSocket : ProcessM W Unit := do
  let s ← get
  let socket := s.socket.markWebSocketProtocol
  let answer := getHandshakeAnswer h.SHA1 socket
  let (wire, socket, o) := socket.send answer false (s.sends.headD [])
  set { s with
    socket
    sends := s.sends.tail
    wire := s.wire ++ wire
    handshake := if s.socket.closed then s.handshake else s.handshake ++ answer }
  match o with
  | .returned => pure ()
  | .raised e => throw (.thrown (.ofSendError e))
  | .waiting => throw .waiting

/-- A command on the WebSocket, which is opened before the ticket is. -/
def runCommand (run : Bytes → Socket → W → W × Except Exception Session)
    (event : Bytes → Done) (ticket : Bytes) : ProcessM W Unit := do
  openWebSocket h
  let s ← get
  match run ticket s.socket s.world with
  | (world, .error e) => do
      set { s with world, done := s.done ++ [event ticket] }
      throw (.thrown e)
  | (world, .ok (socket, wire, result)) => do
      set { s with
        world
        socket
        wire := s.wire ++ wire
        done := s.done ++ [event ticket]
        handedOver := true }
      match result with
      | .ok () => pure ()
      | .error e => throw (.thrown e)

/-- The commands on a WebSocket. -/
def websocket : ProcessM W Unit := do
  let s ← get
  if s.socket.getMethod ≠ ascii "GET" then
    throw (.thrown (.text (ascii "ws(s) Unsupported METHOD " ++ s.socket.getMethod)))
  else
    match searchWhole regWebSocketPath (cstr s.socket.getURLPath) with
    | some [_, ticket, _, command] =>
      if command = ascii "monitor" then runCommand h h.monitor .monitor ticket
      else if command = ascii "execute" then runCommand h h.execute .execute ticket
      else throw (.thrown (.text (ascii "Bad command")))
    | _ => throw (.thrown (.text (ascii "Bad URL")))

/-- The methods of a request that is none for a WebSocket. -/
def http : ProcessM W Unit := do
  let s ← get
  if s.socket.getMethod = ascii "GET" then getPage site h
  else if s.socket.getMethod = ascii "HEAD" then headPage site h
  else if s.socket.getMethod ≠ ascii "POST" then
    throw (.thrown (.http .badRequest (ascii "Http(s) Unsupported METHOD " ++ s.socket.getMethod)))
  else request site h

/-- What `process` does behind the head of the request. -/
def dispatch : ProcessM W Unit := do
  let s ← get
  if toUppercase (s.socket.getHeader (ascii "Upgrade")) ≠ ascii "WEBSOCKET" then http site h
  else websocket h

/-- What `process` tries. -/
def serve : ProcessM W Unit := do
  readHeaders
  let s ← get
  if s.socket.header = [] then throw (.exit (if site.secure then .neutral else .internalError))
  else do
    passthrough h
    dispatch site h
    throw (.exit .success)

/-- What `process` catches: the error is answered, and the process ends. -/
def recover : Exception → ProcessM W Unit
  | .http code message => do
      send site (.code code message)
      throw (.exit .success)
  | .text message => do
      send site (.code .internalServerError message)
      throw (.exit .internalError)
  | .std | .other => do
      send site (.code .internalServerError (ascii "Unknown error"))
      throw (.exit .internalError)

/-- `Jail::process`: what is thrown to the end is answered. -/
def process : ProcessM W Unit :=
  tryCatch (serve site h) fun
    | .thrown e => recover site e
    | left => throw left

end Process

example : isRequestingCookie (ascii "/12/httpPassthrough") = some (ascii "12") := by decide +kernel

end VplJail.Jail.Connection
