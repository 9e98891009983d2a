import VplJail.Common.Triple
import VplJail.Socket.Receive
import VplJail.WebSocket.Sanitize

/-!
# A `webSocket` on its socket

The calls of `webSocket` with what the socket does to them. A call of `socket->send` or
`socket->receive` may throw, and then the fields that the call would have set behind it stay as they
were. On a closed socket `send` takes nothing and `receive` only empties the buffer.
-/

namespace VplJail.WebSocket

open Socket

/-- A `webSocket` and its socket, the frames that were handed to `socket->send`, and those among them
that it took because it was open. -/
structure Connection where
  ws : State
  socket : Socket
  handed : List Bytes := []
  emitted : List Bytes := []

/-- How a call stops: it throws, or `poll` has not answered it yet. -/
inductive Interrupt
  | raised (e : SendError)
  | waiting
deriving DecidableEq, Repr

/-- The answers of `poll` to the calls of `socket->receive` and `socket->send` in a call of
`receive`. -/
structure Answers where
  recv : List RecvPoll := []
  send : List SendPoll := []

/-- The calls. -/
abbrev ConnectionM := ExceptT Interrupt (StateM Connection)

/-! ## Frames by their first byte -/

/-- A text frame. -/
def IsText (frame : Bytes) : Prop := opcode frame = 1

/-- A close frame. -/
def IsClose (frame : Bytes) : Prop := opcode frame = 8

/-- A pong frame. -/
def IsPong (frame : Bytes) : Prop := opcode frame = 10

instance : DecidablePred IsText := fun frame => inferInstanceAs (Decidable (opcode frame = 1))

instance : DecidablePred IsClose := fun frame => inferInstanceAs (Decidable (opcode frame = 8))

instance : DecidablePred IsPong := fun frame => inferInstanceAs (Decidable (opcode frame = 10))

/-! ## The calls -/

namespace Connection

/-- The connection after a call of `socket->send` with a frame, and how the call stands. -/
def handOver (c : Connection) (frame : Bytes) (polls : List SendPoll) : Connection × SendOutcome :=
  let (_, socket, outcome) := c.socket.send frame false polls
  ({ c with
      socket
      handed := c.handed ++ [frame]
      emitted := if c.socket.closed then c.emitted else c.emitted ++ [frame] }, outcome)

/-- `socket->send(frame)`: a frame is written. -/
def sendFrame (frame : Bytes) (polls : List SendPoll) : ConnectionM Unit := do
  let c ← get
  set (c.handOver frame polls).1
  match (c.handOver frame polls).2 with
  | .returned => pure ()
  | .raised e => throw (.raised e)
  | .waiting => throw .waiting

/-- `send`: data is framed and written. -/
def send (s : Bytes) (ft : FrameType) (polls : List SendPoll) : ConnectionM Unit := do
  let c ← get
  sendFrame (encodeFrame c.ws.base64 (sendPayload s ft) ft) polls

/-- The frames of a call, and `closeSent`, which is set once they are sent. -/
def reply (session : Session) (frames : List Bytes) (polls : List SendPoll) : ConnectionM Unit := do
  forM frames (sendFrame · polls)
  modify fun c => { c with ws.closeSent := session.closeSent }

/-- `close`: a Close frame, once. -/
def close (t : Bytes) (polls : List SendPoll) : ConnectionM Unit := do
  let c ← get
  reply (WebSocket.close c.ws.toSession t).1 (WebSocket.close c.ws.toSession t).2 polls

/-- `socket->receive()`: what has come. -/
def receiveChunk (polls : List RecvPoll) : ConnectionM Bytes := do
  let c ← get
  set { c with socket := (c.socket.receive 0 polls).1 }
  match (c.socket.receive 0 polls).2.1 with
  | .returned chunk => pure chunk
  | .raised e => throw (.raised (.thrown e))
  | .waiting => throw .waiting

/-- What `receive` does with the outcome of a call and the buffer left: the fields are set before its
frames are sent, `closeSent` and the socket behind that. -/
def finish (o : Outcome) (buffer : Bytes) (polls : List SendPoll) : ConnectionM Bytes := do
  modify fun c => { c with ws := ⟨{ o.session with closeSent := c.ws.closeSent }, buffer⟩ }
  reply o.session o.sent polls
  if o.closed then modify fun c => { c with socket := c.socket.close }
  match o.ret.value with
  | some data => pure data
  | none => throw (.raised (.thrown (.std "length_error")))

/-- The end of `finish`: the string that it returns, or the exception of `substr`. -/
def giveBack (r : Return) : ConnectionM Bytes :=
  match r.value with
  | some data => pure data
  | none => throw (.raised (.thrown (.std "length_error")))

/-- `receive`: the next message, if one is complete. -/
def receive (a : Answers) : ConnectionM Bytes := do
  let chunk ← receiveChunk a.recv
  let c ← get
  finish (WebSocket.receive c.ws chunk).1 (WebSocket.receive c.ws chunk).2 a.send

/-- `isClosed`: the connection has ended. -/
def isClosed (c : Connection) : Bool :=
  c.socket.closed

/-- `isReadBuffered`: something that has been read is left. -/
def isReadBuffered (c : Connection) : Bool :=
  decide (c.socket.readBuffer.length > 0) || decide (c.ws.receiveBuffer.length > 0)

end Connection

end VplJail.WebSocket
