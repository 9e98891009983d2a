import VplJail.Redirector.Redirector
import VplJail.Util.Text

/-!
# `RedirectorWebServer`

The redirector between a local web server and the connection of a browser. The server gets the head
of the request first.
-/

namespace VplJail.RedirectorWebServer

open PosixRegex Redirector Socket Util WebSocket

/-- `regServerAddress`, which is `(127\.[0-9]+\.[0-9]+\.[0-9]+):([0-9]+)` -/
def regServerAddress : List (Item UInt8) :=
  (ascii "127.").map (fun b => .one (· == b)) ++
    [.plus isDigit, .one (· == 46), .plus isDigit, .one (· == 46), .plus isDigit, .one (· == 58),
      .plus isDigit]

/-- `client->receive()`: what has come from the browser. -/
def receive (polls : List RecvPoll) : ExceptT Interrupt (StateM Socket) Bytes := do
  let s ← get
  set (s.receive 0 polls).1
  match (s.receive 0 polls).2.1 with
  | .returned data => pure data
  | .raised e => throw (.raised (.thrown e))
  | .waiting => throw .waiting

/-- `client->send(data)`: data for the browser. -/
def send (data : Bytes) (polls : List SendPoll) : ExceptT Interrupt (StateM Socket) Unit := do
  let s ← get
  set (s.send data false polls).2.1
  match (s.send data false polls).2.2 with
  | .returned => pure ()
  | .raised e => throw (.raised e)
  | .waiting => throw .waiting

/-- `netbuf += client->receive();`: the browser's data is kept for the web server. -/
def input (a : Answers) : PassM Socket Unit := do
  let data ← receiveClient (receive a.recv)
  modify fun r => { r with netbuf := r.netbuf ++ data }

/-- The data of the server. -/
def forwardOutput (p : Pass) : PassM Socket Unit := do
  let data ← readServer p.read
  onClient (send data p.output)

/-- `case connecting`, where `connect` succeeds, fails, or fails with the time over. -/
def connecting (serverAddress : Bytes) (p : Pass) : PassM Socket Unit :=
  if (searchAnywhere regServerAddress (cstr serverAddress)).isNone then leave .error
  else if p.connected then
    modify fun r => { r with
      netbuf := r.client.header
      state := .connected }
  else when p.late (setState .error)

/-- `case connected`: data goes from each side to the other. -/
def connected : Pass → PassM Socket Unit :=
  relay Socket.closed (fun client => decide (client.readBuffer.length > 0)) input forwardOutput

/-- The `switch` of `advance`. -/
def pass (serverAddress : Bytes) (p : Pass) : PassM Socket Unit :=
  switch (if p.opened then setState .connecting else setState .error) (connecting serverAddress p)
    (connected p) (modify fun r => { r with client := r.client.close })

/-- `advance`: a step of the redirector. -/
def advance (serverAddress : Bytes) (r : Redirector Socket) (ps : List Pass) :
    Option Interrupt × Redirector Socket :=
  Redirector.advance (pass serverAddress) r ps

end VplJail.RedirectorWebServer
