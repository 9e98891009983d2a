import VplJail.Redirector.Redirector

/-!
# `RedirectorVNC`

The redirector between a VNC server and a WebSocket.
-/

namespace VplJail.RedirectorVNC

open Redirector Socket WebSocket

/-- `addVNCInput(ws->receive())`, which ends the connection when the input is refused. -/
def input (a : Answers) : PassM Connection Unit :=
  inputWith addVNCInput (Connection.receive a)

/-- The data of the server in a binary frame. -/
def forwardOutput (p : Pass) : PassM Connection Unit := do
  let data ← readServer p.read
  onClient (Connection.send data .binary p.output)

/-- `case connecting`, where `connect` succeeds, fails, or fails with the time over. -/
def connecting (p : Pass) : PassM Connection Unit :=
  if p.connected then setState .connected
  else when p.late (setState .error)

/-- `case connected`: data goes from each side to the other. -/
def connected : Pass → PassM Connection Unit :=
  relay Connection.isClosed Connection.isReadBuffered input forwardOutput

/-- `case end` and `case error` -/
def ended (p : Pass) : PassM Connection Unit := do
  let r ← get
  when (!r.client.isClosed) (onClient (Connection.close [] p.close))

/-- The `switch` of `advance`. -/
def pass (p : Pass) : PassM Connection Unit :=
  switch (if p.opened then setState .connecting else setState .error) (connecting p) (connected p)
    (ended p)

/-- `advance`: a step of the redirector. -/
def advance (r : Redirector Connection) (ps : List Pass) :
    Option Interrupt × Redirector Connection :=
  Redirector.advance pass r ps

end VplJail.RedirectorVNC
