import VplJail.Redirector.Redirector

/-!
# `RedirectorTerminal`

The redirector between a pseudo terminal and a WebSocket.
-/

namespace VplJail.RedirectorTerminal

open Redirector Socket WebSocket

/-- `addInput(ws->receive())`, which ends the connection when the input is refused. -/
def input (a : Answers) : PassM Connection Unit :=
  inputWith addInput (Connection.receive a)

/-- The program output of a `read` in a text frame. -/
def forwardOutput (p : Pass) : PassM Connection Unit := do
  let data ← readServer p.read
  modify fun r => { r with noOutput := false }
  onClient (Connection.send data .text p.output)

/-- `case connected`: data goes from each side to the other. -/
def connected (p : Pass) : PassM Connection Unit := do
  let r ← get
  when r.client.isReadBuffered (input p.buffered)
  let e ← pollDevices p.polled
  when e.client.bad (leave .ending)
  let r ← get
  when (e.server.read && !r.isOutputBufferFull) (forwardOutput p)
  when e.client.read (input p.received)
  flush .programbuf e.server p.write

/-- `ws->send(messageBuf); messageBuf="";`, if there is a message. -/
def sendMessage (p : Pass) : PassM Connection Unit := do
  let r ← get
  onClient (Connection.send r.messageBuf .text p.message)
  modify fun r => { r with messageBuf := [] }

/-- `case end` and `case error` -/
def ended (p : Pass) : PassM Connection Unit := do
  let r ← get
  when r.noOutput (modify (addMessage (ascii "program terminated with no output.")))
  let r ← get
  when (decide (r.messageBuf.length > 0)) (sendMessage p)
  let r ← get
  when (!r.client.isClosed) (onClient (Connection.close [] p.close))

/-- The `switch` of `advance`. -/
def pass (fdps : ℤ) (p : Pass) : PassM Connection Unit :=
  switch (if fdps < 0 then setState .error else setState .connected) (setState .connected)
    (connected p) (ended p)

/-- `advance`: a step of the redirector. -/
def advance (fdps : ℤ) (r : Redirector Connection) (ps : List Pass) :
    Option Interrupt × Redirector Connection :=
  Redirector.advance (pass fdps) r ps

/-- What its steps keep, the connected state keeps. -/
theorem triple_connected {P : Redirector Connection → Prop} {R : Exit → Redirector Connection → Prop}
    (h : Redirector.Connected .programbuf P R) (hinput : ∀ a, Triple P (input a) (fun _ => P) R)
    (houtput : ∀ p, Triple P (forwardOutput p) (fun _ => P) R) (p : Pass) :
    Triple P (connected p) (fun _ => P) R := by
  refine .bind (.get fun _ hr => hr) fun r => ?_
  refine .bind (triple_when fun _ => hinput _) fun _ => ?_
  refine .bind (h.triple_pollDevices _) fun e => ?_
  refine .bind (triple_when fun _ => h.triple_leave (by decide)) fun _ => ?_
  refine .bind (.get fun _ hr => hr) fun r => ?_
  refine .bind (triple_when fun _ => houtput p) fun _ => ?_
  refine .bind (triple_when fun _ => hinput _) fun _ => ?_
  exact h.triple_flush _ _

end VplJail.RedirectorTerminal
