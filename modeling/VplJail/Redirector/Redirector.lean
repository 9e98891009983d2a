import VplJail.WebSocket.Connection

/-!
# Redirectors

`Redirector` and the loop that its three subclasses for a connected client share: `advance` makes
passes over a `switch` on the state until a pass leaves the state as it is. What the operating system
answers in a pass is a `Pass`. A `break` out of the `switch` and an exception are both an `Exit`.

The redirector is kept with a record of what went through it: the bytes written to the program or
local server, the strings that `receive` of the client has returned, and what was read from the
program.
-/

namespace VplJail

open Socket WebSocket

/-- `States`: what a redirector is at. -/
inductive States
  | begin
  | connecting
  | connected
  | ending
  | «end»
  | error
deriving DecidableEq, Repr

/-- The fields of `Redirector` and the object of the client, with the record. -/
structure Redirector (κ : Type) where
  state : States := .begin
  messageBuf : Bytes := []
  programbuf : Bytes := []
  netbuf : Bytes := []
  noOutput : Bool := true
  client : κ
  written : Bytes := []
  received : List Bytes := []
  readings : List Bytes := []

namespace Redirector

variable {κ α : Type}

/-- `JAIL_OUTPUT_BUFFER_SIZE`: the limit of a buffer. -/
def bufferSizeLimit : ℕ := 10 * 1024 * 1024

/-- The `revents` of a device, by the masks `POLLREAD`, `POLLOUT` and `POLLBAD`. -/
structure Events where
  read : Bool := false
  out : Bool := false
  bad : Bool := false
deriving DecidableEq, Repr

/-- The `revents` of the two devices. -/
structure Revents where
  server : Events := {}
  client : Events := {}
deriving DecidableEq, Repr

/-- What `poll` answers. -/
inductive Polled
  | failed
  | timedOut
  | ready (events : Revents)
deriving DecidableEq, Repr

/-- What the calls in one pass are answered, in their order. `read` and `write` have failed where
they answer nothing. -/
structure Pass where
  opened : Bool := true
  connected : Bool := true
  late : Bool := false
  buffered : Answers := {}
  polled : Polled := .timedOut
  read : Option Bytes := none
  output : List SendPoll := []
  received : Answers := {}
  write : Option ℕ := none
  message : List SendPoll := []
  close : List SendPoll := []

/-- Why a pass stops before its end. -/
inductive Exit
  | broken
  | interrupted (i : Interrupt)
deriving DecidableEq, Repr

/-- The steps of a pass. -/
abbrev PassM (κ : Type) := ExceptT Exit (StateM (Redirector κ))

/-- The buffers that input may wait in. -/
inductive Buffer
  | programbuf
  | netbuf
deriving DecidableEq, Repr

/-- What waits in a buffer. -/
def pending (r : Redirector κ) : Buffer → Bytes
  | .programbuf => r.programbuf
  | .netbuf => r.netbuf

/-- The redirector with another content of a buffer. -/
def setPending (r : Redirector κ) (b : Buffer) (content : Bytes) : Redirector κ :=
  match b with
  | .programbuf => { r with programbuf := content }
  | .netbuf => { r with netbuf := content }

section SetPending

variable (r : Redirector κ) (b : Buffer) (content : Bytes)

@[simp] theorem pending_setPending : (r.setPending b content).pending b = content := by
  cases b <;> rfl

@[simp] theorem client_setPending : (r.setPending b content).client = r.client := by
  cases b <;> rfl

@[simp] theorem received_setPending : (r.setPending b content).received = r.received := by
  cases b <;> rfl

@[simp] theorem readings_setPending : (r.setPending b content).readings = r.readings := by
  cases b <;> rfl

end SetPending

/-! ## The calls of the caller -/

/-- `stop`: the redirector is to end. -/
def stop (r : Redirector κ) : Redirector κ :=
  { r with state := .ending }

/-- `isActive`: it has not ended. -/
def isActive (r : Redirector κ) : Bool :=
  decide (r.state ≠ .error) && decide (r.state ≠ .end)

/-- `addMessage`: a notice for the client. -/
def addMessage (toAdd : Bytes) (r : Redirector κ) : Redirector κ :=
  let messageBuf := if r.messageBuf = [] then ascii "\r\n" else r.messageBuf
  { r with messageBuf := messageBuf ++ (ascii "Jail: " ++ toAdd ++ ascii "\r\n") }

/-- `isOutputBufferFull`: nothing more is read from the program. -/
def isOutputBufferFull (r : Redirector κ) : Bool :=
  decide (r.netbuf.length ≥ bufferSizeLimit)

/-- `addInput` and `addVNCInput`: a string that would make the buffer too long is refused. -/
def append (b : Buffer) (onRefusal : Redirector κ → Redirector κ) (toAdd : Bytes)
    (r : Redirector κ) : Bool × Redirector κ :=
  if toAdd.length + (r.pending b).length > frameSizeLimit then (false, onRefusal r)
  else (true, r.setPending b (r.pending b ++ toAdd))

/-- `addInput`: data for the program, unless there is too much. -/
def addInput : Bytes → Redirector κ → Bool × Redirector κ :=
  append .programbuf (addMessage (ascii "input buffer limit reached; terminal session closed."))

/-- `addVNCInput`: data for the VNC server, unless there is too much. -/
def addVNCInput : Bytes → Redirector κ → Bool × Redirector κ :=
  append .netbuf id

/-! ## The steps that the passes are made of -/

/-- `state = s`: the next step is of another state. -/
def setState (s : States) : PassM κ Unit :=
  modify fun r => { r with state := s }

/-- `state = s; break;`: this step is over. -/
def leave (s : States) : PassM κ α := do
  setState s
  throw .broken

/-- An `if` without `else`. -/
def when (c : Bool) (m : PassM κ Unit) : PassM κ Unit :=
  if c then m else pure ()

/-- A call on the object of the client. -/
def onClient (m : ExceptT Interrupt (StateM κ) α) : PassM κ α := do
  let r ← get
  set { r with client := (m.run.run r.client).2 }
  match (m.run.run r.client).1 with
  | .ok a => pure a
  | .error i => throw (.interrupted i)

/-- `client->receive()`. The string that it returns goes into the record. -/
def receiveClient (receive : ExceptT Interrupt (StateM κ) Bytes) : PassM κ Bytes := do
  let data ← onClient receive
  modify fun r => { r with received := r.received ++ [data] }
  pure data

/-- `if (!add(data)) { state = ending; break; }` -/
def accept (add : Bytes → Redirector κ → Bool × Redirector κ) (data : Bytes) : PassM κ Unit := do
  let r ← get
  set (add data r).2
  if (add data r).1 then pure () else leave .ending

/-- `if (!add(client->receive())) { state = ending; break; }` -/
def inputWith (add : Bytes → Redirector κ → Bool × Redirector κ)
    (receive : ExceptT Interrupt (StateM κ) Bytes) : PassM κ Unit := do
  let data ← receiveClient receive
  accept add data

/-- `poll(devices, 2, polltimeout)` -/
def pollDevices : Polled → PassM κ Revents
  | .failed => leave .error
  | .timedOut => throw .broken
  | .ready events => pure events

/-- `read(fd, buf, MAX)`, which ends the connection when it brings nothing. -/
def readServer (answer : Option Bytes) : PassM κ Bytes :=
  let data := (answer.getD []).take netBufferSize
  if data = [] then leave .ending
  else do
    modify fun r => { r with readings := r.readings ++ [data] }
    pure data

/-- `write(fd, buffer.data(), buffer.size())`, and the erasure of what has been written. -/
def writePending (b : Buffer) (answer : Option ℕ) : PassM κ Unit := do
  let r ← get
  let n := min (answer.getD 0) (r.pending b).length
  if n = 0 then leave .ending
  else set { r.setPending b ((r.pending b).drop n) with
    written := r.written ++ (r.pending b).take n }

/-- The end of the connected state: what waits is written, and the connection ends with its server. -/
def flush (b : Buffer) (server : Events) (answer : Option ℕ) : PassM κ Unit := do
  let r ← get
  when (decide ((r.pending b).length > 0) && server.out) (writePending b answer)
  when (server.bad && !server.read) (leave .ending)

/-- `case connected` of the redirectors to a local server. -/
def relay (isClosed isReadBuffered : κ → Bool) (input : Answers → PassM κ Unit)
    (forwardOutput : Pass → PassM κ Unit) (p : Pass) : PassM κ Unit := do
  let r ← get
  when (isClosed r.client) (leave .end)
  when (isReadBuffered r.client) (input p.buffered)
  let e ← pollDevices p.polled
  when e.server.read (forwardOutput p)
  when e.client.read (input p.received)
  flush .netbuf e.server p.write

/-- The `switch` on the state, whose last cases are the same in all redirectors. -/
def switch (begin connecting connected ended : PassM κ Unit) : PassM κ Unit := do
  let r ← get
  match r.state with
  | .begin => begin
  | .connecting => connecting
  | .connected => connected
  | .ending => setState .end
  | .end => ended
  | .error => ended

/-- The loop of `advance`: why it was cut short, if it was. -/
def advance (pass : Pass → PassM κ Unit) (r : Redirector κ) :
    List Pass → Option Interrupt × Redirector κ
  | [] => (some .waiting, r)
  | p :: ps =>
      let done := (pass p).run.run r
      match done.1 with
      | .error (.interrupted i) => (some i, done.2)
      | .error .broken =>
          if done.2.state = r.state then (none, done.2) else advance pass done.2 ps
      | .ok () => if done.2.state = r.state then (none, done.2) else advance pass done.2 ps

/-! ## Rules for the steps -/

section Rules

variable {P : Redirector κ → Prop} {R : Exit → Redirector κ → Prop}

theorem triple_leave {Q : α → Redirector κ → Prop} {s : States}
    (h : ∀ r, P r → R .broken { r with state := s }) : Triple P (leave s : PassM κ α) Q R :=
  .bind (Q := fun _ => R .broken) (.modify h) fun _ => .throw fun _ hr => hr

theorem triple_setState {s : States} {Q : Redirector κ → Prop}
    (h : ∀ r, P r → Q { r with state := s }) : Triple P (setState s) (fun _ => Q) R :=
  .modify h

theorem triple_when {c : Bool} {m : PassM κ Unit} (h : c = true → Triple P m (fun _ => P) R) :
    Triple P (when c m) (fun _ => P) R :=
  .ite h fun _ => .pure fun _ hr => hr

theorem triple_onClient {m : ExceptT Interrupt (StateM κ) α} {C : κ → Prop} {Q : α → κ → Prop}
    {E : Interrupt → κ → Prop} (hm : Triple C m Q E) {S : α → Redirector κ → Prop}
    (hC : ∀ r, P r → C r.client)
    (hQ : ∀ r a c, P r → Q a c → S a { r with client := c })
    (hE : ∀ r i c, P r → E i c → R (.interrupted i) { r with client := c }) :
    Triple P (onClient m) S R := by
  refine .bind_get fun r hr => ?_
  have hclient := hm r.client (hC r hr)
  cases hrun : m.run.run r.client with
  | mk x c =>
    rw [hrun] at hclient
    refine .bind (Q := fun _ r' => r' = { r with client := c }) (.set fun _ _ => rfl) fun _ => ?_
    cases x with
    | ok a => exact .pure fun _ h => h ▸ hQ r a c hr hclient
    | error i => exact .throw fun _ h => h ▸ hE r i c hr hclient

theorem triple_receiveClient {receive : ExceptT Interrupt (StateM κ) Bytes}
    {Q : Bytes → κ → Prop} {C : κ → Prop} {E : Interrupt → κ → Prop} (hm : Triple C receive Q E)
    {S : Bytes → Redirector κ → Prop} (hC : ∀ r, P r → C r.client)
    (hQ : ∀ r data c, P r → Q data c →
      S data { r with client := c, received := r.received ++ [data] })
    (hE : ∀ r i c, P r → E i c → R (.interrupted i) { r with client := c }) :
    Triple P (receiveClient receive) S R :=
  .bind (Q := fun data r => S data { r with received := r.received ++ [data] })
    (triple_onClient hm hC hQ hE) fun data =>
      .bind (Q := fun _ => S data) (.modify fun _ hr => hr) fun _ => .pure fun _ hr => hr

theorem triple_accept {add : Bytes → Redirector κ → Bool × Redirector κ} {data : Bytes}
    {Q : Redirector κ → Prop} (htrue : ∀ r, P r → (add data r).1 = true → Q (add data r).2)
    (hfalse : ∀ r, P r → (add data r).1 = false →
      R .broken { (add data r).2 with state := .ending }) :
    Triple P (accept add data) (fun _ => Q) R := by
  refine .bind_get fun r hr => ?_
  refine .bind (Q := fun _ r' => r' = (add data r).2) (.set fun _ _ => rfl) fun _ => .ite ?_ ?_
  · exact fun hadd => .pure fun _ h => h ▸ htrue r hr hadd
  · exact fun hadd => triple_leave fun _ h => h ▸ hfalse r hr (Bool.eq_false_of_not_eq_true hadd)

theorem triple_pollDevices (hbreak : ∀ r, P r → R .broken r)
    (herror : ∀ r, P r → R .broken { r with state := .error }) (answer : Polled) :
    Triple P (pollDevices answer) (fun _ => P) R := by
  cases answer with
  | failed => exact triple_leave herror
  | timedOut => exact .throw hbreak
  | ready events => exact .pure fun _ hr => hr

theorem triple_readServer {Q : Bytes → Redirector κ → Prop}
    (hleave : ∀ r, P r → R .broken { r with state := .ending })
    (hread : ∀ r data, P r → Q data { r with readings := r.readings ++ [data] })
    (answer : Option Bytes) : Triple P (readServer answer) Q R :=
  .ite (fun _ => triple_leave hleave) fun _ =>
    .bind (Q := fun _ => Q ((answer.getD []).take netBufferSize))
      (.modify fun r hr => hread r _ hr) fun _ => .pure fun _ hr => hr

theorem triple_writePending {b : Buffer} (hleave : ∀ r, P r → R .broken { r with state := .ending })
    (hwrite : ∀ r n, P r → n ≤ (r.pending b).length → P { r.setPending b ((r.pending b).drop n) with
      written := r.written ++ (r.pending b).take n })
    (answer : Option ℕ) : Triple P (writePending b answer) (fun _ => P) R := by
  refine .bind_get fun r hr => .ite (fun _ => ?_) fun _ => ?_
  · exact triple_leave fun _ h => h ▸ hleave r hr
  · exact .set fun _ _ => hwrite r _ hr (Nat.min_le_right _ _)

/-- The states behind the connected one. -/
def Late (s : States) : Prop :=
  s ∈ [States.ending, .end, .error]

instance (s : States) : Decidable (Late s) :=
  inferInstanceAs (Decidable (_ ∈ _))

theorem late_ending : Late .ending := by decide

/-- What the connected state keeps where nothing is received or read, and what holds where it is
left. -/
structure Connected (b : Buffer) (P : Redirector κ → Prop) (R : Exit → Redirector κ → Prop) :
    Prop where
  pause : ∀ r, P r → R .broken r
  leave : ∀ r s, Late s → P r → R .broken { r with state := s }
  write : ∀ r n, P r → n ≤ (r.pending b).length → P { r.setPending b ((r.pending b).drop n) with
    written := r.written ++ (r.pending b).take n }

theorem Connected.triple_leave {b : Buffer} (h : Connected b P R) {s : States} (hs : Late s)
    {Q : α → Redirector κ → Prop} : Triple P (Redirector.leave s : PassM κ α) Q R :=
  Redirector.triple_leave fun r hr => h.leave r s hs hr

theorem Connected.triple_pollDevices {b : Buffer} (h : Connected b P R) (answer : Polled) :
    Triple P (pollDevices answer) (fun _ => P) R :=
  Redirector.triple_pollDevices h.pause (fun r hr => h.leave r _ (by decide) hr) answer

theorem Connected.triple_flush {b : Buffer} (h : Connected b P R) (server : Events)
    (answer : Option ℕ) : Triple P (flush b server answer) (fun _ => P) R := by
  refine .bind (.get fun _ hr => hr) fun r => ?_
  refine .bind (triple_when fun _ => ?_) fun _ => ?_
  · exact triple_writePending (fun r hr => h.leave r _ (by decide) hr) h.write answer
  · exact triple_when fun _ => h.triple_leave (by decide)

end Rules

end Redirector

end VplJail
