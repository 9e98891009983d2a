import VplJail.Redirector.Terminal
import VplJail.WebSocket.Emission

/-!
# The close of a terminal

`runTerminal` calls `advance` while the redirector is active and the WebSocket is not closed, and
between two calls it may stop the redirector and add messages. The redirector sends its messages and
then the close frame in its last state, and the socket stays open until the client has answered. If
it is stopped once more in that time it becomes active again, and what it has to say then is sent
behind the close frame. `closeLast_of_reaches` is about the runs in which it has nothing to say.
-/

namespace VplJail.RedirectorTerminal

open Redirector Socket WebSocket WebSocket.Connection

/-! ## Passes -/

/-- There is nothing to send in the last state. -/
def Quiet (r : Redirector Connection) : Prop :=
  r.messageBuf = [] ∧ r.noOutput = false

/-- The client is ready for more frames. -/
def CanSend (r : Redirector Connection) : Prop :=
  Ready r.client

/-- The client is ready for more frames, or there will be none but a close frame. -/
def Settled (r : Redirector Connection) : Prop :=
  CanSend r ∨ Orderly r.client ∧ Quiet r

/-- A pass that is cut short by an exception leaves the frames in order. -/
def Cut (P : Redirector Connection → Prop) : Exit → Redirector Connection → Prop
  | .broken, r => P r
  | .interrupted _, r => CloseLast r.client.emitted

section Connected

variable {α : Type}

theorem ready_onClient {m : ConnectionM α}
    (hm : Triple Ready m (fun _ => Ready) (fun _ c => CloseLast c.emitted)) :
    Triple CanSend (onClient m) (fun _ => CanSend)
      (Cut CanSend) :=
  triple_onClient hm (fun _ hr => hr) (fun _ _ _ _ hc => hc) fun _ _ _ _ hc => hc

theorem ready_input (a : Answers) :
    Triple CanSend (input a) (fun _ => CanSend)
      (Cut CanSend) := by
  have hclient (data : Bytes) (r : Redirector Connection) :
      (addInput data r).2.client = r.client := by
    rw [addInput, append]
    split_ifs <;> rfl
  refine .bind (triple_receiveClient (P := CanSend) (S := fun _ => CanSend) (ready_receive a)
    (fun _ hr => hr) (fun _ _ _ _ hc => hc) fun _ _ _ _ hc => hc) fun data =>
      triple_accept (fun r hr _ => ?_) ?_
  · rwa [CanSend, hclient]
  · intro r hr _
    show Ready (addInput data r).2.client
    rwa [hclient]

theorem ready_forwardOutput (p : Pass) :
    Triple CanSend (forwardOutput p) (fun _ => CanSend)
      (Cut CanSend) :=
  .bind (Q := fun _ => CanSend)
    (triple_readServer (P := CanSend) (fun _ hr => hr) (fun _ _ hr => hr) _) fun _ =>
    .bind (.modify fun _ hr => hr) fun _ => ready_onClient (ready_send _ _)

theorem ready_connected (p : Pass) :
    Triple CanSend (connected p) (fun _ => CanSend)
      (Cut CanSend) :=
  triple_connected (P := CanSend) (R := Cut CanSend)
    ⟨fun _ hr => hr, fun _ _ _ hr => hr, fun _ _ hr _ => hr⟩ ready_input
    ready_forwardOutput p

end Connected

theorem Settled.orderly {r : Redirector Connection} (h : Settled r) : Orderly r.client :=
  h.elim (fun h => h.1) fun h => h.1

theorem Settled.canSend {r : Redirector Connection} (h : Settled r)
    (hsay : r.noOutput = true ∨ r.messageBuf.length > 0) : CanSend r := by
  rcases h with h | ⟨-, hmessage, houtput⟩
  · exact h
  · rw [hmessage, houtput] at hsay
    exact absurd hsay (by decide)

/-- `sendMessage` where a frame may still be sent. -/
theorem settled_sendMessage (s : States) (p : Pass) :
    Triple (fun r => CanSend r ∧ r.state = s) (sendMessage p) (fun _ r => Settled r ∧ r.state = s)
      (Cut fun r => Orderly r.client ∧ r.state = s) := by
  refine .bind_get fun r hr => ?_
  have hsend := triple_onClient (P := fun r' => r' = r)
    (R := Cut fun r => Orderly r.client ∧ r.state = s) (S := fun _ r => CanSend r ∧ r.state = s)
    (ready_send r.messageBuf p.message) (fun _ h => h ▸ hr.1) (fun _ _ _ h hc => ⟨hc, h ▸ hr.2⟩)
    fun _ _ _ _ hc => hc
  exact .bind hsend fun _ => .modify fun _ h => ⟨.inl h.1, h.2⟩

/-- In the last states the messages are sent, and then the close frame. -/
theorem settled_ended (s : States) (p : Pass) :
    Triple (fun r => Settled r ∧ r.state = s) (ended p)
      (fun _ r => Orderly r.client ∧ r.state = s)
      (Cut fun r => Orderly r.client ∧ r.state = s) := by
  refine .bind_get fun r hr => .bind (Q := fun _ r => Settled r ∧ r.state = s) ?_ fun _ => ?_
  · refine .ite (fun hsilent => .modify fun _ h => ?_) fun _ => .pure fun _ h => h ▸ hr
    subst h
    exact ⟨.inl (hr.1.canSend (.inl hsilent)), hr.2⟩
  refine .bind_get fun r hr => .bind (Q := fun _ r => Settled r ∧ r.state = s) ?_ fun _ => ?_
  · refine .ite (fun hmessage => ?_) fun _ => .pure fun _ h => h ▸ hr
    exact (settled_sendMessage s p).at_state ⟨hr.1.canSend (.inr (of_decide_eq_true hmessage)), hr.2⟩
  refine .bind_get fun r hr => .ite (fun _ => ?_) fun _ => .pure fun _ h => h ▸ ⟨hr.1.orderly, hr.2⟩
  exact triple_onClient (orderly_close [] p.close) (fun _ h => h ▸ hr.1.orderly)
    (fun _ _ _ h hc => ⟨hc, h ▸ hr.2⟩) fun _ _ _ _ hc => hc

/-! ## Calls of `advance` -/

/-- What holds between two passes of a call. -/
def Between (r : Redirector Connection) : Prop :=
  CanSend r ∨ (Orderly r.client ∧ Quiet r) ∧ Late r.state

/-- What holds behind a call. -/
def Behind (r : Redirector Connection) : Prop :=
  Orderly r.client ∧ (CanSend r ∨ Late r.state)

theorem Between.settled {r : Redirector Connection} (h : Between r) : Settled r :=
  h.imp id fun h => h.1

theorem Between.behind {r : Redirector Connection} (h : Between r) : Behind r :=
  ⟨h.settled.orderly, h.imp id fun h => h.2⟩

/-- Before the last states a pass goes on. -/
theorem between_pass (fdps : ℤ) (p : Pass) {r : Redirector Connection} (hr : Between r)
    (hnot : r.state ≠ .end ∧ r.state ≠ .error) :
    Triple (fun r' => r' = r) (pass fdps p) (fun _ => Between) (Cut Between) := by
  have hearly (h : ¬ Late r.state) : CanSend r := hr.elim id fun hq => absurd hq.2 h
  refine .bind_get fun r' h => ?_
  subst h
  cases hs : r'.state with
  | begin =>
    have hready := hearly (by rw [hs, Late]; decide)
    exact .ite (fun _ => triple_setState fun _ h => h ▸ .inl hready)
      fun _ => triple_setState fun _ h => h ▸ .inl hready
  | connecting =>
    have hready := hearly (by rw [hs, Late]; decide)
    exact triple_setState fun _ h => h ▸ .inl hready
  | connected =>
    have hready := hearly (by rw [hs, Late]; decide)
    refine ((ready_connected p).at_state hready).weaken (fun _ h => h) (fun _ _ h => .inl h) ?_
    intro e _ h
    cases e with
    | broken => exact .inl h
    | interrupted i => exact h
  | ending =>
    refine triple_setState fun _ h => h ▸ hr.imp id fun h => ⟨h.1, ?_⟩
    show Late .end
    decide
  | «end» => exact absurd hs hnot.1
  | error => exact absurd hs hnot.2

/-- A call that comes back, and one that is cut short. -/
def Returned (done : Option Interrupt × Redirector Connection) : Prop :=
  CloseLast done.2.client.emitted ∧ (done.1 = none → Behind done.2)

theorem returned_of_behind {r : Redirector Connection} (h : Behind r) : Returned (none, r) :=
  ⟨h.1.closeLast, fun _ => h⟩

/-- In the last states a pass sends what is left to send, and the call comes back. -/
theorem returned_of_last (fdps : ℤ) (p : Pass) (ps : List Pass) {r : Redirector Connection}
    (hr : Between r) (hlast : r.state = .end ∨ r.state = .error) :
    Returned (advance fdps r (p :: ps)) := by
  have hrun : (pass fdps p).run.run r = (ended p).run.run r := by
    rw [pass, switch, run_bind_get]
    rcases hlast with h | h <;> rw [h]
  have hlate : Late r.state := by
    rcases hlast with h | h <;> rw [h, Late] <;> decide
  have hended := settled_ended r.state p r ⟨hr.settled, rfl⟩
  rw [advance, Redirector.advance, hrun]
  cases hdone : (ended p).run.run r with
  | mk x r' =>
    rw [hdone] at hended
    have hback (h : Orderly r'.client ∧ r'.state = r.state) : Behind r' :=
      ⟨h.1, .inr (h.2 ▸ hlate)⟩
    cases x with
    | ok u =>
      dsimp only
      rw [if_pos hended.2]
      exact returned_of_behind (hback hended)
    | error e =>
      cases e with
      | broken =>
        dsimp only
        rw [if_pos hended.2]
        exact returned_of_behind (hback hended)
      | interrupted i => exact ⟨hended, fun h => by cases h⟩

/-- A call keeps the frames in order. -/
theorem returned_advance (fdps : ℤ) (ps : List Pass) {r : Redirector Connection}
    (hr : Between r) : Returned (advance fdps r ps) := by
  induction ps generalizing r with
  | nil => exact ⟨hr.settled.orderly.closeLast, fun h => by cases h⟩
  | cons p ps ih =>
    by_cases hlast : r.state = .end ∨ r.state = .error
    · exact returned_of_last fdps p ps hr hlast
    have hpass := between_pass fdps p hr (not_or.mp hlast) r rfl
    rw [advance, Redirector.advance]
    cases hrun : (pass fdps p).run.run r with
    | mk x r' =>
      rw [hrun] at hpass
      dsimp only
      have hnext (hnext : Between r') : Returned
          (if r'.state = r.state then (none, r') else Redirector.advance (pass fdps) r' ps) := by
        split_ifs
        · exact returned_of_behind hnext.behind
        · exact ih hnext
      cases x with
      | ok u => exact hnext hpass
      | error e =>
        cases e with
        | broken => exact hnext hpass
        | interrupted i => exact ⟨hpass, fun h => by cases h⟩

/-! ## Runs -/

/-- The loop of `runTerminal`: its redirector, and whether an exception has ended it. -/
structure Loop where
  redirector : Redirector Connection
  thrown : Bool := false

/-- A step of the loop. `advance` is called after the test of the loop, and where `ok` allows it. -/
inductive Step (fdps : ℤ) (ok : Redirector Connection → Prop) : Loop → Loop → Prop
  | advance {r : Redirector Connection} (ps : List Pass) (hactive : r.isActive = true)
      (hopen : r.client.isClosed = false) (hok : ok r) :
      Step fdps ok ⟨r, false⟩ ⟨(advance fdps r ps).2, (advance fdps r ps).1.isSome⟩
  | stop {r : Redirector Connection} : Step fdps ok ⟨r, false⟩ ⟨r.stop, false⟩
  | addMessage {r : Redirector Connection} (toAdd : Bytes) :
      Step fdps ok ⟨r, false⟩ ⟨r.addMessage toAdd, false⟩

/-- The runs. -/
abbrev Reaches (fdps : ℤ) (ok : Redirector Connection → Prop) : Loop → Loop → Prop :=
  Relation.ReflTransGen (Step fdps ok)

/-- Once the close frame is sent, there is nothing more to say. -/
def NothingToSay (r : Redirector Connection) : Prop :=
  r.client.ws.closeSent = true → Quiet r

/-- What holds at every step of a run. -/
def Inv (l : Loop) : Prop :=
  CloseLast l.redirector.client.emitted ∧ (l.thrown = false → Behind l.redirector)

theorem Inv.step {fdps : ℤ} {l l' : Loop} (h : Inv l) (hstep : Step fdps NothingToSay l l') :
    Inv l' := by
  cases hstep with
  | advance ps hactive hopen hok =>
    rename_i r
    have hbehind : Behind r := h.2 rfl
    have hbetween : Between r := by
      rcases hbehind.2 with hready | hlate
      · exact .inl hready
      · cases hsent : r.client.ws.closeSent with
        | true => exact .inr ⟨⟨hbehind.1, hok hsent⟩, hlate⟩
        | false =>
          refine .inl ⟨hbehind.1, fun h => ?_⟩
          cases hsent.symm.trans h
    obtain ⟨hlast, hnone⟩ := returned_advance fdps ps hbetween
    refine ⟨hlast, fun hover => hnone ?_⟩
    exact Option.isNone_iff_eq_none.mp (Option.isSome_eq_false_iff.mp hover)
  | stop =>
    have hbehind := h.2 rfl
    exact ⟨h.1, fun _ => ⟨hbehind.1, .inr late_ending⟩⟩
  | addMessage toAdd => exact ⟨h.1, fun _ => h.2 rfl⟩

/-- In every run in which there is nothing more to say once the close frame is sent, there is at
most one close frame and no text frame behind it. -/
theorem closeLast_of_reaches {fdps : ℤ} {ws : Connection} (hsent : ws.ws.closeSent = false)
    (hemitted : ws.emitted = []) {l : Loop}
    (h : Reaches fdps NothingToSay ⟨{ client := ws }, false⟩ l) :
    CloseLast l.redirector.client.emitted := by
  have hready : Ready ws := by
    refine ⟨⟨?_, ?_⟩, fun h => ?_⟩
    · rw [hemitted]
      exact List.Pairwise.nil
    · rw [hemitted]
      exact fun frame hframe => absurd hframe List.not_mem_nil
    · cases hsent.symm.trans h
  have hstart : Inv ⟨{ client := ws }, false⟩ :=
    ⟨hready.1.closeLast, fun _ => ⟨hready.1, .inl hready⟩⟩
  exact (invariant_of_reaches (fun _ _ hinv hstep => Inv.step hinv hstep) h hstart).1

/-- A connection with nothing received yet. -/
def freshConnection : Connection :=
  { ws :=
      { closeSent := false
        base64 := false
        previousData := []
        lFrameType := .text
        receiveBuffer := [] }
    socket := { header := ascii "GET" } }

/-- The passes of a call in which the program closes its terminal without any output. -/
def hangUp : List Pass :=
  let ready : List SendPoll := [.ready { pollout := some (.wrote netBufferSize) }]
  [{}, { polled := .ready { server := { bad := true } } }, {}, { message := ready, close := ready }]

/-- The first call of a run. -/
theorem step_hangUp (ok : Redirector Connection → Prop) (hok : ok { client := freshConnection }) :
    Step 5 ok ⟨{ client := freshConnection }, false⟩
      ⟨(advance 5 { client := freshConnection } hangUp).2,
        (advance 5 { client := freshConnection } hangUp).1.isSome⟩ :=
  .advance hangUp rfl rfl hok

/-- A program that closes its terminal and ends. -/
theorem closeLast_of_reaches_hangUp :
    CloseLast (advance 5 { client := freshConnection } hangUp).2.client.emitted := by
  have hfresh : NothingToSay { client := freshConnection } := fun h => by cases h
  have hall (r : Redirector Connection) (thrown : Bool)
      (h : Step 5 NothingToSay ⟨{ client := freshConnection }, false⟩ ⟨r, thrown⟩) :
      CloseLast r.client.emitted :=
    closeLast_of_reaches (l := ⟨r, thrown⟩) rfl rfl (.single h)
  exact hall _ _ (step_hangUp _ hfresh)

/-- The redirector behind that call. -/
def hungUp : Redirector Connection :=
  (advance 5 { client := freshConnection } hangUp).2

/-- The redirector once the caller has stopped it. -/
def outOfTime : Redirector Connection :=
  (hungUp.addMessage (ascii "execution time limit reached.")).stop

/-- The passes of a call that comes back to the last state. -/
def again : List Pass :=
  [{}, { message := [.ready { pollout := some (.wrote netBufferSize) }] }]

/-- A program that closes its terminal and goes on until its time is over: the message about the time
is a text frame behind the close frame. -/
theorem not_closeLast_of_reaches :
    ¬ ∀ (fdps : ℤ) (ws : Connection) (l : Loop), ws.ws.closeSent = false → ws.emitted = [] →
      Reaches fdps (fun _ => True) ⟨{ client := ws }, false⟩ l →
        CloseLast l.redirector.client.emitted := by
  intro hall
  have hover : (advance 5 { client := freshConnection } hangUp).1.isSome = false := by
    decide +kernel
  have hopen : outOfTime.client.isClosed = false := by
    decide +kernel
  have hfirst := step_hangUp (fun _ => True) trivial
  rw [hover] at hfirst
  have hlast (r : Redirector Connection) (thrown : Bool)
      (h : Step 5 (fun _ => True) ⟨outOfTime, false⟩ ⟨r, thrown⟩) : CloseLast r.client.emitted :=
    hall 5 freshConnection ⟨r, thrown⟩ rfl rfl
      ((((Relation.ReflTransGen.single hfirst).tail (.addMessage _)).tail .stop).tail h)
  have hsecond := hlast _ _ (.advance again rfl hopen trivial)
  rw [CloseLast] at hsecond
  revert hsecond
  decide +kernel

end VplJail.RedirectorTerminal
