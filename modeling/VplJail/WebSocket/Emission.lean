import VplJail.WebSocket.Connection

/-!
# What a connection emits

Rules for the calls of a `webSocket`, and the order of the frames that they emit: a call of `receive`
or `send` on a connection that is `Ready` emits no text and no close frame behind a close frame.
-/

namespace VplJail.WebSocket

open Socket

/-! ## Frames -/

theorem opcode_encodeFrame {ft : FrameType} (h : ft ≠ .binary) (base64 : Bool) (data : Bytes) :
    opcode (encodeFrame base64 data ft) = (0x80 ||| ft.code).toNat % 16 := by
  have hft : (if base64 && ft == .binary then .text else ft) = ft := by
    rw [if_neg]
    simp [h]
  rw [encodeFrame, hft]
  rfl

theorem isText_encodeFrame (base64 : Bool) (data : Bytes) :
    IsText (encodeFrame base64 data .text) :=
  opcode_encodeFrame (by decide) base64 data

theorem isClose_encodeFrame (base64 : Bool) (data : Bytes) :
    IsClose (encodeFrame base64 data .connectionClose) :=
  opcode_encodeFrame (by decide) base64 data

theorem isPong_encodeFrame (base64 : Bool) (data : Bytes) :
    IsPong (encodeFrame base64 data .pong) :=
  opcode_encodeFrame (by decide) base64 data

theorem IsText.not_isClose {frame : Bytes} (h : IsText frame) : ¬ IsClose frame := by
  rw [IsText] at h
  rw [IsClose, h]
  decide

theorem IsPong.not_isClose {frame : Bytes} (h : IsPong frame) : ¬ IsClose frame := by
  rw [IsPong] at h
  rw [IsClose, h]
  decide

/-- What a call of `receive` may send: it goes on, with pongs at most, or it closes, with a close
frame at most, which is the first. -/
def Replies (s : Session) (o : Outcome) : Prop :=
  (o.closed = false ∧ o.session.closeSent = s.closeSent ∧ ∀ frame ∈ o.sent, IsPong frame) ∨
    (o.closed = true ∧ o.session.closeSent = true ∧
      (o.sent = [] ∨ s.closeSent = false ∧ ∃ frame, IsClose frame ∧ o.sent = [frame]))

theorem replies_closeAndReturn (s : Session) (t : Bytes) : Replies s (closeAndReturn s t) := by
  refine .inr ⟨rfl, ?_⟩
  rw [closeAndReturn, close]
  cases hsent : s.closeSent with
  | true => exact ⟨hsent, .inl rfl⟩
  | false => exact ⟨rfl, .inr ⟨rfl, _, isClose_encodeFrame _ _, rfl⟩⟩

theorem replies_receiveData (s : Session) (fin : Bool) (data : Bytes) :
    Replies s (receiveData s fin data) := by
  have hquiet {o : Outcome} (hclosed : o.closed = false)
      (hsession : o.session.closeSent = s.closeSent) (hsent : o.sent = []) : Replies s o :=
    .inl ⟨hclosed, hsession, fun frame hframe => absurd (hsent ▸ hframe) List.not_mem_nil⟩
  rw [receiveData]
  cases fin with
  | true =>
    rw [if_pos rfl]
    dsimp only
    by_cases hinvalid : s.lFrameType = .text ∧
        ¬ isValidUTF8 (if s.previousData.length > 0 then s.previousData ++ data else data) = true
    · rw [if_pos hinvalid]
      refine .inr ⟨rfl, rfl, ?_⟩
      cases hsent : s.closeSent with
      | true => exact .inl rfl
      | false => exact .inr ⟨rfl, _, isClose_encodeFrame _ _, rfl⟩
    · rw [if_neg hinvalid]
      exact hquiet rfl rfl rfl
  | false =>
    rw [if_neg Bool.false_ne_true]
    split_ifs
    · exact replies_closeAndReturn s _
    · exact hquiet rfl rfl rfl

theorem replies_receiveFrame (s : Session) (fin : Bool) (data : Bytes) :
    Replies s (receiveFrame s fin data) := by
  rw [receiveFrame]
  split
  · exact replies_receiveData s fin data
  · exact replies_receiveData s fin data
  · exact replies_closeAndReturn s _
  · refine .inl ⟨rfl, rfl, fun frame hframe => ?_⟩
    rw [List.mem_singleton.mp hframe]
    exact isPong_encodeFrame _ _
  · exact .inl ⟨rfl, rfl, fun frame hframe => absurd hframe List.not_mem_nil⟩
  all_goals exact replies_closeAndReturn s _

theorem replies_receive (ws : State) (chunk : Bytes) :
    Replies ws.toSession (receive ws chunk).1 := by
  have hquiet (r : Return) : Replies ws.toSession ⟨ws.toSession, [], false, r⟩ :=
    .inl ⟨rfl, rfl, fun frame hframe => absurd hframe List.not_mem_nil⟩
  rw [receive]
  split_ifs
  · exact replies_closeAndReturn _ _
  · rw [receiveDecoded]
    split
    · exact replies_closeAndReturn { ws.toSession with lFrameType := .error } _
    · exact .inl ⟨rfl, rfl, fun frame hframe => absurd hframe List.not_mem_nil⟩
    · rename_i payload ft fin rest _
      exact replies_receiveFrame { ws.toSession with lFrameType := ft } fin payload
  · exact hquiet _

/-! ## Rules for the calls -/

namespace Connection

section Rules

variable {P : Connection → Prop} {E : Interrupt → Connection → Prop}

/-- A frame is logged, and taken if the socket is open. A closed socket stays as it is. -/
theorem triple_sendFrame {Q : Connection → Prop} {frame : Bytes} (polls : List SendPoll)
    (hopen : ∀ c socket, P c → c.socket.closed = false →
      let c' : Connection :=
        { c with socket, handed := c.handed ++ [frame], emitted := c.emitted ++ [frame] }
      Q c' ∧ ∀ i, E i c')
    (hclosed : ∀ c, P c → c.socket.closed = true → Q { c with handed := c.handed ++ [frame] }) :
    Triple P (sendFrame frame polls) (fun _ => Q) E := by
  refine .bind_get fun c hc => ?_
  refine .bind (Q := fun _ c' => c' = (c.handOver frame polls).1) (.set fun _ _ => rfl) fun _ => ?_
  cases hsocket : c.socket.closed with
  | true =>
    have hover : c.handOver frame polls = ({ c with handed := c.handed ++ [frame] }, .returned) := by
      simp [handOver, Socket.send, hsocket]
    rw [hover]
    exact .pure fun _ h => h ▸ hclosed c hc hsocket
  | false =>
    have hover : (c.handOver frame polls).1 =
        { c with
          socket := (c.socket.send frame false polls).2.1
          handed := c.handed ++ [frame]
          emitted := c.emitted ++ [frame] } := by
      simp [handOver, hsocket]
    obtain ⟨hQ, hE⟩ := hopen c (c.socket.send frame false polls).2.1 hc hsocket
    rw [hover]
    cases (c.handOver frame polls).2 with
    | returned => exact .pure fun _ h => h ▸ hQ
    | raised e => exact .throw fun _ h => h ▸ hE _
    | waiting => exact .throw fun _ h => h ▸ hE _

/-- The socket changes in a read, and is not opened again. -/
theorem triple_receiveChunk {Q : Connection → Prop} (polls : List RecvPoll)
    (h : ∀ c socket, P c → (c.socket.closed = true → socket.closed = true) →
      let c' : Connection := { c with socket }
      Q c' ∧ ∀ i, E i c') :
    Triple P (receiveChunk polls) (fun _ => Q) E := by
  refine .bind_get fun c hc => ?_
  have hclosed : c.socket.closed = true → (c.socket.receive 0 polls).1.closed = true := by
    intro hclosed
    rw [Socket.receive, if_pos hclosed]
    exact hclosed
  obtain ⟨hQ, hE⟩ := h c (c.socket.receive 0 polls).1 hc hclosed
  refine .bind (Q := fun _ c' => c' = { c with socket := (c.socket.receive 0 polls).1 })
    (.set fun _ _ => rfl) fun _ => ?_
  cases (c.socket.receive 0 polls).2.1 with
  | returned chunk => exact .pure fun _ h => h ▸ hQ
  | raised e => exact .throw fun _ h => h ▸ hE _
  | waiting => exact .throw fun _ h => h ▸ hE _

end Rules

/-! ## The order of the frames -/

/-- There is at most one close frame, and no text frame behind it. -/
def CloseLast (frames : List Bytes) : Prop :=
  frames.Pairwise fun frame frame' => IsClose frame → ¬ IsClose frame' ∧ ¬ IsText frame'

theorem closeLast_append {frames : List Bytes} (frame : Bytes) (h : CloseLast frames)
    (hframe : ∀ frame' ∈ frames, ¬ IsClose frame') : CloseLast (frames ++ [frame]) := by
  refine List.pairwise_append.mpr ⟨h, List.pairwise_singleton _ _, fun frame' hmem => ?_⟩
  exact fun _ _ hclose => absurd hclose (hframe frame' hmem)

/-- The frames are in order, and `closeSent` tells whether one of them is a close frame. -/
structure Orderly (c : Connection) : Prop where
  closeLast : CloseLast c.emitted
  closeSent : ∀ frame ∈ c.emitted, IsClose frame → c.ws.closeSent = true

/-- Nothing is emitted behind a close frame, as the socket has been closed. -/
def Ready (c : Connection) : Prop :=
  Orderly c ∧ (c.ws.closeSent = true → c.socket.closed = true)

theorem Orderly.not_isClose {c : Connection} (h : Orderly c) (hsent : c.ws.closeSent = false) :
    ∀ frame ∈ c.emitted, ¬ IsClose frame := by
  intro frame hframe hclose
  cases hsent.symm.trans (h.closeSent frame hframe hclose)

/-- A frame that is not a close frame. -/
theorem ready_sendFrame {frame : Bytes} (hframe : ¬ IsClose frame) (sent : Bool)
    (polls : List SendPoll) :
    Triple (fun c => Ready c ∧ c.ws.closeSent = sent) (sendFrame frame polls)
      (fun _ c => Ready c ∧ c.ws.closeSent = sent) (fun _ c => CloseLast c.emitted) := by
  refine triple_sendFrame polls (fun c socket hc hopen => ?_) fun c hc _ => ?_
  · have hsent : c.ws.closeSent = false := by
      by_contra hsent
      exact absurd ((hc.1.2 (Bool.eq_true_of_not_eq_false hsent)).symm.trans hopen) (by decide)
    have hlast := closeLast_append frame hc.1.1.closeLast (hc.1.1.not_isClose hsent)
    refine ⟨⟨⟨⟨hlast, fun frame' hmem hclose => ?_⟩, fun h => ?_⟩, hc.2⟩, fun _ => hlast⟩
    · rcases List.mem_append.mp hmem with hold | hnew
      · exact hc.1.1.closeSent frame' hold hclose
      · exact absurd (List.mem_singleton.mp hnew ▸ hclose) hframe
    · cases hsent.symm.trans h
  · exact ⟨⟨⟨hc.1.1.closeLast, hc.1.1.closeSent⟩, hc.1.2⟩, hc.2⟩

/-- The replies of a call that goes on. -/
theorem ready_reply {session : Session} (polls : List SendPoll) {frames : List Bytes}
    (hframes : ∀ frame ∈ frames, ¬ IsClose frame) :
    Triple (fun c => Ready c ∧ c.ws.closeSent = session.closeSent) (reply session frames polls)
      (fun _ => Ready) (fun _ c => CloseLast c.emitted) := by
  induction frames with
  | nil =>
    rw [reply, List.forM_nil, pure_bind]
    refine .modify fun c hc => ?_
    rw [← hc.2]
    exact hc.1
  | cons frame frames ih =>
    obtain ⟨hframe, hrest⟩ := List.forall_mem_cons.mp hframes
    rw [reply, List.forM_cons, bind_assoc]
    exact .bind (ready_sendFrame hframe _ polls) fun _ => ih hrest

/-- The reply of a call that closes. -/
theorem orderly_reply (session : Session) {frames : List Bytes} (polls : List SendPoll)
    (hsession : session.closeSent = true)
    (hframes : frames = [] ∨ ∃ frame, IsClose frame ∧ frames = [frame]) :
    Triple (fun c => Orderly c ∧ (frames ≠ [] → c.ws.closeSent = false))
      (reply session frames polls) (fun _ c => Orderly c ∧ c.ws.closeSent = true)
      (fun _ c => CloseLast c.emitted) := by
  have hmark (c : Connection) (hc : CloseLast c.emitted) :
      let c' : Connection := { c with ws.closeSent := session.closeSent }
      Orderly c' ∧ c'.ws.closeSent = true :=
    ⟨⟨hc, fun _ _ _ => hsession⟩, hsession⟩
  rcases hframes with rfl | ⟨frame, -, rfl⟩
  · rw [reply, List.forM_nil, pure_bind]
    exact .modify fun c hc => hmark c hc.1.closeLast
  · rw [reply, List.forM_cons, bind_assoc]
    refine .bind (Q := fun _ c => CloseLast c.emitted)
      (triple_sendFrame polls (fun c socket hc _ => ?_) fun c hc _ => hc.1.closeLast) fun _ => ?_
    · have hlast := closeLast_append frame hc.1.closeLast
        (hc.1.not_isClose (hc.2 (List.cons_ne_nil _ _)))
      exact ⟨hlast, fun _ => hlast⟩
    · rw [List.forM_nil, pure_bind]
      exact .modify hmark

/-- `close` -/
theorem orderly_close (t : Bytes) (polls : List SendPoll) :
    Triple Orderly (close t polls) (fun _ => Orderly) (fun _ c => CloseLast c.emitted) := by
  refine .bind_get fun c hc => ?_
  rw [WebSocket.close]
  cases hsent : c.ws.closeSent with
  | true =>
    have hreply := orderly_reply c.ws.toSession polls hsent (.inl rfl)
    refine (hreply.at_state ⟨hc, fun h => absurd rfl h⟩).weaken ?_ ?_ ?_
    · exact fun _ h => h
    · exact fun _ _ h => h.1
    · exact fun _ _ h => h
  | false =>
    have hreply := orderly_reply { c.ws.toSession with closeSent := true } polls rfl
      (.inr ⟨encodeFrame c.ws.base64 (closePayload t) .connectionClose, isClose_encodeFrame _ _, rfl⟩)
    refine (hreply.at_state ⟨hc, fun _ => hsent⟩).weaken ?_ ?_ ?_
    · exact fun _ h => h
    · exact fun _ _ h => h.1
    · exact fun _ _ h => h

/-- `send` of a text. -/
theorem ready_send (s : Bytes) (polls : List SendPoll) :
    Triple Ready (send s .text polls) (fun _ => Ready) (fun _ c => CloseLast c.emitted) := by
  refine .bind_get fun c hc => ?_
  have hsend := ready_sendFrame (isText_encodeFrame c.ws.base64 (sendPayload s .text)).not_isClose
    c.ws.closeSent polls
  exact (hsend.at_state ⟨hc, rfl⟩).weaken (fun _ h => h) (fun _ _ h => h.1) fun _ _ h => h

/-- The end of `receive`, which closes the socket behind a close frame. -/
theorem ready_finish {s : Session} {o : Outcome} (ho : Replies s o) (buffer : Bytes)
    (polls : List SendPoll) :
    Triple (fun c => Ready c ∧ c.ws.closeSent = s.closeSent) (finish o buffer polls)
      (fun _ => Ready) (fun _ c => CloseLast c.emitted) := by
  have hret : Triple Ready (giveBack o.ret) (fun _ => Ready) (fun _ c => CloseLast c.emitted) := by
    unfold giveBack
    cases o.ret.value with
    | some data => exact .pure fun _ hc => hc
    | none => exact .throw fun _ hc => hc.1.closeLast
  rcases ho with ⟨hclosed, hsent, hframes⟩ | ⟨hclosed, hsent, hframes⟩
  · -- the call goes on
    refine .bind (Q := fun _ c => Ready c ∧ c.ws.closeSent = o.session.closeSent)
      (.modify fun c hc => ⟨⟨⟨hc.1.1.closeLast, hc.1.1.closeSent⟩, hc.1.2⟩, hc.2.trans hsent.symm⟩)
      fun _ => ?_
    refine .bind (ready_reply polls fun frame hframe => (hframes frame hframe).not_isClose)
      fun _ => ?_
    refine .ite (fun h => ?_) fun _ => hret
    rw [hclosed] at h
    cases h
  · -- the call closes
    refine .bind (Q := fun _ c => Orderly c ∧ (o.sent ≠ [] → c.ws.closeSent = false))
      (.modify fun c hc => ⟨⟨hc.1.1.closeLast, hc.1.1.closeSent⟩, fun hne => ?_⟩) fun _ => ?_
    · rcases hframes with hnil | ⟨hfresh, -⟩
      · exact absurd hnil hne
      · exact hc.2.trans hfresh
    · have hone : o.sent = [] ∨ ∃ frame, IsClose frame ∧ o.sent = [frame] :=
        hframes.imp id fun h => h.2
      refine .bind (orderly_reply _ polls hsent hone) fun _ => ?_
      refine .ite (fun _ => ?_) fun h => absurd hclosed h
      exact .bind (.modify fun c hc => ⟨⟨hc.1.closeLast, hc.1.closeSent⟩, fun _ => rfl⟩) fun _ => hret

/-- `receive` -/
theorem ready_receive (a : Answers) :
    Triple Ready (receive a) (fun _ => Ready) (fun _ c => CloseLast c.emitted) := by
  refine .bind (Q := fun _ => Ready) (triple_receiveChunk _ fun c socket hc hsocket => ?_)
    fun chunk => .bind_get fun c hc => ?_
  · exact ⟨⟨⟨hc.1.closeLast, hc.1.closeSent⟩, fun h => hsocket (hc.2 h)⟩, fun _ => hc.1.closeLast⟩
  · have hfinish := ready_finish (replies_receive c.ws chunk) (WebSocket.receive c.ws chunk).2 a.send
    exact hfinish.at_state ⟨hc, rfl⟩

end Connection

end VplJail.WebSocket
