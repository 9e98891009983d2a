import VplJail.WebSocket.Connection
import VplJail.WebSocket.Delivery

/-!
# Receiving after the close

`receive` does not look whether the socket is closed. A call on a closed socket sends nothing, but it
takes the next frame off the buffer, and it returns the message that ends with this frame. So later
calls are silent just when no message is left in the buffers (`silent_iff`).
-/

namespace VplJail.WebSocket

/-! ## What is left in a buffer -/

/-- A frame as `decodeFrame` answers it. -/
structure DecodedFrame where
  ft : FrameType
  fin : Bool
  payload : Bytes
deriving DecidableEq, Repr

/-- The frames at the start of a buffer, up to one that is malformed or not complete. A text frame
that should be base64 and is not has no payload and is passed over. -/
def framesLeft (base64 : Bool) (ft : FrameType) (buffer : Bytes) : List DecodedFrame :=
  if isFrameComplete buffer then
    match h : decodeFrame base64 buffer ft with
    | .error _ => []
    | .lengthError rest =>
        have := length_rest_lt (.inl h)
        framesLeft base64 .binary rest
    | .frame payload ft fin rest =>
        have := length_rest_lt (.inr ⟨payload, ft, fin, h⟩)
        ⟨ft, fin, payload⟩ :: framesLeft base64 ft rest
  else []
termination_by buffer.length

theorem framesLeft_of_complete {base64 : Bool} {ft : FrameType} {buffer : Bytes}
    (h : isFrameComplete buffer = true) :
    framesLeft base64 ft buffer =
      match decodeFrame base64 buffer ft with
      | .error _ => []
      | .lengthError rest => framesLeft base64 .binary rest
      | .frame payload ft fin rest => ⟨ft, fin, payload⟩ :: framesLeft base64 ft rest := by
  rw [framesLeft, if_pos h]
  split
  all_goals
    rename_i hdecoded
    simp only [hdecoded]

/-- A message that a caller can tell from no message: not empty, and valid if it is text. -/
def IsMessage (ft : FrameType) (data : Bytes) : Prop :=
  data ≠ [] ∧ (ft = .text → isValidUTF8 data = true)

/-- Some of these frames ends a message, where `pending` are the fragments before them. -/
def HasMessage : Bytes → List DecodedFrame → Prop
  | _, [] => False
  | pending, f :: fs =>
      if f.ft = .text ∨ f.ft = .binary then
        if f.fin then IsMessage f.ft (pending ++ f.payload) ∨ HasMessage [] fs
        -- a fragment that makes the message too long is dropped
        else if pending.length > sizeSub frameSizeLimit f.payload.length then HasMessage pending fs
        else HasMessage (pending ++ f.payload) fs
      else HasMessage pending fs

/-- The frames that `decodeFrame` still finds hold a message. -/
def MessageLeft (s : Session) (buffer : Bytes) : Prop :=
  HasMessage s.previousData (framesLeft s.base64 s.lFrameType buffer)

/-- A string that is not empty has been returned. -/
def Return.IsData (r : Return) : Prop :=
  ∃ data, r.value = some data ∧ data ≠ []

theorem not_isData_nothing : ¬ Return.nothing.IsData := by
  rintro ⟨data, hdata, hne⟩
  exact hne (Option.some.inj hdata).symm

theorem not_isData_thrown : ¬ Return.thrown.IsData := by
  rintro ⟨data, hdata, -⟩
  cases hdata

theorem isData_message (ft : FrameType) (data : Bytes) :
    (Return.message ft data).IsData ↔ data ≠ [] := by
  constructor
  · rintro ⟨data', hdata, hne⟩
    rwa [Option.some.inj hdata]
  · exact fun hne => ⟨data, rfl, hne⟩

/-! ## One frame -/

section Frame

variable (s : Session) (fin : Bool) (data : Bytes) (fs : List DecodedFrame)

/-- Closing keeps what is pending. -/
theorem closeAndReturn_session (t : Bytes) :
    (closeAndReturn s t).session = { s with closeSent := true } := by
  rw [closeAndReturn, close]
  split
  · rename_i h
    rw [← h]
  · rfl

theorem previousData_closeAndReturn (t : Bytes) :
    (closeAndReturn s t).session.previousData = s.previousData := by
  rw [closeAndReturn_session]

/-- A data frame: its message is returned, or what is pending goes on. -/
theorem hasMessage_receiveData (hft : s.lFrameType = .text ∨ s.lFrameType = .binary) :
    HasMessage s.previousData (⟨s.lFrameType, fin, data⟩ :: fs) ↔
      (receiveData s fin data).ret.IsData ∨
        HasMessage (receiveData s fin data).session.previousData fs := by
  rw [HasMessage, if_pos hft]
  cases fin with
  | true =>
    rw [if_pos rfl, receiveData_last]
    dsimp only
    by_cases hinvalid : s.lFrameType = .text ∧ ¬ isValidUTF8 (s.previousData ++ data) = true
    · -- an invalid text closes the connection
      have hmessage : ¬ IsMessage s.lFrameType (s.previousData ++ data) :=
        fun h => hinvalid.2 (h.2 hinvalid.1)
      rw [if_pos hinvalid]
      simp only [hmessage, not_isData_nothing, false_or]
    · rw [if_neg hinvalid, isData_message, IsMessage]
      have hvalid : s.lFrameType = .text → isValidUTF8 (s.previousData ++ data) = true :=
        fun h => not_not.mp fun hnot => hinvalid ⟨h, hnot⟩
      rw [and_iff_left hvalid]
  | false =>
    rw [if_neg Bool.false_ne_true, receiveData, if_neg Bool.false_ne_true]
    dsimp only
    split_ifs
    · rw [previousData_closeAndReturn, closeAndReturn]
      simp only [not_isData_nothing, false_or]
    · simp only [not_isData_nothing, false_or]

/-- A frame decides what is returned and what is pending behind it. -/
theorem hasMessage_receiveFrame :
    HasMessage s.previousData (⟨s.lFrameType, fin, data⟩ :: fs) ↔
      (receiveFrame s fin data).ret.IsData ∨
        HasMessage (receiveFrame s fin data).session.previousData fs := by
  have hcontrol (h : ¬ (s.lFrameType = .text ∨ s.lFrameType = .binary)) :
      HasMessage s.previousData (⟨s.lFrameType, fin, data⟩ :: fs) ↔
        HasMessage s.previousData fs := by
    rw [HasMessage, if_neg h]
  rw [receiveFrame]
  cases hft : s.lFrameType with
  | text =>
    have h := hasMessage_receiveData s fin data fs (.inl hft)
    rwa [hft] at h
  | binary =>
    have h := hasMessage_receiveData s fin data fs (.inr hft)
    rwa [hft] at h
  | ping | pong =>
    rw [hft] at hcontrol
    simp only [hcontrol (by simp), not_isData_nothing, false_or]
  | connectionClose | continuation | error | unnamed code =>
    rw [hft] at hcontrol
    simp only [hcontrol (by simp), closeAndReturn_session]
    simp only [closeAndReturn, not_isData_nothing, false_or]

/-- A frame leaves the type and the subprotocol. -/
theorem receiveFrame_session :
    (receiveFrame s fin data).session.lFrameType = s.lFrameType ∧
      (receiveFrame s fin data).session.base64 = s.base64 := by
  have hclose (t : Bytes) : (closeAndReturn s t).session.lFrameType = s.lFrameType ∧
      (closeAndReturn s t).session.base64 = s.base64 := by
    rw [closeAndReturn_session]
    exact ⟨rfl, rfl⟩
  have hdata : (receiveData s fin data).session.lFrameType = s.lFrameType ∧
      (receiveData s fin data).session.base64 = s.base64 := by
    rw [receiveData]
    dsimp only
    split_ifs
    all_goals first | exact hclose _ | exact ⟨rfl, rfl⟩
  rw [receiveFrame]
  split
  all_goals first | exact hdata | exact hclose _ | exact ⟨rfl, rfl⟩

end Frame

/-! ## One call -/

/-- A call on a buffer without a complete frame waits, and the buffer is kept. -/
theorem messageLeft_of_incomplete {s : Session} {buffer : Bytes}
    (h : isFrameComplete buffer = false) : ¬ MessageLeft s buffer := by
  rw [MessageLeft, framesLeft, if_neg (by rw [h]; exact Bool.false_ne_true)]
  exact id

/-- Whether a frame is malformed does not depend on the frame before it. -/
theorem decodeFrame_error {base64 : Bool} {buffer : Bytes} {ft : FrameType} {message : String}
    (h : decodeFrame base64 buffer ft = .error message) (ft' : FrameType) :
    decodeFrame base64 buffer ft' = .error message := by
  have hne (ret : Bytes) (ft : FrameType) (fin : Bool) (rest : Bytes) :
      unwrapBase64 base64 ret ft fin rest ≠ .error message := by
    rw [unwrapBase64]
    repeat' split
    all_goals intro heq; cases heq
  rw [decodeFrame] at h ⊢
  split at h
  · exact h
  · exact h
  · dsimp only at h ⊢
    split_ifs at h ⊢
    all_goals first | exact h | exact absurd h (hne _ _ _ _)

/-- What a call returns and leaves: the messages are those that were left before. -/
theorem messageLeft_receive (ws : State) (chunk : Bytes) :
    MessageLeft ws.toSession (ws.receiveBuffer ++ chunk) ↔
      (receive ws chunk).1.ret.IsData ∨
        MessageLeft (receive ws chunk).1.session (receive ws chunk).2 := by
  rw [receive_eq]
  cases hframe : isFrameComplete (ws.receiveBuffer ++ chunk) with
  | false =>
    rw [if_neg Bool.false_ne_true]
    simp only [not_isData_nothing, false_or]
  | true =>
    rw [if_pos rfl, receiveDecoded]
    cases hdecoded : decodeFrame ws.base64 (ws.receiveBuffer ++ chunk) ws.lFrameType with
    | error message =>
      -- the buffer stays, and no frame is found in it
      have hnone (s : Session) (hs : s.base64 = ws.base64) :
          ¬ MessageLeft s (ws.receiveBuffer ++ chunk) := by
        rw [MessageLeft, framesLeft_of_complete hframe, hs, decodeFrame_error hdecoded]
        exact id
      exact iff_of_false (hnone _ rfl)
        (not_or.mpr ⟨not_isData_nothing, hnone _ (receiveFrame_session _ _ _).2⟩)
    | lengthError rest =>
      rw [MessageLeft, framesLeft_of_complete hframe, hdecoded]
      simp only [not_isData_thrown, false_or]
      rfl
    | frame payload ft fin rest =>
      obtain ⟨htype, hbase64⟩ :=
        receiveFrame_session { ws.toSession with lFrameType := ft } fin payload
      have hstep := hasMessage_receiveFrame { ws.toSession with lFrameType := ft } fin payload
        (framesLeft ws.base64 ft rest)
      rw [MessageLeft, framesLeft_of_complete hframe, hdecoded]
      dsimp only
      rw [MessageLeft, htype, hbase64, ← hstep]

/-- While a message is left, a call takes a frame off the buffer. -/
theorem length_receive_lt {ws : State} {chunk : Bytes}
    (h : MessageLeft ws.toSession (ws.receiveBuffer ++ chunk)) :
    (receive ws chunk).2.length < (ws.receiveBuffer ++ chunk).length := by
  have hframe : isFrameComplete (ws.receiveBuffer ++ chunk) = true := by
    by_contra hnot
    exact messageLeft_of_incomplete (Bool.eq_false_of_not_eq_true hnot) h
  rw [receive_eq, if_pos hframe, receiveDecoded]
  rw [MessageLeft, framesLeft_of_complete hframe] at h
  cases hdecoded : decodeFrame ws.base64 (ws.receiveBuffer ++ chunk) ws.lFrameType with
  | error message =>
    rw [hdecoded] at h
    exact absurd h id
  | lengthError rest => exact length_rest_lt (.inl hdecoded)
  | frame payload ft fin rest => exact length_rest_lt (.inr ⟨payload, ft, fin, hdecoded⟩)

/-! ## Calls on a closed socket -/

namespace Connection

open Socket

theorem handOver_of_closed {c : Connection} (h : c.socket.closed = true) (frame : Bytes)
    (polls : List SendPoll) :
    c.handOver frame polls = ({ c with handed := c.handed ++ [frame] }, .returned) := by
  simp [handOver, Socket.send, h]

theorem run_sendFrame_of_closed {c : Connection} (h : c.socket.closed = true) (frame : Bytes)
    (polls : List SendPoll) :
    (sendFrame frame polls).run.run c = (.ok (), { c with handed := c.handed ++ [frame] }) := by
  have hget : (get : ConnectionM Connection).run.run c = (.ok c, c) := rfl
  have hset : (set (c.handOver frame polls).1 : ConnectionM Unit).run.run c =
      (.ok (), (c.handOver frame polls).1) := rfl
  unfold sendFrame
  rw [run_bind_of_ok hget, run_bind_of_ok hset, handOver_of_closed h]
  rfl

theorem run_reply_of_closed (session : Session) (polls : List SendPoll) (frames : List Bytes)
    {c : Connection} (h : c.socket.closed = true) :
    (reply session frames polls).run.run c =
      (.ok (), { c with
        ws.closeSent := session.closeSent
        handed := c.handed ++ frames }) := by
  induction frames generalizing c with
  | nil =>
    rw [List.append_nil]
    rfl
  | cons frame frames ih =>
    have hsend := run_sendFrame_of_closed h frame polls
    have hrest := ih (c := { c with handed := c.handed ++ [frame] }) h
    rw [List.append_assoc, List.singleton_append] at hrest
    rw [← hrest, reply, List.forM_cons, bind_assoc, run_bind_of_ok hsend]
    rfl

/-- The string of a return, or the exception. -/
def resultOf (r : Return) : Except Interrupt Bytes :=
  match r.value with
  | some data => .ok data
  | none => .error (.raised (.thrown (.std "length_error")))

theorem run_finish_of_closed {c : Connection} (h : c.socket.closed = true) (o : Outcome)
    (buffer : Bytes) (polls : List SendPoll) :
    (finish o buffer polls).run.run c =
      (resultOf o.ret, { c with
        ws := ⟨o.session, buffer⟩
        handed := c.handed ++ o.sent }) := by
  have hreply := run_reply_of_closed o.session polls o.sent
    (c := { c with ws := ⟨{ o.session with closeSent := c.ws.closeSent }, buffer⟩ }) h
  have hclose : c.socket.close = c.socket := by
    rw [Socket.close, ← h]
  have hend (c : Connection) : (match o.ret.value with
      | some data => pure data
      | none => throw (.raised (.thrown (.std "length_error"))) : ConnectionM Bytes).run.run c =
        (resultOf o.ret, c) := by
    rw [resultOf]
    cases o.ret.value <;> rfl
  rw [finish, run_bind_modify, run_bind_of_ok hreply]
  cases o.closed with
  | false => exact hend _
  | true =>
    refine (hend _).trans ?_
    dsimp only
    rw [hclose]

/-- A call on a closed socket takes what is buffered, without a `poll`, and sends nothing. -/
theorem run_receive_of_closed {c : Connection} (h : c.socket.closed = true) (a : Answers) :
    (receive a).run.run c =
      (resultOf (WebSocket.receive c.ws c.socket.readBuffer).1.ret,
        { ws := ⟨(WebSocket.receive c.ws c.socket.readBuffer).1.session,
            (WebSocket.receive c.ws c.socket.readBuffer).2⟩
          socket := { c.socket with readBuffer := [] }
          handed := c.handed ++ (WebSocket.receive c.ws c.socket.readBuffer).1.sent
          emitted := c.emitted }) := by
  have hchunk : (receiveChunk a.recv).run.run c =
      (.ok c.socket.readBuffer, { c with socket := { c.socket with readBuffer := [] } }) := by
    have hget : (get : ConnectionM Connection).run.run c = (.ok c, c) := rfl
    have hset : (set { c with socket := (c.socket.receive 0 a.recv).1 } :
        ConnectionM Unit).run.run c =
        (.ok (), { c with socket := (c.socket.receive 0 a.recv).1 }) := rfl
    unfold receiveChunk
    rw [run_bind_of_ok hget, run_bind_of_ok hset, Socket.receive, if_pos h]
    rfl
  rw [receive, run_bind_of_ok hchunk]
  exact run_finish_of_closed (c := { c with socket := { c.socket with readBuffer := [] } }) h _ _ _

/-- The results of some calls of `receive`, and the connection after them. -/
def receives : List Answers → Connection → List (Except Interrupt Bytes) × Connection
  | [], c => ([], c)
  | a :: as, c =>
      let rest := receives as ((receive a).run.run c).2
      (((receive a).run.run c).1 :: rest.1, rest.2)

/-- Some calls return no data and send no pong. -/
def Silent (c : Connection) (as : List Answers) : Prop :=
  (∀ data, .ok data ∈ (receives as c).1 → data = []) ∧
    ∃ sent, (receives as c).2.emitted = c.emitted ++ sent ∧ ∀ frame ∈ sent, ¬ IsPong frame

/-- The bytes that calls on a closed socket have to go on with. -/
def bytesLeft (c : Connection) : Bytes :=
  c.ws.receiveBuffer ++ c.socket.readBuffer

theorem resultOf_ok {r : Return} {data : Bytes} : resultOf r = .ok data ↔ r.value = some data := by
  rw [resultOf]
  cases r.value <;> simp

/-- One more call on a closed socket: what is left before is returned or left behind. -/
theorem messageLeft_step {c : Connection} (h : c.socket.closed = true) (a : Answers) :
    MessageLeft c.ws.toSession c.bytesLeft ↔
      (∃ data, ((receive a).run.run c).1 = .ok data ∧ data ≠ []) ∨
        MessageLeft ((receive a).run.run c).2.ws.toSession ((receive a).run.run c).2.bytesLeft := by
  rw [run_receive_of_closed h, bytesLeft, messageLeft_receive]
  simp only [resultOf_ok, bytesLeft, List.append_nil]
  rfl

/-- No call sends anything on a closed socket. -/
theorem emitted_receives (as : List Answers) {c : Connection} (h : c.socket.closed = true) :
    (receives as c).2.emitted = c.emitted := by
  induction as generalizing c with
  | nil => rfl
  | cons a as ih =>
    rw [receives, run_receive_of_closed h]
    exact ih h

/-- Without a message left, no call returns data. -/
theorem eq_nil_of_mem_receives (as : List Answers) {c : Connection} (h : c.socket.closed = true)
    (hleft : ¬ MessageLeft c.ws.toSession c.bytesLeft) {data : Bytes}
    (hmem : .ok data ∈ (receives as c).1) : data = [] := by
  induction as generalizing c with
  | nil => cases hmem
  | cons a as ih =>
    rw [messageLeft_step h a, not_or] at hleft
    obtain ⟨hnone, hrest⟩ := hleft
    rw [receives, List.mem_cons] at hmem
    rcases hmem with hhead | htail
    · by_contra hne
      exact hnone ⟨data, hhead.symm, hne⟩
    · refine ih ?_ hrest htail
      rw [run_receive_of_closed h]
      exact h

/-- A message left is returned after some calls. Each of them takes a frame off the buffer. -/
theorem exists_mem_receives (n : ℕ) {c : Connection} (h : c.socket.closed = true)
    (hn : c.bytesLeft.length < n) (hleft : MessageLeft c.ws.toSession c.bytesLeft) :
    ∃ as data, .ok data ∈ (receives as c).1 ∧ data ≠ [] := by
  induction n generalizing c with
  | zero => omega
  | succ n ih =>
    have hstep := (messageLeft_step h {}).mp hleft
    rcases hstep with ⟨data, hdata, hne⟩ | hrest
    · exact ⟨[{}], data, List.mem_singleton.mpr hdata.symm, hne⟩
    · have hlen := length_receive_lt hleft
      have hclosed : ((receive {}).run.run c).2.socket.closed = true := by
        rw [run_receive_of_closed h]
        exact h
      have hshort : ((receive {}).run.run c).2.bytesLeft.length < n := by
        rw [run_receive_of_closed h, bytesLeft, List.append_nil]
        exact hlen.trans_le (Nat.le_of_lt_succ hn)
      obtain ⟨as, data, hmem, hne⟩ := ih hclosed hshort hrest
      exact ⟨{} :: as, data, List.mem_cons_of_mem _ hmem, hne⟩

/-- Later calls on a closed socket are silent just when no message is left in the buffers. -/
theorem silent_iff {c : Connection} (h : c.socket.closed = true) :
    (∀ as, Silent c as) ↔ ¬ MessageLeft c.ws.toSession c.bytesLeft := by
  constructor
  · intro hsilent hleft
    obtain ⟨as, data, hmem, hne⟩ := exists_mem_receives _ h (Nat.lt_succ_self _) hleft
    exact hne ((hsilent as).1 data hmem)
  · intro hleft as
    refine ⟨fun data => eq_nil_of_mem_receives as h hleft, [], ?_, ?_⟩
    · rw [emitted_receives as h, List.append_nil]
    · intro frame hframe
      cases hframe

/-- A connection after a close frame with a ping and the start of a text frame behind it, the last
bytes of which are still in the socket. -/
def closedBeforePing : Connection :=
  { ws :=
      { closeSent := true
        base64 := false
        previousData := []
        lFrameType := .connectionClose
        receiveBuffer := [0x89, 0x80, 0, 0, 0, 0, 0x81, 0x82, 0, 0] }
    socket := { header := [71], closed := true, readBuffer := [0, 0, 104] } }

/-- The ping is not answered, and the text is never complete. -/
theorem silent_iff_closedBeforePing :
    closedBeforePing.bytesLeft.length = 13 ∧ ∀ as, Silent closedBeforePing as := by
  refine ⟨rfl, (silent_iff rfl).mpr fun hleft => ?_⟩
  have hping : decodeFrame false closedBeforePing.bytesLeft .connectionClose =
      .frame [] .ping true [0x81, 0x82, 0, 0, 0, 0, 104] := by decide
  have hframes : framesLeft false .connectionClose closedBeforePing.bytesLeft =
      [⟨.ping, true, []⟩] := by
    rw [framesLeft_of_complete (by decide), hping]
    dsimp only
    rw [framesLeft, if_neg (by decide)]
  have hmessage : HasMessage [] (framesLeft false .connectionClose closedBeforePing.bytesLeft) :=
    hleft
  rw [hframes] at hmessage
  simp [HasMessage] at hmessage

/-- A connection whose client sends, in one packet, a close frame and the text `hi` behind it. -/
def closeThenText : Connection :=
  { ws :=
      { closeSent := false
        base64 := false
        previousData := []
        lFrameType := .text
        receiveBuffer := [0x88, 0x80, 0, 0, 0, 0, 0x81, 0x82, 0, 0, 0, 0, 104, 105] }
    socket := { header := [71] } }

/-- Behind the close frame of a client, the next call returns the text that came with it. -/
theorem not_silent :
    ¬ ∀ (c : Connection) (a : Answers), c.socket.closed = false →
      ((receive a).run.run c).2.socket.closed = true →
        ∀ as, Silent ((receive a).run.run c).2 as := by
  intro hall
  let a : Answers := { recv := [.idle], send := [.ready { pollout := some (.wrote 8) }] }
  have hdata : (receives [{}] ((receive a).run.run closeThenText).2).1 = [.ok [104, 105]] := by
    decide +kernel
  have hsilent := (hall closeThenText a rfl (by decide +kernel) [{}]).1 [104, 105]
  rw [hdata] at hsilent
  cases hsilent (List.mem_singleton_self _)

end Connection

end VplJail.WebSocket
