import VplJail.Common.CriticalSection
import VplJail.Socket.Socket

/-!
# Sending

`Socket::send` as a loop over what `poll` and `netWrite` answer. What it has written is only taken
off the buffer when the loop is left by `break`: an exception leaves the buffer as it was, and the
next call writes it from its start. `wire_prefix_of_reaches` is about the runs in which nobody sends
after such an exception, `exists_duplicate` about the others.
-/

namespace VplJail.Socket

/-! ## One call -/

/-- What `netWrite` does: it writes some of the bytes it was given, fails with an `errno` that may
stand for a peer that has gone, or throws. -/
inductive NetWrite
  | wrote (n : ℕ)
  | failed (disconnected : Bool)
  | raised (e : Thrown)
deriving DecidableEq, Repr

/-- A `poll` with an event, with the answer of `netWrite` if `POLLOUT` is set. -/
structure Writable where
  timedOut : Bool := false
  pollout : Option NetWrite := none
  hup : Bool := false
  bad : Bool := false
deriving DecidableEq, Repr

/-- What `poll` answers. -/
inductive SendPoll
  | failed
  | idle
  | ready (r : Writable)
deriving DecidableEq, Repr

/-- What `send` throws: an exception, or the bare number of a code. -/
inductive SendError
  | thrown (e : Thrown)
  | code (number : ℕ)
deriving DecidableEq, Repr

/-- How a turn of the loop ends. -/
inductive SendTurn
  | again (offset : ℕ)
  | leave (offset : ℕ) (closed : Bool)
  | raised (offset : ℕ) (e : SendError)
deriving DecidableEq, Repr

/-- How many bytes of the buffer have been written. -/
def SendTurn.offset : SendTurn → ℕ
  | again offset => offset
  | leave offset _ => offset
  | raised offset _ => offset

/-- The exception of a write that fails. -/
def writeError : SendError :=
  .thrown (.http internalServerErrorCode "Socket write data error")

/-- A turn behind its writing. -/
def endTurn (ws : Bool) (size offset : ℕ) (r : Writable) : SendTurn :=
  if r.hup then .leave offset true
  else if r.bad then
    if ws then .leave offset true else .raised offset writeError
  else if size ≤ offset then .leave offset false
  else .again offset

/-- A turn of the loop of `send`. `write` never takes more than it was given. -/
def sendTurn (ws async : Bool) (size offset : ℕ) : SendPoll → SendTurn
  | .failed => .raised offset (.thrown (.http internalServerErrorCode "Error poll writing data"))
  | .idle => if async then .leave offset false else .again offset
  | .ready r =>
      if r.timedOut then
        if ws then .leave offset true else .raised offset (.code requestTimeoutCode)
      else match r.pollout with
        | none => endTurn ws size offset r
        | some (.raised e) => .raised offset (.thrown e)
        | some (.failed disconnected) =>
            if ws && disconnected then .leave offset true else .raised offset writeError
        | some (.wrote n) =>
            let toWrite := min netBufferSize (size - offset)
            let sizeWritten := min n toWrite
            if sizeWritten = 0 then .leave offset true
            else endTurn ws size (offset + sizeWritten) r

/-- The bytes of a buffer from one offset to another. -/
def written (buffer : Bytes) (offset offset' : ℕ) : Bytes :=
  (buffer.drop offset).take (offset' - offset)

/-- The loop of `send`: what it writes, and the turn it ends with, which is `again` while the call
has not returned. -/
def sendLoop (ws async : Bool) (buffer : Bytes) (offset : ℕ) : List SendPoll → Bytes × SendTurn
  | [] => ([], .again offset)
  | p :: ps =>
      match sendTurn ws async buffer.length offset p with
      | .again offset' =>
          let (wire, t) := sendLoop ws async buffer offset' ps
          (written buffer offset offset' ++ wire, t)
      | t => (written buffer offset t.offset, t)

/-- How a call stands: it has returned, it has thrown, or it still waits for its socket. -/
inductive SendOutcome
  | returned
  | raised (e : SendError)
  | waiting
deriving DecidableEq, Repr

/-- `Socket::send`: the bytes written, the socket afterwards, and the outcome. -/
def send (s : Socket) (data : Bytes) (async : Bool) (polls : List SendPoll) :
    Bytes × Socket × SendOutcome :=
  if s.closed then ([], s, .returned)
  else
    let buffer := s.writeBuffer ++ data
    let (wire, t) := sendLoop s.websocketProtocol async buffer 0 polls
    match t with
    | .again _ => (wire, { s with writeBuffer := buffer }, .waiting)
    | .raised _ e => (wire, { s with writeBuffer := buffer }, .raised e)
    | .leave offset closed =>
        (wire, { s with writeBuffer := buffer.drop offset, closed := closed }, .returned)

/-! ## What a call writes -/

section Loop

variable {buffer : Bytes} {offset : ℕ}

theorem endTurn_offset (ws : Bool) (size : ℕ) (r : Writable) :
    (endTurn ws size offset r).offset = offset := by
  unfold endTurn
  repeat' split
  all_goals rfl

/-- A turn writes forward, and not past the end. -/
theorem sendTurn_offset (ws async : Bool) {size : ℕ} (h : offset ≤ size) (p : SendPoll) :
    offset ≤ (sendTurn ws async size offset p).offset ∧
      (sendTurn ws async size offset p).offset ≤ size := by
  have hself : offset ≤ offset ∧ offset ≤ size := ⟨le_rfl, h⟩
  cases p with
  | failed => exact hself
  | idle =>
      rw [sendTurn]
      split <;> exact hself
  | ready r =>
      rw [sendTurn]
      split
      · split <;> exact hself
      · split
        · rw [endTurn_offset]
          exact hself
        · exact hself
        · split <;> exact hself
        · dsimp only
          split
          · exact hself
          · rw [endTurn_offset]
            omega

theorem written_append {a b c : ℕ} (hab : a ≤ b) (hbc : b ≤ c) :
    written buffer a b ++ written buffer b c = written buffer a c := by
  have hb : buffer.drop b = (buffer.drop a).drop (b - a) := by
    rw [List.drop_drop, Nat.add_sub_cancel' hab]
  have hc : c - a = (b - a) + (c - b) := by omega
  rw [written, written, written, hb, hc, List.take_add]

/-- The loop writes the buffer from where it starts to where it ends. -/
theorem sendLoop_spec (ws async : Bool) (h : offset ≤ buffer.length) (ps : List SendPoll) :
    (sendLoop ws async buffer offset ps).1 =
        written buffer offset (sendLoop ws async buffer offset ps).2.offset ∧
      offset ≤ (sendLoop ws async buffer offset ps).2.offset ∧
      (sendLoop ws async buffer offset ps).2.offset ≤ buffer.length := by
  induction ps generalizing offset with
  | nil => exact ⟨by simp [sendLoop, written, SendTurn.offset], le_rfl, h⟩
  | cons p ps ih =>
      have hturn := sendTurn_offset ws async h p
      rw [sendLoop]
      cases hp : sendTurn ws async buffer.length offset p with
      | again offset' =>
          rw [hp] at hturn
          obtain ⟨hle, hsize⟩ := hturn
          obtain ⟨hwire, hle', hsize'⟩ := ih hsize
          refine ⟨?_, hle.trans hle', hsize'⟩
          exact (congrArg (written buffer offset offset' ++ ·) hwire).trans
            (written_append hle hle')
      | leave offset' closed =>
          rw [hp] at hturn
          exact ⟨rfl, hturn⟩
      | raised offset' e =>
          rw [hp] at hturn
          exact ⟨rfl, hturn⟩

end Loop

/-- What a call on an open socket does: it writes a start of the pending bytes and the data, and
unless it returns, all of these stay pending. -/
theorem send_cases {s : Socket} (hopen : s.closed = false) (data : Bytes) (async : Bool)
    (polls : List SendPoll) {wire : Bytes} {s' : Socket} {o : SendOutcome}
    (h : s.send data async polls = (wire, s', o)) :
    ∃ rest, s.writeBuffer ++ data = wire ++ rest ∧
      ((o = .returned ∧ s'.writeBuffer = rest) ∨
        (o ≠ .returned ∧ s'.closed = false ∧ s'.writeBuffer = wire ++ rest)) := by
  obtain ⟨hwire, -, hsize⟩ := sendLoop_spec s.websocketProtocol async
    (Nat.zero_le (s.writeBuffer ++ data).length) polls
  simp only [send, hopen, Bool.false_eq_true, if_false] at h
  cases hloop : sendLoop s.websocketProtocol async (s.writeBuffer ++ data) 0 polls with
  | mk wire' t =>
  rw [hloop] at h hwire
  dsimp only at h hwire
  have htake : wire' = (s.writeBuffer ++ data).take t.offset := by
    simpa [written] using hwire
  have hsplit : s.writeBuffer ++ data = wire' ++ (s.writeBuffer ++ data).drop t.offset := by
    rw [htake, List.take_append_drop]
  refine ⟨(s.writeBuffer ++ data).drop t.offset, ?_⟩
  cases t with
  | leave offset closed =>
      cases h
      exact ⟨hsplit, .inl ⟨rfl, rfl⟩⟩
  | again offset =>
      cases h
      exact ⟨hsplit, .inr ⟨nofun, rfl, hsplit⟩⟩
  | raised offset e =>
      cases h
      exact ⟨hsplit, .inr ⟨nofun, rfl, hsplit⟩⟩

/-- A call leaves what has been received as it is. -/
theorem send_received {s s' : Socket} {data wire : Bytes} {async : Bool} {polls : List SendPoll}
    {o : SendOutcome} (h : s.send data async polls = (wire, s', o)) :
    s'.header = s.header ∧ s'.headers = s.headers ∧ s'.readBuffer = s.readBuffer := by
  rw [send] at h
  split at h
  · cases h
    exact ⟨rfl, rfl, rfl⟩
  · dsimp only at h
    split at h <;> cases h <;> exact ⟨rfl, rfl, rfl⟩

/-- Turns that each write as much as they may write the rest of the buffer. -/
theorem sendLoop_replicate (ws async : Bool) {buffer : Bytes} {offset : ℕ} (n : ℕ)
    (h : offset < buffer.length) (hn : buffer.length - offset ≤ n) :
    (sendLoop ws async buffer offset
      (List.replicate n (.ready { pollout := some (.wrote netBufferSize) }))).2 =
        .leave buffer.length false := by
  induction n generalizing offset with
  | zero => omega
  | succ n ih =>
      have hnet : 0 < netBufferSize := by decide
      have hmin : min netBufferSize (min netBufferSize (buffer.length - offset)) =
          min netBufferSize (buffer.length - offset) := by omega
      rw [List.replicate_succ, sendLoop]
      simp only [sendTurn, endTurn, Bool.false_eq_true, if_false, hmin]
      rw [if_neg (by omega)]
      by_cases hend : buffer.length ≤ offset + min netBufferSize (buffer.length - offset)
      · rw [if_pos hend]
        exact congrArg (SendTurn.leave · false) (by omega)
      · rw [if_neg hend]
        exact ih (by omega) (by omega)

/-- An open socket may write all that is pending in one call. -/
theorem exists_send_eq {s : Socket} (hopen : s.closed = false) (hpending : s.writeBuffer ≠ [])
    (data : Bytes) :
    ∃ polls s', s.send data false polls = (s.writeBuffer ++ data, s', .returned) := by
  have hpos : 0 < (s.writeBuffer ++ data).length := by
    rw [List.length_append]
    exact Nat.add_pos_left (List.length_pos_iff.mpr hpending) _
  have hall := sendLoop_replicate s.websocketProtocol false _ hpos (Nat.sub_le _ _)
  obtain ⟨hwire, -⟩ := sendLoop_spec s.websocketProtocol false hpos.le
    (List.replicate (s.writeBuffer ++ data).length
      (.ready { pollout := some (.wrote netBufferSize) }))
  rw [hall] at hwire
  refine ⟨List.replicate (s.writeBuffer ++ data).length
    (.ready { pollout := some (.wrote netBufferSize) }), ?_⟩
  simp only [send, hopen, Bool.false_eq_true, if_false, hall, hwire]
  refine ⟨_, Prod.ext ?_ rfl⟩
  simp [written, SendTurn.offset]

/-! ## Runs of calls -/

/-- A socket with what has gone over the wire and what has been passed to `send`. It is torn once a
call has thrown behind a write. -/
structure Channel where
  socket : Socket
  wire : Bytes := []
  passed : Bytes := []
  torn : Bool := false
  waiting : Bool := false

namespace Channel

/-- The channel after a call of `send`. -/
def send (c : Channel) (data : Bytes) (async : Bool) (polls : List SendPoll) : Channel :=
  let (wire, socket, outcome) := c.socket.send data async polls
  { socket
    wire := c.wire ++ wire
    passed := c.passed ++ data
    torn := c.torn || (outcome matches .raised _ && !wire.isEmpty)
    waiting := outcome matches .waiting }

/-- A step of the owner of the socket, once its last call is over. A call of `send` is made only
where the guard `ok` allows it. -/
inductive Step (ok : Channel → Prop) : Channel → Channel → Prop
  | send {c : Channel} (data : Bytes) (async : Bool) (polls : List SendPoll)
      (hwaiting : c.waiting = false) (hok : ok c) : Step ok c (c.send data async polls)
  | close {c : Channel} (hwaiting : c.waiting = false) :
      Step ok c { c with socket := c.socket.close }
  | mark {c : Channel} (hwaiting : c.waiting = false) :
      Step ok c { c with socket := c.socket.markWebSocketProtocol }

/-- The runs. -/
abbrev Reaches (ok : Channel → Prop) : Channel → Channel → Prop :=
  Relation.ReflTransGen (Step ok)

/-- Nobody sends on an open socket after a call that has thrown behind a write. -/
def SendOk (c : Channel) : Prop :=
  c.torn = true → c.socket.closed = true

/-- What has gone over the wire is a start of what was passed; between calls the rest is pending as
long as the socket is open and not torn. Once it is torn, some of what is pending has been written
before. -/
structure Inv (c : Channel) : Prop where
  wire_start : c.wire <+: c.passed
  pending : c.socket.closed = false → c.torn = false → c.waiting = false →
    c.passed = c.wire ++ c.socket.writeBuffer
  surplus : c.socket.closed = false → c.torn = true →
    c.passed.length < c.wire.length + c.socket.writeBuffer.length

/-- A call that the guard allows keeps the invariant. -/
theorem Inv.send {c : Channel} (h : Inv c) (hwaiting : c.waiting = false) (hok : SendOk c)
    (data : Bytes) (async : Bool) (polls : List SendPoll) : Inv (c.send data async polls) := by
  by_cases hclosed : c.socket.closed = true
  · have hsend : c.socket.send data async polls = ([], c.socket, .returned) := by
      rw [Socket.send, if_pos hclosed]
    simp only [Channel.send, hsend]
    refine ⟨?_, fun hopen => ?_, fun hopen => ?_⟩
    · rw [List.append_nil]
      exact h.wire_start.trans (List.prefix_append _ _)
    · exact absurd (hclosed.symm.trans hopen) (by decide)
    · exact absurd (hclosed.symm.trans hopen) (by decide)
  · have hopen : c.socket.closed = false := Bool.eq_false_of_not_eq_true hclosed
    have htorn : c.torn = false := Bool.eq_false_of_not_eq_true fun htorn => hclosed (hok htorn)
    have hpassed := h.pending hopen htorn hwaiting
    cases hsend : c.socket.send data async polls with
    | mk wire so =>
    obtain ⟨s', o⟩ := so
    obtain ⟨rest, hsplit, hcases⟩ := send_cases hopen data async polls hsend
    have hall : c.passed ++ data = (c.wire ++ wire) ++ rest := by
      rw [hpassed, List.append_assoc, hsplit, List.append_assoc]
    simp only [Channel.send, hsend, htorn, Bool.false_or]
    refine ⟨⟨rest, hall.symm⟩, fun _ htorn' hwaiting' => ?_, fun _ htorn' => ?_⟩
    · rcases hcases with ⟨-, hbuffer⟩ | ⟨ho, -, hbuffer⟩
      · rw [hbuffer]
        exact hall
      · -- the call has thrown without writing
        cases o with
        | returned => exact absurd rfl ho
        | waiting => cases hwaiting'
        | raised e =>
            obtain rfl : wire = [] := by simpa using htorn'
            rw [hbuffer]
            exact hall
    · cases o with
      | returned => cases htorn'
      | waiting => cases htorn'
      | raised e =>
          obtain ⟨ho, -⟩ | ⟨-, -, hbuffer⟩ := hcases
          · cases ho
          have hwire : 0 < wire.length := List.length_pos_iff.mpr (by simpa using htorn')
          have hlen := congrArg List.length hall
          simp only [hbuffer, List.length_append] at hlen ⊢
          omega

/-- A step that the guard allows keeps the invariant. -/
theorem Inv.step {c c' : Channel} (h : Inv c) (hstep : Step SendOk c c') : Inv c' := by
  cases hstep with
  | send data async polls hwaiting hok => exact h.send hwaiting hok data async polls
  | close hwaiting => exact ⟨h.wire_start, nofun, nofun⟩
  | mark hwaiting => exact ⟨h.wire_start, h.pending, h.surplus⟩

/-- Every channel reached from a socket with nothing pending keeps the invariant. -/
theorem inv_of_reaches {s : Socket} (hs : s.writeBuffer = []) {c : Channel}
    (h : Reaches SendOk ⟨s, [], [], false, false⟩ c) : Inv c := by
  have hstart : Inv ⟨s, [], [], false, false⟩ := ⟨List.prefix_rfl, fun _ _ _ => hs.symm, nofun⟩
  exact invariant_of_reaches (fun c c' (hinv : Inv c) hstep => hinv.step hstep) h hstart

/-- In every run in which nobody sends on an open socket after a call that has thrown behind a
write, what goes over the wire is at any time a start of what was passed to `send`. -/
theorem wire_prefix_of_reaches {s : Socket} (hs : s.writeBuffer = []) {c : Channel}
    (h : Reaches SendOk ⟨s, [], [], false, false⟩ c) : c.wire <+: c.passed :=
  (inv_of_reaches hs h).wire_start

/-- The guard leaves out no more than it has to: a call that it forbids may write bytes again. -/
theorem sendOk_iff {s : Socket} (hs : s.writeBuffer = []) {c : Channel}
    (h : Reaches SendOk ⟨s, [], [], false, false⟩ c) (hwaiting : c.waiting = false) :
    SendOk c ↔ ∀ data async polls,
      (c.send data async polls).wire <+: (c.send data async polls).passed := by
  have hinv := inv_of_reaches hs h
  constructor
  · intro hok data async polls
    exact (hinv.send hwaiting hok data async polls).wire_start
  · intro hall htorn
    by_contra hclosed
    have hopen := Bool.eq_false_of_not_eq_true hclosed
    have hsurplus := hinv.surplus hopen htorn
    have hlen := hinv.wire_start.length_le
    have hpending : c.socket.writeBuffer ≠ [] := by
      intro hnil
      rw [hnil, List.length_nil] at hsurplus
      omega
    obtain ⟨polls, s', hsend⟩ := exists_send_eq hopen hpending []
    have hprefix := (hall [] false polls).length_le
    simp only [Channel.send, hsend, List.append_nil, List.length_append] at hprefix
    omega

/-- A reply that is written in two parts. -/
theorem wire_prefix_of_reaches_hello :
    (Channel.send ⟨{}, [], [], false, false⟩ (ascii "hello") false
      [.ready { pollout := some (.wrote 2) }, .idle, .ready { pollout := some (.wrote 5) }]).wire <+:
    (Channel.send ⟨{}, [], [], false, false⟩ (ascii "hello") false
      [.ready { pollout := some (.wrote 2) }, .idle, .ready { pollout := some (.wrote 5) }]).passed :=
  wire_prefix_of_reaches rfl (.single (.send _ _ _ rfl nofun))

/-- After a call that has written a part and then thrown, an error reply sends that part again. -/
theorem not_wire_prefix_of_reaches :
    ¬ ∀ (s : Socket) (c : Channel), s.writeBuffer = [] →
      Reaches (fun _ => True) ⟨s, [], [], false, false⟩ c → c.wire <+: c.passed := by
  intro hall
  have hrun : Reaches (fun _ => True) ⟨{}, [], [], false, false⟩
      ((Channel.send ⟨{}, [], [], false, false⟩ (ascii "hello") false
        [.ready { pollout := some (.wrote 2) }, .failed]).send (ascii "error") false
        [.ready { pollout := some (.wrote 10) }]) :=
    .tail (.single (.send _ _ _ rfl trivial)) (.send _ _ _ rfl trivial)
  have hprefix := hall _ _ rfl hrun
  revert hprefix
  decide +kernel

end Channel

end VplJail.Socket
