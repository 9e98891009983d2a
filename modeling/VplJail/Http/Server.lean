import VplJail.Socket.Receive

/-!
# Request bodies

`HttpJailServer::receive`: the answer to `Expect: 100-continue`, and then as many bytes as
`Content-Length` says. The body is as exact as the read of the socket.
-/

namespace VplJail.HttpServer

open Socket Util

/-- What `prepare_HTTP` makes of the code 100. -/
def continueReply : Bytes :=
  ascii "HTTP/1.1 " ++ itos 100 ++ ascii " Continue\r\n" ++ ascii "\r\n"

/-- `sendCode(continueCode)`: the answer to `Expect`. -/
def sendContinue (s : Socket) (sends : List SendPoll) : Bytes × Socket × SendOutcome :=
  if s.websocketProtocol then ([], s.close, .returned) else s.send continueReply false sends

/-- The answer to the header `Expect`. -/
def answerExpect (s : Socket) (sends : List SendPoll) : Bytes × Socket × SendOutcome :=
  if s.getHeader (ascii "Expect") = ascii "100-continue" then sendContinue s sends
  else ([], s, .returned)

/-- The body, which may not be longer than `requestMaxSize`. -/
def receiveBody (s : Socket) (requestMaxSize : ℤ) (polls : List RecvPoll) :
    Socket × RecvOutcome × List RecvPoll :=
  let sizeToRead := atoi (cstr (s.getHeader (ascii "Content-Length")))
  if sizeToRead ≠ 0 then
    if requestMaxSize < sizeToRead then
      (s, .raised (.http requestEntityTooLargeCode "http Request size too large"), polls)
    else s.receive sizeToRead polls
  else (s, .returned [], polls)

/-- `HttpJailServer::receive`: the bytes written, and the outcome of the read or, if it has not come
to that, of the answer. -/
def receive (s : Socket) (requestMaxSize : ℤ) (sends : List SendPoll) (polls : List RecvPoll) :
    Bytes × (Socket × SendOutcome ⊕ Socket × RecvOutcome × List RecvPoll) :=
  match answerExpect s sends with
  | (wire, s, .returned) => (wire, .inr (receiveBody s requestMaxSize polls))
  | (wire, s, o) => (wire, .inl (s, o))

/-- The answer leaves what has been received as it is. -/
theorem answerExpect_received {s s' : Socket} {sends : List SendPoll} {wire : Bytes}
    {o : SendOutcome} (h : answerExpect s sends = (wire, s', o)) :
    s'.header = s.header ∧ s'.headers = s.headers ∧ s'.readBuffer = s.readBuffer := by
  rw [answerExpect] at h
  split at h
  · rw [sendContinue] at h
    split at h
    · cases h
      exact ⟨rfl, rfl, rfl⟩
    · exact send_received h
  · cases h
    exact ⟨rfl, rfl, rfl⟩

/-- A read of `n` bytes behind the request head, and a body of that length, are exact just when `n`
bytes are buffered or the reads fit. -/
theorem exact_iff {n : ℕ} (hn : 0 < n) (hint : n < 2 ^ 31) {s : Socket} (hheader : s.header ≠ [])
    (polls : List RecvPoll) :
    (Exact n (s.readBuffer ++ stream polls) (s.receive n polls) ↔ s.ExactWhen n polls) ∧
      ∀ (requestMaxSize : ℤ) sends wire r, n ≤ requestMaxSize →
        atoi (cstr (s.getHeader (ascii "Content-Length"))) = n →
        receive s requestMaxSize sends polls = (wire, .inr r) →
        ∃ s', answerExpect s sends = (wire, s', .returned) ∧
          (Exact n (s.readBuffer ++ stream polls) r ↔ s'.ExactWhen n polls) := by
  refine ⟨exact_receive_iff hn hint hheader polls, ?_⟩
  intro requestMaxSize sends wire r hmax hlength h
  rw [receive] at h
  split at h
  · rename_i wire' s' hanswer
    cases h
    obtain ⟨hheader', hheaders, hbuffer⟩ := answerExpect_received hanswer
    have hlength' : atoi (cstr (s'.getHeader (ascii "Content-Length"))) = n := by
      rw [← hlength, getHeader, getHeader, hheaders]
    refine ⟨s', hanswer, ?_⟩
    simp only [receiveBody, hlength']
    rw [if_pos (by omega), if_neg (by omega), ← hbuffer]
    exact exact_receive_iff hn hint (by rwa [hheader']) polls
  · cases h

/-- A read that brings just what is missing. -/
theorem exact_iff_abc :
    Exact 3 ([97, 98] ++ stream [.idle, .ready { pollin := some (.read [99]) }])
      (Socket.receive { header := [88], readBuffer := [97, 98] } 3
        [.idle, .ready { pollin := some (.read [99]) }]) := by
  have hwhen : ExactWhen { header := [88], readBuffer := [97, 98] } 3
      [.idle, .ready { pollin := some (.read [99]) }] := by
    rw [ExactWhen, if_neg (by decide)]
    refine .inr ⟨by decide, fun _ => ⟨by decide, fun h => absurd h (by decide), fun _ _ _ => ?_⟩⟩
    exact ⟨by decide, fun h => absurd h (by decide), fun _ _ => trivial⟩
  exact (exact_iff (by decide) (by decide) (List.cons_ne_nil 88 []) _).1.mpr hwhen

/-- A read that brings more than is missing is returned whole. -/
theorem not_exact_receive :
    ¬ ∀ (n : ℕ) (s : Socket) (polls : List RecvPoll), 0 < n → n < 2 ^ 31 → s.header ≠ [] →
      s.closed = false → Exact n (s.readBuffer ++ stream polls) (s.receive n polls) := by
  intro hall
  have hexact := hall 3 { header := [88] } [.ready { pollin := some (.read [97, 98, 99, 100]) }]
    (by decide) (by decide) (by decide) rfl
  have hlen : ([97, 98, 99, 100] : Bytes).length = 3 := hexact.1
  cases hlen

end VplJail.HttpServer
