import VplJail.WebSocket.Frame

/-!
# `webSocket::receive`

One call of `receive` appends what the socket delivers to the receive buffer and takes at most one
frame off it. A call answers with the object it leaves, the frames handed to the socket, whether it
closed the socket, and what it returned.
-/

namespace VplJail.WebSocket

/-! ## UTF-8 -/

/-- A continuation byte. -/
def isContinuation (cb : UInt8) : Bool :=
  cb &&& 0xC0 == 0x80

/-- The code point of a lead byte's bits and the continuation bytes behind it. -/
def codepoint (lead : UInt8) (cbs : List UInt8) : ℕ :=
  cbs.foldl (fun cp cb => cp <<< 6 ||| (cb &&& 0x3F).toNat) lead.toNat

/-- The checks on the continuation bytes `cbs` behind a lead byte and on the code point, which is at
least `least` unless its form is too long. -/
def validChar (lead : UInt8) (least : ℕ) (cbs : List UInt8) : Bool :=
  cbs.all isContinuation && decide (least ≤ codepoint lead cbs) &&
    decide (codepoint lead cbs ≤ 0x10FFFF) &&
    !(decide (0xD800 ≤ codepoint lead cbs) && decide (codepoint lead cbs ≤ 0xDFFF))

/-- `isValidUTF8`: the bytes encode scalar values. -/
def isValidUTF8 : Bytes → Bool
  | [] => true
  | b :: rest =>
      if b < 0x80 then isValidUTF8 rest
      else if b &&& 0xE0 = 0xC0 then
        match rest with
        | c1 :: rest => validChar (b &&& 0x1F) 0x80 [c1] && isValidUTF8 rest
        | _ => false
      else if b &&& 0xF0 = 0xE0 then
        match rest with
        | c1 :: c2 :: rest => validChar (b &&& 0x0F) 0x800 [c1, c2] && isValidUTF8 rest
        | _ => false
      else if b &&& 0xF8 = 0xF0 then
        match rest with
        | c1 :: c2 :: c3 :: rest => validChar (b &&& 0x07) 0x10000 [c1, c2, c3] && isValidUTF8 rest
        | _ => false
      else false

/-! ## The object -/

/-- The fields of `webSocket` besides the receive buffer. -/
structure Session where
  closeSent : Bool
  base64 : Bool
  previousData : Bytes
  lFrameType : FrameType
deriving DecidableEq, Repr

/-- The fields of `webSocket`. -/
structure State extends Session where
  receiveBuffer : Bytes
deriving DecidableEq, Repr

/-- What a call of `receive` returns: `""`, the data of a message whose last frame has come, or the
exception of `Base64::decode`. -/
inductive Return
  | nothing
  | message (ft : FrameType) (data : Bytes)
  | thrown
deriving DecidableEq, Repr

/-- The string returned. -/
def Return.value : Return → Option Bytes
  | nothing => some []
  | message _ data => some data
  | thrown => none

/-- The outcome of a call: the fields left, the frames handed to `socket->send`, whether
`socket->close` was called, and the return. -/
structure Outcome where
  session : Session
  sent : List Bytes
  closed : Bool
  ret : Return
deriving DecidableEq, Repr

/-! ## The calls -/

/-- `statusCode` in two bytes. -/
def statusBytes (statusCode : ℕ) : Bytes :=
  [UInt8.ofNat (statusCode >>> 8), UInt8.ofNat (statusCode % 256)]

/-- The payload of the close frame for the reason `t`. -/
def closePayload (t : Bytes) : Bytes :=
  if t = [] then [] else statusBytes (if t = ascii "Error" then 1002 else 1000) ++ t

/-- `close`: a Close frame, once. -/
def close (s : Session) (t : Bytes) : Session × List Bytes :=
  if s.closeSent then (s, [])
  else ({ s with closeSent := true }, [encodeFrame s.base64 (closePayload t) .connectionClose])

/-- `close(t)` followed by `socket->close()` and the return of the empty string. -/
def closeAndReturn (s : Session) (t : Bytes) : Outcome :=
  ⟨(close s t).1, (close s t).2, true, .nothing⟩

/-- `a - b` in `size_t`. -/
def sizeSub (a b : ℕ) : ℕ :=
  (a + (2 ^ 64 - b % 2 ^ 64)) % 2 ^ 64

/-- A fragment of a text or binary message. -/
def receiveData (s : Session) (fin : Bool) (data : Bytes) : Outcome :=
  if fin then
    let data := if s.previousData.length > 0 then s.previousData ++ data else data
    let s := { s with previousData := [] }
    if s.lFrameType = .text ∧ ¬ isValidUTF8 data then
      let payload := statusBytes 1007 ++ ascii "Invalid UTF-8 data"
      { session := { s with closeSent := true }
        sent := if s.closeSent then [] else [encodeFrame s.base64 payload .connectionClose]
        closed := true
        ret := .nothing }
    else ⟨s, [], false, .message s.lFrameType data⟩
  else if s.previousData.length > sizeSub frameSizeLimit data.length then
    closeAndReturn s (ascii "Error")
  else ⟨{ s with previousData := s.previousData ++ data }, [], false, .nothing⟩

/-- The difference in the test of the size. -/
theorem sizeSub_limit {n : ℕ} (h : n ≤ frameSizeLimit) :
    sizeSub frameSizeLimit n = frameSizeLimit - n := by
  rw [frameSizeLimit] at *
  rw [sizeSub]
  omega

/-- The last fragment completes the message, which is refused when it is an invalid text. -/
theorem receiveData_last (s : Session) (data : Bytes) :
    receiveData s true data =
      if s.lFrameType = .text ∧ ¬ isValidUTF8 (s.previousData ++ data) = true then
        ⟨{ s with previousData := [], closeSent := true },
          if s.closeSent then []
          else [encodeFrame s.base64 (statusBytes 1007 ++ ascii "Invalid UTF-8 data")
            .connectionClose],
          true, .nothing⟩
      else
        ⟨{ s with previousData := [] }, [], false,
          .message s.lFrameType (s.previousData ++ data)⟩ := by
  have hwhole : (if s.previousData.length > 0 then s.previousData ++ data else data) =
      s.previousData ++ data := by
    split
    · rfl
    · rw [List.eq_nil_of_length_eq_zero (by omega : s.previousData.length = 0), List.nil_append]
  simp only [receiveData, if_true, hwhole]

/-- Another fragment is kept, unless the limit refuses it. -/
theorem receiveData_fragment (s : Session) {data : Bytes} (h : data.length ≤ frameSizeLimit) :
    receiveData s false data =
      if frameSizeLimit < s.previousData.length + data.length then closeAndReturn s (ascii "Error")
      else ⟨{ s with previousData := s.previousData ++ data }, [], false, .nothing⟩ := by
  rw [receiveData, if_neg Bool.false_ne_true, sizeSub_limit h]
  split_ifs <;> first | rfl | omega

/-- The `switch (lFrameType)` of `receive` for the decoded data. -/
def receiveFrame (s : Session) (fin : Bool) (data : Bytes) : Outcome :=
  match s.lFrameType with
  | .text => receiveData s fin data
  | .binary => receiveData s fin data
  | .connectionClose => closeAndReturn s (ascii "Bye")
  | .ping => ⟨s, [encodeFrame s.base64 data .pong], false, .nothing⟩
  | .pong => ⟨s, [], false, .nothing⟩
  | .continuation => closeAndReturn s (ascii "Error")
  | .error => closeAndReturn s (ascii "Error")
  | .unnamed _ => closeAndReturn s (ascii "Error")

/-- The call of `decodeFrame` on a complete frame and what follows it, with the buffer left. -/
def receiveDecoded (s : Session) (buffer : Bytes) : Outcome × Bytes :=
  match decodeFrame s.base64 buffer s.lFrameType with
  | .error message => (receiveFrame { s with lFrameType := .error } false (ascii message), buffer)
  | .lengthError rest => (⟨{ s with lFrameType := .binary }, [], false, .thrown⟩, rest)
  | .frame payload ft fin rest => (receiveFrame { s with lFrameType := ft } fin payload, rest)

/-- The condition of the guard against a buffer that grows without a frame in it. -/
def oversized (buffer : Bytes) : Bool :=
  decide (buffer.length > frameSizeLimit + 14) && !isFrameComplete buffer

/-- `receive`, where `socket->receive()` returns `chunk`. -/
def receive (ws : State) (chunk : Bytes) : Outcome × Bytes :=
  let buffer := ws.receiveBuffer ++ chunk
  if oversized buffer then (closeAndReturn ws.toSession (ascii "Error"), buffer)
  else if isFrameComplete buffer then receiveDecoded ws.toSession buffer
  else (⟨ws.toSession, [], false, .nothing⟩, buffer)

end VplJail.WebSocket
