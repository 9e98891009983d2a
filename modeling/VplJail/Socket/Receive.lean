import VplJail.Socket.Headers
import VplJail.Socket.Send

/-!
# Receiving

`Socket::receive` as a loop over what `poll` and `netRead` answer, for the request head and for a
number of bytes. A number of bytes is exact when it is already buffered; else the call returns all
that it has read, which is more when a read brings more, and less when the connection ends.
`exact_iff` says when it is exact.
-/

namespace VplJail

namespace Socket

/-! ## One call -/

/-- What `netRead` does: it reads some bytes, none at the end of the stream, fails with an `errno`
that may stand for a peer that has gone, or throws. -/
inductive NetRead
  | read (data : Bytes)
  | failed (disconnected : Bool)
  | raised (e : Thrown)
deriving DecidableEq, Repr

/-- A `poll` with an event, with the answer of `netRead` if `POLLIN` is set. -/
structure Readable where
  pollin : Option NetRead := none
  hup : Bool := false
  bad : Bool := false
deriving DecidableEq, Repr

/-- What `poll` answers, and whether one of the time limits is over. -/
inductive RecvPoll
  | failed
  | timedOut
  | idle
  | ready (r : Readable)
deriving DecidableEq, Repr

/-- How a turn of the loop ends: the loop goes on or is left with the whole buffer, or the call
returns the empty string or throws. -/
inductive RecvTurn
  | again (s : Socket)
  | leave (s : Socket)
  | done (s : Socket)
  | raised (s : Socket) (e : Thrown)

/-- The socket at the end of a turn. -/
def RecvTurn.socket : RecvTurn → Socket
  | again s | leave s | done s | raised s _ => s

/-- A turn behind its reading. -/
def endRecv (s : Socket) (r : Readable) : RecvTurn :=
  if r.hup then .leave s.close
  else if r.bad then
    if s.websocketProtocol then .leave s.close
    else .raised s (.http internalServerErrorCode "Error reading data")
  else .again s

/-- The buffer is as long as what is waited for. The code compares in `int`. -/
def Complete (sizeToReceive : ℤ) (buffer : Bytes) : Prop :=
  sizeToReceive ≤ (buffer.length : ℤ).bmod (2 ^ 32)

instance (sizeToReceive : ℤ) (buffer : Bytes) : Decidable (Complete sizeToReceive buffer) :=
  inferInstanceAs (Decidable (_ ≤ _))

/-- A buffer that is complete is long enough. -/
theorem Complete.le_length {n : ℕ} {buffer : Bytes} (h : Complete n buffer) :
    n ≤ buffer.length := by
  rw [Complete] at h
  by_cases hlen : buffer.length < 2 ^ 31
  · rw [Int.bmod_eq_of_le (by omega) (by omega)] at h
    omega
  · have hlt := Int.bmod_lt (x := (buffer.length : ℤ)) (m := 2 ^ 32) (by decide)
    omega

/-- A buffer of just the right length is complete. -/
theorem complete_of_length_eq {n : ℕ} {buffer : Bytes} (hint : n < 2 ^ 31)
    (h : buffer.length = n) : Complete n buffer := by
  rw [Complete, h, Int.bmod_eq_of_le (by omega) (by omega)]

/-- A turn that has read the last of the bytes in the buffer. -/
def afterRead (sizeToReceive : ℤ) (s : Socket) (r : Readable) : RecvTurn :=
  if s.header = [] then
    match find (ascii "\r\n\r\n") s.readBuffer with
    | some pos =>
        let header := s.readBuffer.take (pos + 4)
        match (processHeaders header).run { s with header } with
        | (.ok (), s) => .done { s with readBuffer := s.readBuffer.drop (pos + 4) }
        | (.error e, s) => .raised s e
    | none =>
        if s.readBuffer.length > headersSizeLimit then
          .raised s (.http requestEntityTooLargeCode "Http headers too large")
        else endRecv s r
  else if sizeToReceive = 0 ∨ Complete sizeToReceive s.readBuffer then .leave s
  else endRecv s r

/-- A turn of the loop of `receive`. -/
def recvTurn (sizeToReceive : ℤ) (s : Socket) : RecvPoll → RecvTurn
  | .failed => .raised s (.http internalServerErrorCode "Error poll reading data")
  | .timedOut =>
      if sizeToReceive = 0 then .done s
      else if s.websocketProtocol then .leave s.close
      else .raised s (.http requestTimeoutCode "Socket read timeout")
  | .idle => if sizeToReceive = 0 then .leave s else .again s
  | .ready r =>
      match r.pollin with
      | none => endRecv s r
      | some (.raised e) => .raised s e
      | some (.failed disconnected) =>
          if s.websocketProtocol && disconnected then .leave s.close
          else .raised s (.http badRequestCode "Error reading data")
      | some (.read data) =>
          if data = [] then .leave s.close
          else afterRead sizeToReceive { s with readBuffer := s.readBuffer ++ data } r

/-- How a call stands: it has returned some bytes, it has thrown, or it still waits for its
socket. -/
inductive RecvOutcome
  | returned (data : Bytes)
  | raised (e : Thrown)
  | waiting
deriving DecidableEq, Repr

/-- The loop of `receive`: the socket and the outcome, and what `poll` has not been asked yet. -/
def recvLoop (sizeToReceive : ℤ) (s : Socket) : List RecvPoll → Socket × RecvOutcome × List RecvPoll
  | [] => (s, .waiting, [])
  | p :: ps =>
      match recvTurn sizeToReceive s p with
      | .again s => recvLoop sizeToReceive s ps
      | .leave s => ({ s with readBuffer := [] }, .returned s.readBuffer, ps)
      | .done s => (s, .returned [], ps)
      | .raised s e => (s, .raised e, ps)

/-- `Socket::receive`: the head of a request, or data of the given size. -/
def receive (s : Socket) (sizeToReceive : ℤ) (polls : List RecvPoll) :
    Socket × RecvOutcome × List RecvPoll :=
  if s.closed then ({ s with readBuffer := [] }, .returned s.readBuffer, polls)
  else
    let sizeToReceive : ℤ := if s.header = [] then headersSizeLimit else sizeToReceive
    if 0 < sizeToReceive ∧ Complete sizeToReceive s.readBuffer ∧ s.header ≠ [] then
      ({ s with readBuffer := s.readBuffer.drop sizeToReceive.toNat },
        .returned (s.readBuffer.take sizeToReceive.toNat), polls)
    else recvLoop sizeToReceive s polls

/-- `Socket::readHeaders`: the head, unless it has been read. -/
def readHeaders (s : Socket) (polls : List RecvPoll) : Socket × RecvOutcome × List RecvPoll :=
  if s.header = [] then s.receive 0 polls else (s, .returned [], polls)

/-! ## What a call takes from the stream -/

/-- The bytes that a poll brings. -/
def RecvPoll.bytes : RecvPoll → Bytes
  | ready { pollin := some (.read data), .. } => data
  | _ => []

/-- The bytes that some polls bring. -/
def stream (polls : List RecvPoll) : Bytes :=
  polls.flatMap RecvPoll.bytes

@[simp] theorem stream_nil : stream [] = [] := rfl

@[simp] theorem stream_cons (p : RecvPoll) (ps : List RecvPoll) :
    stream (p :: ps) = p.bytes ++ stream ps :=
  List.flatMap_cons

@[simp] theorem stream_append (ps ps' : List RecvPoll) :
    stream (ps ++ ps') = stream ps ++ stream ps' :=
  List.flatMap_append

/-- A poll that ends the connection: the end of the stream, a hang-up, and on a WebSocket also a
time-out, a peer that has gone and an error of the descriptor. -/
def RecvPoll.ends (ws : Bool) : RecvPoll → Bool
  | failed => false
  | timedOut => ws
  | idle => false
  | ready { pollin := some (.read []), .. } => true
  | ready { pollin := some (.failed disconnected), .. } => ws && disconnected
  | ready { pollin := some (.raised _), .. } => false
  | ready { hup, bad, .. } => hup || (bad && ws)

/-- A poll that makes the call throw. -/
def RecvPoll.throws (ws : Bool) : RecvPoll → Bool
  | failed => true
  | timedOut => !ws
  | idle => false
  | ready { pollin := some (.read []), .. } => false
  | ready { pollin := some (.failed disconnected), .. } => !(ws && disconnected)
  | ready { pollin := some (.raised _), .. } => true
  | ready { hup, bad, .. } => !hup && bad && !ws

/-- The socket with more bytes in its buffer. -/
def fill (s : Socket) (data : Bytes) : Socket :=
  { s with readBuffer := s.readBuffer ++ data }

@[simp] theorem fill_nil (s : Socket) : s.fill [] = s := by
  simp [fill]

/-- What a turn does once the head has been read. -/
theorem recvTurn_eq {n : ℕ} (hn : 0 < n) {s : Socket} (hheader : s.header ≠ []) (p : RecvPoll) :
    ∃ e, recvTurn n s p =
      if p.bytes ≠ [] ∧ Complete n (s.readBuffer ++ p.bytes) then .leave (s.fill p.bytes)
      else if p.ends s.websocketProtocol then .leave (s.fill p.bytes).close
      else if p.throws s.websocketProtocol then .raised (s.fill p.bytes) e
      else .again (s.fill p.bytes) := by
  have hn0 : (n : ℤ) ≠ 0 := by omega
  have hend (s : Socket) (r : Readable) : endRecv s r =
      if r.hup || (r.bad && s.websocketProtocol) then .leave s.close
      else if !r.hup && r.bad && !s.websocketProtocol then
        .raised s (.http internalServerErrorCode "Error reading data")
      else .again s := by
    rw [endRecv]
    cases r.hup <;> cases r.bad <;> cases s.websocketProtocol <;> rfl
  rcases p with _ | _ | _ | ⟨pollin, hup, bad⟩
  · exact ⟨_, by simp [recvTurn, RecvPoll.bytes, RecvPoll.ends, RecvPoll.throws]; rfl⟩
  · refine ⟨.http requestTimeoutCode "Socket read timeout", ?_⟩
    simp only [recvTurn, if_neg hn0, RecvPoll.bytes, RecvPoll.ends, RecvPoll.throws, fill_nil]
    cases s.websocketProtocol <;> simp
  · exact ⟨.text "", by simp [recvTurn, hn.ne', RecvPoll.bytes, RecvPoll.ends, RecvPoll.throws]⟩
  · rcases pollin with _ | data | disconnected | e
    · refine ⟨.http internalServerErrorCode "Error reading data", (hend s _).trans ?_⟩
      simp [RecvPoll.bytes, RecvPoll.ends, RecvPoll.throws]
    · cases data with
      | nil => exact ⟨.text "", by simp [recvTurn, RecvPoll.bytes, RecvPoll.ends]⟩
      | cons b data =>
        refine ⟨.http internalServerErrorCode "Error reading data", ?_⟩
        simp only [recvTurn, if_neg (List.cons_ne_nil b data), afterRead, if_neg hheader, hend]
        simp [hn.ne', fill, RecvPoll.bytes, RecvPoll.ends, RecvPoll.throws]
    · refine ⟨.http badRequestCode "Error reading data", ?_⟩
      simp only [recvTurn, RecvPoll.bytes, RecvPoll.ends, RecvPoll.throws, fill_nil]
      cases s.websocketProtocol <;> cases disconnected <;> simp
    · exact ⟨e, by simp [recvTurn, RecvPoll.bytes, RecvPoll.ends, RecvPoll.throws]⟩

/-! ## Exact reads -/

/-- A read of `n` bytes is exact: it returns the next `n` bytes and leaves the rest, and it throws
or waits only while fewer have arrived. `total` is what is buffered and what `poll` still brings. -/
def Exact (n : ℕ) (total : Bytes) : Socket × RecvOutcome × List RecvPoll → Prop
  | (s, .returned data, polls) =>
      data.length = n ∧ data ++ s.readBuffer ++ stream polls = total
  | (s, .raised _, _) => s.readBuffer.length < n
  | (s, .waiting, _) => s.readBuffer.length < n

/-- While fewer than `n` bytes are buffered, `len` of them, no poll brings more than are missing, or
ends the connection without bringing these. -/
def Fits (ws : Bool) (n : ℕ) : ℕ → List RecvPoll → Prop
  | _, [] => True
  | len, p :: ps =>
      len < n → len + p.bytes.length ≤ n ∧ (p.ends ws → len + p.bytes.length = n) ∧
        (p.ends ws = false → p.throws ws = false → Fits ws n (len + p.bytes.length) ps)

section Loop

variable {n : ℕ} (hn : 0 < n)
include hn

/-- A turn that ends with too many bytes in the buffer is not exact, unless the loop goes on. -/
theorem not_exact_turn {s : Socket} (hheader : s.header ≠ []) {p : RecvPoll} {ps : List RecvPoll}
    {total : Bytes} (hfill : n < (s.fill p.bytes).readBuffer.length)
    (hagain : ¬ Exact n total (recvLoop n (s.fill p.bytes) ps)) :
    ¬ Exact n total (recvLoop n s (p :: ps)) := by
  obtain ⟨e, hturn⟩ := recvTurn_eq hn hheader p
  rw [recvLoop, hturn]
  split_ifs
  · exact fun h => hfill.ne' h.1
  · exact fun h => hfill.ne' h.1
  · exact Nat.not_lt.mpr hfill.le
  · exact hagain

/-- A read that starts with too many bytes in the buffer is not exact. -/
theorem not_exact_recvLoop {s : Socket} (hheader : s.header ≠ []) (hlen : n < s.readBuffer.length)
    (total : Bytes) (polls : List RecvPoll) : ¬ Exact n total (recvLoop n s polls) := by
  induction polls generalizing s with
  | nil => exact Nat.not_lt.mpr hlen.le
  | cons p ps ih =>
    have hfill : n < (s.fill p.bytes).readBuffer.length := by
      rw [fill, List.length_append]
      omega
    exact not_exact_turn hn hheader hfill (ih hheader hfill)

/-- The loop is exact when the polls fit. -/
theorem exact_recvLoop_iff (hint : n < 2 ^ 31) {s : Socket} (hheader : s.header ≠ [])
    (hlen : s.readBuffer.length < n) (polls : List RecvPoll) :
    Exact n (s.readBuffer ++ stream polls) (recvLoop n s polls) ↔
      Fits s.websocketProtocol n s.readBuffer.length polls := by
  induction polls generalizing s with
  | nil => exact iff_of_true hlen trivial
  | cons p ps ih =>
    have hfill : (s.fill p.bytes).readBuffer.length = s.readBuffer.length + p.bytes.length :=
      List.length_append
    have htotal : s.readBuffer ++ stream (p :: ps) = (s.fill p.bytes).readBuffer ++ stream ps := by
      rw [stream_cons, ← List.append_assoc]
      rfl
    rw [htotal]
    obtain hmore | hall | hless := lt_trichotomy n (s.readBuffer.length + p.bytes.length)
    · -- too many bytes
      refine iff_of_false ?_ fun h => by have := (h hlen).1; omega
      have hlt : n < (s.fill p.bytes).readBuffer.length := by omega
      exact not_exact_turn hn hheader hlt
        (not_exact_recvLoop hn (s := s.fill p.bytes) hheader hlt _ ps)
    · -- the missing bytes
      have hbytes : p.bytes ≠ [] := by
        intro hnil
        rw [hnil, List.length_nil] at hall
        omega
      have hcomplete : Complete n (s.readBuffer ++ p.bytes) :=
        complete_of_length_eq hint (hfill.trans hall.symm)
      obtain ⟨e, hturn⟩ := recvTurn_eq hn hheader p
      rw [recvLoop, hturn, if_pos ⟨hbytes, hcomplete⟩]
      refine iff_of_true ⟨hfill.trans hall.symm, ?_⟩ ?_
      · simp only [List.append_nil]
      · intro _
        refine ⟨hall.ge, fun _ => hall.symm, fun _ _ => ?_⟩
        rw [← hall]
        cases ps with
        | nil => trivial
        | cons q ps => exact fun h => absurd h (lt_irrefl n)
    · -- not yet all
      have hcomplete : ¬ Complete n (s.readBuffer ++ p.bytes) := fun h =>
        absurd (h.le_length.trans_eq hfill) (Nat.not_le.mpr hless)
      obtain ⟨e, hturn⟩ := recvTurn_eq hn hheader p
      rw [recvLoop, hturn, if_neg fun h => hcomplete h.2, Fits]
      split_ifs with hends hthrows
      · refine iff_of_false (fun h => ?_) fun h => ?_
        · have hlen' : (s.fill p.bytes).readBuffer.length = n := h.1
          omega
        · have := (h hlen).2.1 hends
          omega
      · refine iff_of_true ?_ fun _ => ⟨hless.le, fun h => absurd h hends, fun _ h => ?_⟩
        · exact hfill.trans_lt hless
        · rw [hthrows] at h
          cases h
      · have hih := ih (s := s.fill p.bytes) hheader (hfill.trans_lt hless)
        rw [hfill] at hih
        refine hih.trans ⟨fun h _ => ⟨hless.le, fun h => absurd h hends, fun _ _ => h⟩, fun h => ?_⟩
        exact (h hlen).2.2 (Bool.eq_false_of_not_eq_true hends)
          (Bool.eq_false_of_not_eq_true hthrows)

end Loop

/-- When a read of `n` bytes is exact: on a closed socket if just `n` bytes are buffered, else if `n`
are buffered or the reads fit. -/
def ExactWhen (s : Socket) (n : ℕ) (polls : List RecvPoll) : Prop :=
  if s.closed then s.readBuffer.length = n
  else Complete n s.readBuffer ∨
    (s.readBuffer.length < n ∧ Fits s.websocketProtocol n s.readBuffer.length polls)

/-- A read of `n` bytes behind the request head is exact in just these cases. -/
theorem exact_receive_iff {n : ℕ} (hn : 0 < n) (hint : n < 2 ^ 31) {s : Socket}
    (hheader : s.header ≠ []) (polls : List RecvPoll) :
    Exact n (s.readBuffer ++ stream polls) (s.receive n polls) ↔ s.ExactWhen n polls := by
  rw [receive, ExactWhen]
  split
  · -- a closed socket gives all that is buffered
    constructor
    · exact fun h => h.1
    · intro h
      exact ⟨h, by simp only [List.append_nil]⟩
  simp only [Nat.cast_pos, hn, hheader, ne_eq, not_false_eq_true, and_true, true_and,
    Int.toNat_natCast]
  by_cases hcomplete : Complete n s.readBuffer
  · rw [if_pos hcomplete]
    refine iff_of_true ⟨?_, ?_⟩ (.inl hcomplete)
    · exact List.length_take_of_le hcomplete.le_length
    · simp only [List.take_append_drop]
  · rw [if_neg hcomplete]
    obtain hlt | heq | hgt := lt_trichotomy s.readBuffer.length n
    · rw [exact_recvLoop_iff hn hint hheader hlt]
      exact ⟨fun h => .inr ⟨hlt, h⟩, fun h => (h.resolve_left hcomplete).2⟩
    · exact absurd (complete_of_length_eq hint heq) hcomplete
    · refine iff_of_false (not_exact_recvLoop hn hheader hgt _ polls) ?_
      rintro (h | h)
      · exact hcomplete h
      · exact absurd h.1 (Nat.not_lt.mpr hgt.le)

end Socket

end VplJail
