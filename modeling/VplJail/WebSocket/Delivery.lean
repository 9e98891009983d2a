import VplJail.Common.Framing
import VplJail.WebSocket.FrameCodec
import VplJail.WebSocket.Receive

/-!
# Reception does not depend on the division into chunks

`receiveAll` calls `receive` for every chunk and then until no complete frame remains. The answers
of `frameSize` are final (`frameSize_append`), so the calls are an instance of `Framing` and the
events are those of the whole stream (`receiveAll_eq_feed`).
-/

namespace VplJail.WebSocket

/-! ## Runs -/

/-- What a run of calls shows: messages and exceptions to the caller, frames and the close to the
socket. -/
inductive Event
  | message (ft : FrameType) (data : Bytes)
  | thrown
  | sent (frame : Bytes)
  | closed
deriving DecidableEq, Repr

/-- The events of a return. -/
def Return.events : Return → List Event
  | nothing => []
  | message ft data => [.message ft data]
  | thrown => [.thrown]

/-- The events of a call. -/
def Outcome.events (o : Outcome) : List Event :=
  o.sent.map .sent ++ o.ret.events ++ if o.closed then [.closed] else []

/-- One call for each chunk, up to the close of the socket. -/
def receiveEach (ws : State) : List Bytes → List Outcome × Option State
  | [] => ([], some ws)
  | chunk :: chunks =>
      let (o, buffer) := receive ws chunk
      if o.closed then ([o], none)
      else
        let (os, ws') := receiveEach ⟨o.session, buffer⟩ chunks
        (o :: os, ws')

/-! ## The answers of `frameSize` are final -/

section Append

variable {b : Bytes} (more : Bytes)

/-- The first two bytes decide the sizes of the header. -/
theorem sizes_append (h : 2 ≤ b.length) :
    controlSize (b ++ more) = controlSize b ∧ maskSize (b ++ more) = maskSize b := by
  have hb : byteAt (b ++ more) 1 = byteAt b 1 := byteAt_append more (by omega)
  rw [controlSize, controlSize, maskSize, maskSize, lengthCode, lengthCode, bitAt, bitAt, hb]
  exact ⟨rfl, rfl⟩

/-- The header decides the size of the payload. -/
theorem decodedSize_append (h2 : 2 ≤ b.length) (h : controlSize b ≤ b.length) :
    decodedSize (b ++ more) = decodedSize b := by
  have hcode : lengthCode (b ++ more) = lengthCode b := by
    rw [lengthCode, lengthCode, byteAt_append more (by omega)]
  have hb : ∀ i < controlSize b, byteAt (b ++ more) i = byteAt b i :=
    fun i hi => byteAt_append more (by omega)
  have hlt : lengthCode b < 128 := Nat.mod_lt _ (by omega)
  obtain hc | hc | hc : lengthCode b < 126 ∨ lengthCode b = 126 ∨ lengthCode b = 127 := by omega
  · rw [(header_of_code_lt hc).2, (header_of_code_lt (hcode ▸ hc)).2, hcode]
  · obtain ⟨hs, hd⟩ := header_of_code_126 hc
    rw [hd, (header_of_code_126 (hcode ▸ hc)).2, length16, length16, hb 2 (by omega),
      hb 3 (by omega)]
  · obtain ⟨hs, hd⟩ := header_of_code_127 hc
    rw [hd, (header_of_code_127 (hcode ▸ hc)).2, length64, length64, bitAt, bitAt,
      hb 2 (by omega), hb 3 (by omega), hb 4 (by omega), hb 5 (by omega), hb 6 (by omega),
      hb 7 (by omega), hb 8 (by omega), hb 9 (by omega)]

theorem badFrame_append (h : 2 ≤ b.length) (size : ℕ) :
    badFrame (b ++ more) size = badFrame b size := by
  have hb : byteAt (b ++ more) 0 = byteAt b 0 := byteAt_append more (by omega)
  rw [badFrame, badFrame, opcode, opcode, bitAt, bitAt, hb]

/-- Once `frameSize` has answered a size or `-2`, it gives the same answer for every extension. -/
theorem frameSize_append (h : frameSize b ≠ .incomplete) : frameSize (b ++ more) = frameSize b := by
  simp only [frameSize] at h ⊢
  by_cases h2 : b.length < 2
  · simp [h2] at h
  rw [if_neg h2] at h ⊢
  obtain ⟨hc, hm⟩ := sizes_append more (show 2 ≤ b.length by omega)
  by_cases hlen : b.length < controlSize b
  · simp [hlen] at h
  rw [if_neg hlen] at h ⊢
  rw [hc, hm, decodedSize_append more (by omega) (by omega), List.length_append, if_neg (by omega),
    if_neg (by omega)]
  cases hd : decodedSize b with
  | none => rfl
  | some size =>
      simp only [hd, badFrame_append more (show 2 ≤ b.length by omega)] at h ⊢
      by_cases hbad : badFrame b size = true
      · rw [if_pos hbad, if_pos hbad]
      · rw [if_neg hbad] at h ⊢
        by_cases hl : b.length < controlSize b + maskSize b + size
        · simp [hl] at h
        · rw [if_neg hbad, if_neg hl, if_neg (by omega)]

end Append

/-- A frame is complete once `frameSize` knows its size or refuses it. -/
theorem isFrameComplete_iff {b : Bytes} : isFrameComplete b = true ↔ frameSize b ≠ .incomplete := by
  rw [isFrameComplete]
  cases h : frameSize b with
  | incomplete => simp
  | invalid => simp
  | size header => simpa using (frameSize_eq_size.mp h).2.2.2.2.2

/-- A buffer without a complete frame is bounded by the largest frame. -/
theorem length_le_of_incomplete {b : Bytes} (h : frameSize b = .incomplete) :
    b.length ≤ frameSizeLimit + 14 := by
  have hc : controlSize b ≤ 10 := by
    unfold controlSize
    split <;> [omega; split <;> omega]
  have hm : maskSize b ≤ 4 := by
    unfold maskSize
    split <;> omega
  by_contra hlen
  rw [frameSize, if_neg (by omega), if_neg (by omega)] at h
  cases hd : decodedSize b with
  | none => simp [hd] at h
  | some size =>
      simp only [hd] at h
      split at h
      · cases h
      · -- the size passed its bound, so the whole frame is in the buffer
        rename_i hbad
        have hsize : size ≤ frameSizeLimit := by
          simp only [badFrame, Bool.or_eq_true, decide_eq_true_eq, not_or] at hbad
          omega
        rw [if_neg (by omega)] at h
        cases h

/-- The guard against a buffer that grows without a frame never fires. -/
theorem oversized_eq_false (b : Bytes) : oversized b = false := by
  rw [oversized, Bool.and_eq_false_iff]
  by_cases h : frameSize b = .incomplete
  · exact .inl (decide_eq_false (Nat.not_lt.mpr (length_le_of_incomplete h)))
  · exact .inr (by rw [isFrameComplete_iff.mpr h]; rfl)

/-! ## The receiver as a framing -/

/-- A result of `decodeFrame` with more bytes behind the buffer. -/
def Decoded.append (more : Bytes) : Decoded → Decoded
  | error message => error message
  | lengthError rest => lengthError (rest ++ more)
  | frame payload ft fin rest => frame payload ft fin (rest ++ more)

theorem unwrapBase64_append (base64 fin : Bool) (ret rest more : Bytes) (ft : FrameType) :
    unwrapBase64 base64 ret ft fin (rest ++ more) =
      (unwrapBase64 base64 ret ft fin rest).append more := by
  unfold unwrapBase64
  split
  · cases Base64.decode ret <;> rfl
  · rfl

/-- A complete frame is decoded the same way whatever follows it. -/
theorem decodeFrame_append {b : Bytes} (more : Bytes) (base64 : Bool) (ft : FrameType)
    (h : frameSize b ≠ .incomplete) :
    decodeFrame base64 (b ++ more) ft = (decodeFrame base64 b ft).append more := by
  rw [decodeFrame, decodeFrame, frameSize_append more h]
  cases hs : frameSize b with
  | incomplete => exact absurd hs h
  | invalid => rfl
  | size header =>
      obtain ⟨hc, hm, -, -, h2, hlen⟩ := frameSize_eq_size.mp hs
      rw [FrameHeader.total] at hlen
      have hb : byteAt (b ++ more) 0 = byteAt b 0 := byteAt_append more (by omega)
      by_cases hmask : header.maskSize = 0
      · simp [hmask, Decoded.append]
      by_cases hrsv : byteAt b 0 / 16 % 8 = 0
      · have hm4 : header.maskSize = 4 := by
          rw [hm, maskSize] at hmask ⊢
          split <;> simp_all
        have hop : opcode (b ++ more) = opcode b := by rw [opcode, opcode, hb]
        have hfin : bitAt (b ++ more) 0 7 = bitAt b 0 7 := by rw [bitAt, bitAt, hb]
        dsimp only
        rw [hb, hop, hfin, if_neg hmask, if_neg hmask,
          if_neg (not_not.mpr hrsv), if_neg (not_not.mpr hrsv)]
        rw [List.drop_append_of_le_length (by omega), List.drop_append_of_le_length (by omega),
          List.drop_append_of_le_length (by rw [FrameHeader.total]; omega),
          List.take_append_of_le_length (by simp; omega),
          List.take_append_of_le_length (by simp; omega), unwrapBase64_append]
      · simp [hmask, hb, hrsv, Decoded.append]

/-- What follows a complete frame stays behind what the call leaves. -/
theorem receiveDecoded_append {b : Bytes} (more : Bytes) (s : Session)
    (h : frameSize b ≠ .incomplete) :
    receiveDecoded s (b ++ more) = ((receiveDecoded s b).1, (receiveDecoded s b).2 ++ more) := by
  rw [receiveDecoded, receiveDecoded, decodeFrame_append more _ _ h]
  cases decodeFrame s.base64 b s.lFrameType <;> rfl

/-- A frame taken off the buffer has at least a header. -/
theorem length_rest_lt {b rest : Bytes} {base64 : Bool} {ft : FrameType}
    (h : decodeFrame base64 b ft = .lengthError rest ∨
      ∃ payload ft' fin, decodeFrame base64 b ft = .frame payload ft' fin rest) :
    rest.length < b.length := by
  rw [decodeFrame] at h
  cases hs : frameSize b with
  | incomplete => simp [hs] at h
  | invalid => simp [hs] at h
  | size header =>
      obtain ⟨hc, -, -, -, h2, hlen⟩ := frameSize_eq_size.mp hs
      have hpos : 0 < header.total := by
        rw [FrameHeader.total, hc, controlSize]
        split <;> [omega; split <;> omega]
      have hdrop : rest = b.drop header.total := by
        simp only [hs, unwrapBase64] at h
        repeat' split at h
        all_goals simp_all
      rw [hdrop, List.length_drop]
      omega

/-- A call that leaves the socket open has taken a frame off the buffer. -/
theorem length_receiveDecoded_lt {b : Bytes} {s : Session}
    (h : (receiveDecoded s b).1.closed = false) : (receiveDecoded s b).2.length < b.length := by
  rw [receiveDecoded] at h ⊢
  cases hd : decodeFrame s.base64 b s.lFrameType with
  | error message =>
      rw [hd] at h
      cases h
  | lengthError rest => exact length_rest_lt (.inl hd)
  | frame payload ft fin rest => exact length_rest_lt (.inr ⟨payload, ft, fin, hd⟩)

/-- A call of `receive` as a receiver sees it. -/
def next (s : Session) (b : Bytes) : Progress Session UInt8 Event :=
  if isFrameComplete b then
    if (receiveDecoded s b).1.closed then .halt (receiveDecoded s b).1.events
    else .unit (receiveDecoded s b).1.events (receiveDecoded s b).1.session (receiveDecoded s b).2
  else .wait

/-- `receive` takes frames off a stream. -/
def receiver : Framing Session UInt8 Event where
  next := next
  next_append_unit := by
    intro s b es s' rest more h
    simp only [next, isFrameComplete_iff] at h ⊢
    split at h
    · rename_i hb
      rw [frameSize_append more hb, if_pos hb, receiveDecoded_append more s hb]
      split at h
      · cases h
      · obtain ⟨rfl, rfl, rfl⟩ := Progress.unit.inj h
        exact if_neg ‹_›
    · cases h
  next_append_halt := by
    intro s b es more h
    simp only [next, isFrameComplete_iff] at h ⊢
    split at h
    · rename_i hb
      rw [frameSize_append more hb, if_pos hb, receiveDecoded_append more s hb]
      split at h
      · obtain rfl := Progress.halt.inj h
        exact if_pos ‹_›
      · cases h
    · cases h
  length_rest_lt := by
    intro s b es s' rest h
    simp only [next] at h
    split at h
    · split at h
      · cases h
      · obtain ⟨-, -, rfl⟩ := Progress.unit.inj h
        exact length_receiveDecoded_lt (Bool.eq_false_of_not_eq_true ‹_›)
    · cases h

/-- Since the guard never fires, a call decodes a complete frame or waits. -/
theorem receive_eq (ws : State) (chunk : Bytes) :
    receive ws chunk =
      if isFrameComplete (ws.receiveBuffer ++ chunk) then
        receiveDecoded ws.toSession (ws.receiveBuffer ++ chunk)
      else (⟨ws.toSession, [], false, .nothing⟩, ws.receiveBuffer ++ chunk) := by
  rw [receive, oversized_eq_false]
  rfl

/-! ## Whole runs -/

/-- Calls without new input until no complete frame remains. -/
def receiveRest (ws : State) : List Event × Option State :=
  if h : isFrameComplete ws.receiveBuffer then
    let o := receive ws []
    if hc : o.1.closed then (o.1.events, none)
    else
      have : o.2.length < ws.receiveBuffer.length := by
        have ho : o = receiveDecoded ws.toSession ws.receiveBuffer := by
          simp only [o, receive_eq, List.append_nil, h, if_true]
        rw [ho] at hc ⊢
        exact length_receiveDecoded_lt (Bool.eq_false_of_not_eq_true hc)
      (o.1.events ++ (receiveRest ⟨o.1.session, o.2⟩).1, (receiveRest ⟨o.1.session, o.2⟩).2)
  else ([], some ws)
termination_by ws.receiveBuffer.length

/-- The calls for a stream that arrives in `chunks`: one for each chunk, then more until no complete
frame remains. The events are those up to the first close, and there is no state behind it. -/
def receiveAll (ws : State) (chunks : List Bytes) : List Event × Option State :=
  match receiveEach ws chunks with
  | (os, none) => (os.flatMap Outcome.events, none)
  | (os, some ws') => (os.flatMap Outcome.events ++ (receiveRest ws').1, (receiveRest ws').2)

/-- The state of the receiver as the fields of the object. -/
def ofReceiver (r : List Event × Option (Session × Bytes)) : List Event × Option State :=
  (r.1, r.2.map fun p => ⟨p.1, p.2⟩)

/-- The calls without new input drain the buffer. -/
theorem receiveRest_eq_drain (ws : State) :
    receiveRest ws = ofReceiver (receiver.drain ws.toSession ws.receiveBuffer) := by
  have hcall (h : isFrameComplete ws.receiveBuffer) :
      receive ws [] = receiveDecoded ws.toSession ws.receiveBuffer := by
    rw [receive_eq, List.append_nil, if_pos h]
  rw [receiveRest]
  by_cases h : isFrameComplete ws.receiveBuffer = true
  · rw [dif_pos h]
    simp only [hcall h]
    by_cases hc : (receiveDecoded ws.toSession ws.receiveBuffer).1.closed = true
    · have hnext : receiver.next ws.toSession ws.receiveBuffer =
          .halt (receiveDecoded ws.toSession ws.receiveBuffer).1.events :=
        (if_pos h).trans (if_pos hc)
      rw [dif_pos hc, Framing.drain_of_halt hnext]
      rfl
    · have hnext : receiver.next ws.toSession ws.receiveBuffer =
          .unit (receiveDecoded ws.toSession ws.receiveBuffer).1.events
            (receiveDecoded ws.toSession ws.receiveBuffer).1.session
            (receiveDecoded ws.toSession ws.receiveBuffer).2 :=
        (if_pos h).trans (if_neg hc)
      have := length_receiveDecoded_lt (Bool.eq_false_of_not_eq_true hc)
      rw [dif_neg hc, Framing.drain_of_unit hnext, receiveRest_eq_drain]
      rfl
  · have hnext : receiver.next ws.toSession ws.receiveBuffer = .wait := if_neg h
    rw [dif_neg h, Framing.drain_of_wait hnext]
    rfl
termination_by ws.receiveBuffer.length

theorem receiveAll_nil (ws : State) : receiveAll ws [] = receiveRest ws := by
  simp [receiveAll, receiveEach]

/-- A run goes on from what its first call leaves. -/
theorem receiveAll_cons (ws : State) (chunk : Bytes) (chunks : List Bytes) :
    receiveAll ws (chunk :: chunks) =
      if (receive ws chunk).1.closed then ((receive ws chunk).1.events, none)
      else
        ((receive ws chunk).1.events ++
            (receiveAll ⟨(receive ws chunk).1.session, (receive ws chunk).2⟩ chunks).1,
          (receiveAll ⟨(receive ws chunk).1.session, (receive ws chunk).2⟩ chunks).2) := by
  rw [receiveAll, receiveEach]
  split_ifs with hc
  · simp [hc]
  · simp only [hc, Bool.false_eq_true, if_false, receiveAll]
    obtain ⟨os, _ | ws'⟩ := receiveEach ⟨(receive ws chunk).1.session, (receive ws chunk).2⟩ chunks
    · rfl
    · simp

/-- A run of calls is a run of the receiver. -/
theorem receiveAll_eq_feed (ws : State) (chunks : List Bytes) :
    receiveAll ws chunks = ofReceiver (receiver.feed ws.toSession ws.receiveBuffer chunks) := by
  induction chunks generalizing ws with
  | nil => rw [receiveAll_nil, receiveRest_eq_drain, Framing.feed]
  | cons chunk chunks ih =>
      rw [receiveAll_cons, receive_eq, Framing.feed]
      simp only [ih, receiver, next]
      by_cases h : isFrameComplete (ws.receiveBuffer ++ chunk)
      · simp only [h, if_true]
        by_cases hc : (receiveDecoded ws.toSession (ws.receiveBuffer ++ chunk)).1.closed
        · simp only [hc, if_true]
          rfl
        · simp only [hc]
          rfl
      · simp only [h, Bool.false_eq_true, if_false]
        rfl

/-- Two divisions of a stream into chunks give the same run. -/
theorem receiveAll_of_flatten_eq (ws : State) {chunks chunks' : List Bytes}
    (h : chunks.flatten = chunks'.flatten) : receiveAll ws chunks = receiveAll ws chunks' := by
  rw [receiveAll_eq_feed, receiveAll_eq_feed, Framing.feed_congr _ _ h]

/-- The bytes of a stream decide the events of its reception up to the first close, whatever the
chunks; a buffer without a complete frame is bounded, so that the oversize guard never fires; and
the answers of `frameSize` are final. -/
theorem receiveAll_congr :
    (∀ (ws : State) (chunks chunks' : List Bytes), chunks.flatten = chunks'.flatten →
      receiveAll ws chunks = receiveAll ws chunks') ∧
    (∀ b : Bytes, frameSize b = .incomplete → b.length ≤ frameSizeLimit + 14) ∧
    (∀ b : Bytes, oversized b = false) ∧
    (∀ b more : Bytes, frameSize b ≠ .incomplete → frameSize (b ++ more) = frameSize b) := by
  exact ⟨fun ws _ _ h => receiveAll_of_flatten_eq ws h, fun _ h => length_le_of_incomplete h,
    oversized_eq_false, fun _ more h => frameSize_append more h⟩

/-- A text frame cut inside its header, a buffer with half a header, and a header that is refused. -/
theorem receiveAll_congr_hi :
    receiveAll ⟨⟨false, false, [], .continuation⟩, []⟩ [[0x81], [0x82, 0, 0, 0, 0, 104, 105]] =
        receiveAll ⟨⟨false, false, [], .continuation⟩, []⟩ [[0x81, 0x82, 0, 0, 0, 0, 104, 105]] ∧
      ([0x81, 0xfe] : Bytes).length ≤ frameSizeLimit + 14 ∧
      frameSize ([0x09, 0x80] ++ [1]) = frameSize [0x09, 0x80] :=
  ⟨receiveAll_congr.1 _ _ _ (by decide), receiveAll_congr.2.1 [0x81, 0xfe] (by decide),
    receiveAll_congr.2.2.2 [0x09, 0x80] [1] (by decide)⟩

end VplJail.WebSocket
