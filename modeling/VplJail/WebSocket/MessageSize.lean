import VplJail.WebSocket.AfterClose
import VplJail.WebSocket.Fragmentation

/-!
# The size of a message

`receive` tests the size of a message when it keeps a fragment for the next call, but not when the
last fragment comes. So what is kept stays within the limit in every run, and the messages returned
do just when the payloads of their frames do together (`bounded_iff_fits`).
-/

namespace VplJail.WebSocket

/-! ## The calls of a run -/

/-- The object after the constructor, which does not set `lFrameType`. -/
def initial (base64 : Bool) (lFrameType : FrameType) : State :=
  ⟨⟨false, base64, [], lFrameType⟩, []⟩

/-- The object after a call. -/
def State.after (ws : State) (chunk : Bytes) : State :=
  ⟨(receive ws chunk).1.session, (receive ws chunk).2⟩

/-- Every call of a run has the property, of the object before it and what the socket delivers. -/
def EachCall (P : State → Bytes → Prop) : State → List Bytes → Prop
  | _, [] => True
  | ws, chunk :: chunks => P ws chunk ∧ EachCall P (ws.after chunk) chunks

/-! ## The bound -/

/-- The frame that a call takes off the buffer. -/
def takenFrame (ws : State) (chunk : Bytes) : Option DecodedFrame :=
  if isFrameComplete (ws.receiveBuffer ++ chunk) then
    match decodeFrame ws.base64 (ws.receiveBuffer ++ chunk) ws.lFrameType with
    | .frame payload ft fin _ => some ⟨ft, fin, payload⟩
    | _ => none
  else none

/-- A call keeps and returns no more than the limit, and the difference in its test of the size is
that of the numbers. -/
structure Bounded (ws : State) (chunk : Bytes) : Prop where
  kept : (ws.after chunk).previousData.length ≤ frameSizeLimit
  test : ∀ f ∈ takenFrame ws chunk, IsData f.ft → f.fin = false →
    (sizeSub frameSizeLimit f.payload.length : ℤ) = frameSizeLimit - f.payload.length
  message : ∀ data ∈ (receive ws chunk).1.ret.value, data.length ≤ frameSizeLimit

/-! ## The frames of a message -/

instance (ft : FrameType) : Decidable (IsData ft) :=
  inferInstanceAs (Decidable (_ ∨ _))

/-- The frames that the calls take off what the socket delivers, at most one in a call. Besides the
bytes only the type of the last frame counts. -/
def framesTaken (base64 : Bool) : FrameType → Bytes → List Bytes → List DecodedFrame
  | _, _, [] => []
  | ft, buffer, chunk :: chunks =>
      if isFrameComplete (buffer ++ chunk) then
        match decodeFrame base64 (buffer ++ chunk) ft with
        | .error _ => framesTaken base64 .error (buffer ++ chunk) chunks
        | .lengthError rest => framesTaken base64 .binary rest chunks
        | .frame payload ft fin rest => ⟨ft, fin, payload⟩ :: framesTaken base64 ft rest chunks
      else framesTaken base64 ft (buffer ++ chunk) chunks

/-- The messages that frames make up: the type of the last frame, and the payloads. `parts` are those
of the message that has begun. -/
def messages : List Bytes → List DecodedFrame → List (FrameType × List Bytes)
  | _, [] => []
  | parts, f :: fs =>
      if IsData f.ft then
        if f.fin then (f.ft, parts ++ [f.payload]) :: messages [] fs
        -- a fragment that goes beyond the limit is refused
        else if frameSizeLimit < ((parts ++ [f.payload]).map List.length).sum then messages parts fs
        else messages (parts ++ [f.payload]) fs
      else messages parts fs

/-- The payloads of a message have no more bytes than the limit. An invalid text may have more. -/
def Fits (m : FrameType × List Bytes) : Prop :=
  (m.1 = .text → isValidUTF8 m.2.flatten = true) → (m.2.map List.length).sum ≤ frameSizeLimit

/-! ## One call -/

/-- Decoding does not make a payload longer. -/
theorem length_unwrapBase64_le {base64 fin fin' : Bool} {ret payload rest rest' : Bytes}
    {ft ft' : FrameType} (h : unwrapBase64 base64 ret ft fin rest = .frame payload ft' fin' rest') :
    payload.length ≤ ret.length := by
  rw [unwrapBase64] at h
  split at h
  · split at h
    · rename_i hdecode
      obtain ⟨rfl, -⟩ := Decoded.frame.inj h
      exact Base64.length_decode_le hdecode
    · cases h
  · obtain ⟨rfl, -⟩ := Decoded.frame.inj h
    exact le_rfl

/-- A frame that passes the checks of its size has no longer payload than this, decoded or not. -/
theorem length_payload_le {base64 fin : Bool} {data payload rest : Bytes} {ft0 ft : FrameType}
    (h : decodeFrame base64 data ft0 = .frame payload ft fin rest) :
    payload.length ≤ frameSizeLimit := by
  rw [decodeFrame] at h
  cases hsize : frameSize data with
  | incomplete => simp [hsize] at h
  | invalid => simp [hsize] at h
  | size header =>
    obtain ⟨-, -, -, hbad, -, -⟩ := frameSize_eq_size.mp hsize
    have hlimit : header.payloadSize ≤ frameSizeLimit := by
      simp only [badFrame, Bool.or_eq_false_iff, decide_eq_false_iff_not] at hbad
      omega
    have htake (mask bs : Bytes) : (xorMask mask (bs.take header.payloadSize)).length ≤
        frameSizeLimit := by
      rw [length_xorMask]
      exact (List.length_take_le _ _).trans hlimit
    simp only [hsize] at h
    split at h
    · cases h
    split at h
    · cases h
    exact (length_unwrapBase64_le h).trans (htake _ _)

section Call

variable {ws : State} {chunk : Bytes}

/-- The payload of a frame is within the limit, and decoding does not make it longer. -/
theorem length_taken {f : DecodedFrame} (h : takenFrame ws chunk = some f) :
    f.payload.length ≤ frameSizeLimit := by
  rw [takenFrame] at h
  split at h
  swap
  · cases h
  cases hdecoded : decodeFrame ws.base64 (ws.receiveBuffer ++ chunk) ws.lFrameType with
  | error message => simp [hdecoded] at h
  | lengthError rest => simp [hdecoded] at h
  | frame payload ft fin rest =>
    rw [hdecoded] at h
    obtain rfl := Option.some.inj h
    exact length_payload_le hdecoded

/-- A call that takes a frame handles it by its type. -/
theorem receive_of_taken {f : DecodedFrame} (h : takenFrame ws chunk = some f) :
    (receive ws chunk).1 = receiveFrame { ws.toSession with lFrameType := f.ft } f.fin f.payload := by
  rw [takenFrame] at h
  split at h
  swap
  · cases h
  rename_i hcomplete
  rw [receive_eq, if_pos hcomplete, receiveDecoded]
  cases hdecoded : decodeFrame ws.base64 (ws.receiveBuffer ++ chunk) ws.lFrameType with
  | error message => simp [hdecoded] at h
  | lengthError rest => simp [hdecoded] at h
  | frame payload ft fin rest =>
    rw [hdecoded] at h
    obtain rfl := Option.some.inj h
    rfl

/-- Another call keeps what there is and returns nothing. -/
theorem receive_of_not_taken (h : takenFrame ws chunk = none) :
    (receive ws chunk).1.session.previousData = ws.previousData ∧
      ∀ data ∈ (receive ws chunk).1.ret.value, data = [] := by
  rw [receive_eq]
  split
  swap
  · refine ⟨rfl, fun data hdata => ?_⟩
    exact (Option.some.inj hdata).symm
  rename_i hcomplete
  rw [takenFrame, if_pos hcomplete] at h
  rw [receiveDecoded]
  cases hdecoded : decodeFrame ws.base64 (ws.receiveBuffer ++ chunk) ws.lFrameType with
  | error message =>
    refine ⟨previousData_closeAndReturn _ _, fun data hdata => ?_⟩
    exact (Option.some.inj hdata).symm
  | lengthError rest => exact ⟨rfl, fun data hdata => by cases hdata⟩
  | frame payload ft fin rest =>
    rw [hdecoded] at h
    cases h

/-- The object after a call reads on where the frames taken do. -/
theorem framesTaken_cons (ws : State) (chunk : Bytes) (chunks : List Bytes) :
    framesTaken ws.base64 ws.lFrameType ws.receiveBuffer (chunk :: chunks) =
      (takenFrame ws chunk).toList ++ framesTaken (ws.after chunk).base64
        (ws.after chunk).lFrameType (ws.after chunk).receiveBuffer chunks := by
  rw [framesTaken, takenFrame, State.after, receive_eq]
  split
  swap
  · rfl
  rw [receiveDecoded]
  cases hdecoded : decodeFrame ws.base64 (ws.receiveBuffer ++ chunk) ws.lFrameType with
  | lengthError rest => rfl
  | error message =>
    obtain ⟨htype, hbase64⟩ :=
      receiveFrame_session { ws.toSession with lFrameType := .error } false (ascii message)
    dsimp only
    rw [htype, hbase64]
    rfl
  | frame payload ft fin rest =>
    obtain ⟨htype, hbase64⟩ :=
      receiveFrame_session { ws.toSession with lFrameType := ft } fin payload
    dsimp only
    rw [htype, hbase64]
    rfl

end Call

/-! ## One frame -/

section Frame

variable (s : Session) (fin : Bool) (data : Bytes)

/-- A frame that is no data frame keeps what there is and returns nothing. -/
theorem receiveFrame_of_not_data (h : ¬ IsData s.lFrameType) :
    (receiveFrame s fin data).session.previousData = s.previousData ∧
      (receiveFrame s fin data).ret.value = some [] := by
  have hclose (t : Bytes) : (closeAndReturn s t).session.previousData = s.previousData ∧
      (closeAndReturn s t).ret.value = some [] :=
    ⟨previousData_closeAndReturn s t, rfl⟩
  rw [receiveFrame]
  split
  · rename_i htext
    exact absurd (.inl htext) h
  · rename_i hbinary
    exact absurd (.inr hbinary) h
  all_goals first | exact hclose _ | exact ⟨rfl, rfl⟩

theorem receiveFrame_of_data (h : IsData s.lFrameType) :
    receiveFrame s fin data = receiveData s fin data := by
  rw [receiveFrame]
  rcases h with h | h <;> rw [h]

/-- What is kept stays within the limit. -/
theorem length_previousData_receiveData (hprev : s.previousData.length ≤ frameSizeLimit)
    (hdata : data.length ≤ frameSizeLimit) :
    (receiveData s fin data).session.previousData.length ≤ frameSizeLimit := by
  cases fin with
  | true =>
    rw [receiveData_last]
    split <;> exact Nat.zero_le _
  | false =>
    rw [receiveData_fragment s hdata]
    split
    · rw [previousData_closeAndReturn]
      exact hprev
    · rw [List.length_append]
      omega

/-- A fragment that is not the last one returns nothing. -/
theorem value_receiveData_false (hdata : data.length ≤ frameSizeLimit) :
    (receiveData s false data).ret.value = some [] := by
  rw [receiveData_fragment s hdata]
  split <;> rfl

/-- The last one returns the message, unless it is an invalid text. -/
theorem value_receiveData_true :
    (receiveData s true data).ret.value =
      if s.lFrameType = .text ∧ ¬ isValidUTF8 (s.previousData ++ data) = true then some []
      else some (s.previousData ++ data) := by
  rw [receiveData_last]
  split <;> rfl

end Frame

/-! ## Runs -/

/-- What is kept is within the limit. -/
def WithinLimit (ws : State) : Prop :=
  ws.previousData.length ≤ frameSizeLimit

section Step

variable {ws : State}

/-- A call leaves what is kept within the limit. -/
theorem WithinLimit.after (h : WithinLimit ws) (chunk : Bytes) : WithinLimit (ws.after chunk) := by
  change (receive ws chunk).1.session.previousData.length ≤ frameSizeLimit
  cases htaken : takenFrame ws chunk with
  | none =>
    rw [(receive_of_not_taken htaken).1]
    exact h
  | some f =>
    rw [receive_of_taken htaken]
    by_cases hdata : IsData f.ft
    · rw [receiveFrame_of_data _ _ _ hdata]
      exact length_previousData_receiveData _ _ _ h (length_taken htaken)
    · rw [(receiveFrame_of_not_data { ws.toSession with lFrameType := f.ft } _ _ hdata).1]
      exact h

/-- The subtraction in the test does not wrap. -/
theorem sizeSub_taken {chunk : Bytes} :
    ∀ f ∈ takenFrame ws chunk, IsData f.ft → f.fin = false →
      (sizeSub frameSizeLimit f.payload.length : ℤ) = frameSizeLimit - f.payload.length := by
  intro f hf _ _
  have hle := length_taken hf
  rw [sizeSub_limit hle]
  omega

/-- A call is within the bound just when what it returns is. -/
theorem bounded_iff (h : WithinLimit ws) (chunk : Bytes) :
    Bounded ws chunk ↔ ∀ data ∈ (receive ws chunk).1.ret.value, data.length ≤ frameSizeLimit :=
  ⟨Bounded.message, fun hmessage => ⟨h.after chunk, sizeSub_taken, hmessage⟩⟩

end Step

/-- A frame behind the parts of a message: what is returned is within the limit just when the message
that it completes fits, and what is kept are the parts from then on. -/
theorem fits_receiveFrame {s : Session} {parts : List Bytes} (hparts : s.previousData = parts.flatten)
    (fin : Bool) {data : Bytes} (hdata : data.length ≤ frameSizeLimit) :
    ∃ parts', (receiveFrame s fin data).session.previousData = parts'.flatten ∧
      ∀ fs, (∀ m ∈ messages parts (⟨s.lFrameType, fin, data⟩ :: fs), Fits m) ↔
        (∀ returned ∈ (receiveFrame s fin data).ret.value, returned.length ≤ frameSizeLimit) ∧
          ∀ m ∈ messages parts' fs, Fits m := by
  have hnothing : ∀ returned ∈ some ([] : Bytes), returned.length ≤ frameSizeLimit :=
    fun returned h => (Option.some.inj h) ▸ Nat.zero_le _
  by_cases htype : IsData s.lFrameType
  swap
  · obtain ⟨hkept, hvalue⟩ := receiveFrame_of_not_data s fin data htype
    refine ⟨parts, hkept.trans hparts, fun fs => ?_⟩
    rw [messages, if_neg htype, hvalue]
    exact (and_iff_right hnothing).symm
  rw [receiveFrame_of_data s fin data htype]
  have hlength : ((parts ++ [data]).map List.length).sum = s.previousData.length + data.length := by
    rw [← List.length_flatten, List.flatten_append, List.flatten_singleton, List.length_append, hparts]
  cases fin with
  | true =>
    -- the message is complete, and the next one begins
    refine ⟨[], by rw [receiveData_last]; split <;> rfl, fun fs => ?_⟩
    rw [messages, if_pos htype, if_pos rfl, List.forall_mem_cons, value_receiveData_true]
    refine and_congr_left fun _ => ?_
    rw [Fits, hlength, List.flatten_append, List.flatten_singleton, ← hparts]
    split_ifs with hinvalid
    · exact iff_of_true (fun hvalid => absurd (hvalid hinvalid.1) hinvalid.2) hnothing
    · have hvalid : s.lFrameType = .text → isValidUTF8 (s.previousData ++ data) = true :=
        fun htext => not_not.mp fun hnot => hinvalid ⟨htext, hnot⟩
      rw [← List.length_append, forall_prop_of_true hvalid]
      simp only [Option.mem_some_iff, forall_eq']
  | false =>
    have hvalue := value_receiveData_false s data hdata
    rw [hvalue, receiveData_fragment s hdata]
    split_ifs with hlong
    · -- the fragment is refused, and what is kept stays
      refine ⟨parts, (previousData_closeAndReturn _ _).trans hparts, fun fs => ?_⟩
      rw [messages, if_pos htype, if_neg Bool.false_ne_true, if_pos (hlength ▸ hlong)]
      exact (and_iff_right hnothing).symm
    · refine ⟨parts ++ [data], ?_, fun fs => ?_⟩
      · rw [List.flatten_append, List.flatten_singleton, ← hparts]
      · rw [messages, if_pos htype, if_neg Bool.false_ne_true, if_neg (hlength ▸ hlong)]
        exact (and_iff_right hnothing).symm

/-- From any point of a run on, where `parts` is what is kept. -/
theorem eachCall_bounded_iff {ws : State} (parts : List Bytes) (hws : WithinLimit ws)
    (hparts : ws.previousData = parts.flatten) (chunks : List Bytes) :
    EachCall Bounded ws chunks ↔
      ∀ m ∈ messages parts (framesTaken ws.base64 ws.lFrameType ws.receiveBuffer chunks),
        Fits m := by
  induction chunks generalizing ws parts with
  | nil => exact iff_of_true trivial (List.forall_mem_nil _)
  | cons chunk chunks ih =>
    rw [EachCall, bounded_iff hws, framesTaken_cons]
    cases htaken : takenFrame ws chunk with
    | none =>
      obtain ⟨hkept, hvalue⟩ := receive_of_not_taken htaken
      rw [ih parts (hws.after chunk) (hkept.trans hparts)]
      refine and_iff_right fun returned hreturned => ?_
      rw [hvalue returned hreturned]
      exact Nat.zero_le _
    | some f =>
      obtain ⟨parts', hkept, hfits⟩ :=
        fits_receiveFrame (s := { ws.toSession with lFrameType := f.ft }) hparts f.fin
          (length_taken htaken)
      rw [← receive_of_taken htaken] at hkept hfits
      rw [ih parts' (hws.after chunk) hkept]
      exact (hfits _).symm

/-- In a run from the constructor every call is within the bound just when the payloads of every message
that the frames make up fit together in the limit. -/
theorem bounded_iff_fits (base64 : Bool) (lFrameType : FrameType) (chunks : List Bytes) :
    EachCall Bounded (initial base64 lFrameType) chunks ↔
      ∀ m ∈ messages [] (framesTaken base64 lFrameType [] chunks), Fits m :=
  eachCall_bounded_iff [] (Nat.zero_le _) rfl chunks

/-! ## A message that is too large -/

/-- A fragment of the largest size. -/
def largest : ClientFrame :=
  .data .binary false ⟨⟨0, 0, 0, 0⟩, List.replicate frameSizeLimit 0⟩

/-- The end of its message, of one byte. -/
def lastByte : ClientFrame :=
  .data .continuation true ⟨⟨0, 0, 0, 0⟩, [0]⟩

theorem legal_largest : largest.Legal where
  onWire := .inr (.inr (.inl rfl))
  le_limit := (List.length_replicate).le
  control := fun h => absurd h (by decide)
  close := fun h => by cases h

theorem legal_lastByte : lastByte.Legal where
  onWire := .inl rfl
  le_limit := by decide
  control := fun h => absurd h (by decide)
  close := fun h => by cases h

/-- After a fragment of the largest size, the last fragment of one byte makes a message that is too
large. -/
theorem not_bounded :
    ¬ ∀ (base64 : Bool) (lFrameType : FrameType) (chunks : List Bytes),
      EachCall Bounded (initial base64 lFrameType) chunks := by
  intro hall
  let s : Session := ⟨false, false, List.replicate frameSizeLimit 0, .binary⟩
  have hfirst : (initial false .continuation).after largest.bytes = ⟨s, []⟩ := by
    have hkept : receiveData ⟨false, false, [], .binary⟩ false (List.replicate frameSizeLimit 0) =
        ⟨s, [], false, .nothing⟩ :=
      receiveData_more (by rw [List.nil_append, List.length_replicate])
    rw [State.after, initial, receive_bytes rfl legal_largest]
    exact congrArg (fun o => State.mk o.session []) hkept
  have hlast : (receive ⟨s, []⟩ lastByte.bytes).1.ret.value =
      some (List.replicate frameSizeLimit 0 ++ [0]) := by
    rw [receive_bytes rfl legal_lastByte]
    exact congrArg (fun o => Return.value o.ret) (receiveData_fin (s := s) (by intro h; cases h))
  obtain ⟨-, hbounded, -⟩ := hall false .continuation [largest.bytes, lastByte.bytes]
  rw [hfirst] at hbounded
  have hle := hbounded.message _ hlast
  rw [List.length_append, List.length_replicate] at hle
  exact absurd hle (Nat.not_succ_le_self _)

end VplJail.WebSocket
