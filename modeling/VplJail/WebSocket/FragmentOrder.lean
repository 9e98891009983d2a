import VplJail.WebSocket.Connection
import VplJail.WebSocket.FrameCalls

/-!
# Fragments out of place

`receive` does not keep whether a message is in progress. A continuation frame takes the type that is
in `lFrameType`, and a text or binary frame is put behind the fragments kept. So a frame that is out
of place is refused only when another check refuses it (`refused_iff_refusedOtherwise`).
-/

namespace VplJail.WebSocket

/-! ## The order of fragments -/

/-- Whether a fragmented message is in progress behind a frame. -/
def inProgressAfter (inProgress : Bool) (f : ClientFrame) : Bool :=
  if f.ft = .text ∨ f.ft = .binary then !f.fin
  else if f.ft = .continuation then inProgress && !f.fin
  else inProgress

/-- Whether a fragmented message is in progress behind the frames of a connection. -/
def inProgress (history : List ClientFrame) : Bool :=
  history.foldl inProgressAfter false

/-- A continuation of no message, or a new message in another one. -/
def OutOfPlace (inProgress : Bool) (f : ClientFrame) : Prop :=
  if inProgress then IsData f.ft else f.ft = .continuation

/-! ## What it is to refuse a frame -/

/-- The status code of a close frame, whose header has two bytes. -/
def closeStatus (frame : Bytes) : ℕ :=
  byteAt frame 2 * 256 + byteAt frame 3

/-- A close frame with the status code of an error. -/
def IsErrorClose (frame : Bytes) : Prop :=
  IsClose frame ∧ 1002 ≤ closeStatus frame

instance : DecidablePred IsErrorClose := fun frame =>
  inferInstanceAs (Decidable (IsClose frame ∧ 1002 ≤ closeStatus frame))

/-- The call sends a close frame of an error, closes the socket and returns no data. -/
def Refused (o : Outcome) : Prop :=
  (∃ frame, o.sent = [frame] ∧ IsErrorClose frame) ∧ o.closed = true ∧ o.ret.value = some []

/-- What the code looks at: the type is one that it does not know, the text that ends with the frame
is invalid, or the fragment makes the message too large. -/
def RefusedOtherwise (s : Session) (f : ClientFrame) : Prop :=
  ∃ data ∈ f.handledData s,
    ¬ (f.handledType s).Known ∨
      (f.handledType s = .text ∧ f.fin = true ∧
        isValidUTF8 (s.previousData ++ data) = false) ∨
      (IsData (f.handledType s) ∧ f.fin = false ∧
        frameSizeLimit < s.previousData.length + data.length)

/-! ## One call -/

section Call

variable {s : Session}

theorem not_refused_of_open {o : Outcome} (h : o.closed = false) : ¬ Refused o := by
  rintro ⟨-, hclosed, -⟩
  rw [h] at hclosed
  cases hclosed

/-- The close frame of an error is sent when none has been sent before. -/
theorem refused_closeAndReturn (hs : s.closeSent = false) :
    Refused (closeAndReturn s (ascii "Error")) := by
  refine ⟨⟨encodeFrame s.base64 (closePayload (ascii "Error")) .connectionClose, ?_, ?_⟩, rfl, rfl⟩
  · rw [closeAndReturn, close, hs]
    rfl
  · cases s.base64 <;> decide

/-- The answer to a close frame is not one of an error. -/
theorem not_refused_bye : ¬ Refused (closeAndReturn s (ascii "Bye")) := by
  rintro ⟨⟨frame, hsent, herror⟩, -, -⟩
  rw [closeAndReturn, close] at hsent
  split at hsent
  · cases hsent
  · obtain ⟨rfl, -⟩ := List.cons.inj hsent
    revert herror
    cases s.base64 <;> decide

/-- The last fragment is refused when the text is invalid. -/
theorem refused_last (hs : s.closeSent = false) (data : Bytes) :
    Refused (receiveData s true data) ↔
      s.lFrameType = .text ∧ isValidUTF8 (s.previousData ++ data) = false := by
  rw [receiveData_last, ← Bool.not_eq_true]
  split
  · rename_i hinvalid
    have hframe : IsErrorClose (encodeFrame s.base64
        (statusBytes 1007 ++ ascii "Invalid UTF-8 data") .connectionClose) := by
      cases s.base64 <;> decide +kernel
    refine iff_of_true ⟨⟨_, ?_, hframe⟩, rfl, rfl⟩ hinvalid
    rw [hs]
    rfl
  · rename_i hvalid
    exact iff_of_false (not_refused_of_open rfl) hvalid

/-- Another fragment is refused when the message becomes too large. -/
theorem refused_fragment (hs : s.closeSent = false) {data : Bytes}
    (hdata : data.length ≤ frameSizeLimit) :
    Refused (receiveData s false data) ↔ frameSizeLimit < s.previousData.length + data.length := by
  rw [receiveData_fragment s hdata]
  split
  · rename_i hlarge
    exact iff_of_true (refused_closeAndReturn hs) hlarge
  · rename_i hsmall
    exact iff_of_false (not_refused_of_open rfl) hsmall

/-- What is refused of the data of a frame. -/
theorem refused_receiveFrame (hs : s.closeSent = false) (fin : Bool) {data : Bytes}
    (hdata : data.length ≤ frameSizeLimit) :
    Refused (receiveFrame s fin data) ↔
      ¬ s.lFrameType.Known ∨
        (s.lFrameType = .text ∧ fin = true ∧ isValidUTF8 (s.previousData ++ data) = false) ∨
        (IsData s.lFrameType ∧ fin = false ∧
          frameSizeLimit < s.previousData.length + data.length) := by
  have hofData (h : IsData s.lFrameType) : Refused (receiveFrame s fin data) ↔
      (s.lFrameType = .text ∧ fin = true ∧ isValidUTF8 (s.previousData ++ data) = false) ∨
        (fin = false ∧ frameSizeLimit < s.previousData.length + data.length) := by
    rw [receiveFrame_of_data s fin data h]
    cases fin with
    | true =>
      rw [refused_last hs]
      simp
    | false =>
      rw [refused_fragment hs hdata]
      simp
  by_cases h : IsData s.lFrameType
  · have hknown : s.lFrameType.Known := by
      rcases h with h | h <;> rw [h] <;> decide
    rw [hofData h]
    simp only [hknown, not_true_eq_false, false_or, h, true_and]
  · have htext : ¬ s.lFrameType = .text := fun htext => h (.inl htext)
    simp only [htext, h, false_and, or_false]
    -- the other types do not depend on the data
    rw [receiveFrame]
    cases hft : s.lFrameType with
    | text => exact absurd (.inl hft) h
    | binary => exact absurd (.inr hft) h
    | connectionClose => exact iff_of_false not_refused_bye (by decide)
    | ping | pong => exact iff_of_false (not_refused_of_open rfl) (by decide)
    | continuation | error => exact iff_of_true (refused_closeAndReturn hs) (by decide)
    | unnamed code =>
      refine iff_of_true (refused_closeAndReturn hs) ?_
      simp [FrameType.Known]

/-- A whole frame is refused just when a check of the code refuses it. -/
theorem refused_receiveWhole (hs : s.closeSent = false) {f : ClientFrame} (hf : f.Legal) :
    Refused (receiveWhole s f) ↔ RefusedOtherwise s f := by
  rw [RefusedOtherwise]
  cases hdata : f.handledData s with
  | none =>
    rw [receiveWhole_of_none hdata]
    exact iff_of_false (not_refused_of_open rfl) (by simp)
  | some data =>
    rw [receiveWhole_of_data hdata,
      refused_receiveFrame (s := { s with lFrameType := f.handledType s }) hs f.fin
        (length_handledData hf hdata)]
    simp only [Option.mem_some_iff, exists_eq_left']

end Call

/-! ## Frames out of place -/

/-- In every connection, a frame that is out of place is refused just when another check refuses
it. -/
theorem refused_iff_refusedOtherwise (base64 : Bool) (lFrameType : FrameType)
    (history : List ClientFrame) (f : ClientFrame) (ws : State)
    (hlegal : ∀ g ∈ f :: history, g.Legal)
    (hrun : (receiveEach (initial base64 lFrameType) (history.map ClientFrame.bytes)).2 = some ws) :
    (OutOfPlace (inProgress history) f → Refused (receive ws f.bytes).1) ↔
      (OutOfPlace (inProgress history) f → RefusedOtherwise ws.toSession f) := by
  obtain ⟨hf, hhistory⟩ := List.forall_mem_cons.mp hlegal
  obtain ⟨hbuffer, hclose, -⟩ := receiveEach_whole hhistory hrun
  obtain ⟨s, buffer⟩ := ws
  obtain rfl : buffer = [] := hbuffer
  rw [receive_whole hf, refused_receiveWhole hclose hf]

/-- A text in one frame. -/
def wholeText : ClientFrame :=
  .data .text true ⟨⟨1, 2, 3, 4⟩, ascii "a"⟩

/-- A continuation that ends a message. -/
def lastPart : ClientFrame :=
  .data .continuation true ⟨⟨5, 6, 7, 8⟩, ascii "b"⟩

theorem legal_wholeText : wholeText.Legal where
  onWire := .inr (.inl rfl)
  le_limit := by decide
  control := fun h => absurd h (by decide)
  close := fun h => by cases h

theorem legal_lastPart : lastPart.Legal where
  onWire := .inl rfl
  le_limit := by decide
  control := fun h => absurd h (by decide)
  close := fun h => by cases h

/-- A continuation behind a text, for which `lFrameType` is the type of the text. -/
theorem refused_iff_refusedOtherwise_lastPart :
    (OutOfPlace (inProgress [wholeText]) lastPart →
        Refused (receive ⟨⟨false, false, [], .text⟩, []⟩ lastPart.bytes).1) ↔
      (OutOfPlace (inProgress [wholeText]) lastPart →
        RefusedOtherwise ⟨false, false, [], .text⟩ lastPart) :=
  refused_iff_refusedOtherwise false .ping [wholeText] lastPart _
    (List.forall_mem_cons.mpr ⟨legal_lastPart,
      List.forall_mem_cons.mpr ⟨legal_wholeText, fun _ h => by cases h⟩⟩)
    (by decide +kernel)

/-- A continuation behind a text that is complete is returned as another text. -/
theorem not_refused_lastPart :
    ¬ ∀ (base64 : Bool) (lFrameType : FrameType) (history : List ClientFrame) (f : ClientFrame)
      (ws : State), (∀ g ∈ f :: history, g.Legal) →
        (receiveEach (initial base64 lFrameType) (history.map ClientFrame.bytes)).2 = some ws →
          OutOfPlace (inProgress history) f → Refused (receive ws f.bytes).1 := by
  intro hall
  have hrefused := hall false .ping [wholeText] lastPart ⟨⟨false, false, [], .text⟩, []⟩
    (List.forall_mem_cons.mpr ⟨legal_lastPart,
      List.forall_mem_cons.mpr ⟨legal_wholeText, fun _ h => by cases h⟩⟩)
    (by decide +kernel) rfl
  exact absurd hrefused.2.1 (by decide +kernel)

end VplJail.WebSocket
