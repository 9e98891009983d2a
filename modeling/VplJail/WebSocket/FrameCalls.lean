import VplJail.WebSocket.MessageSize

/-!
# Calls for the frames of a client

`receiveWhole` is a call of `receive` for one whole frame of a client, with the base64 subprotocol or
without. With it, a text frame is taken for binary data, and its payload is decoded by itself.
-/

namespace VplJail.WebSocket

namespace ClientFrame

/-- The type that the frame is handled by. -/
def handledType (f : ClientFrame) (s : Session) : FrameType :=
  if s.base64 && f.typeAfter s.lFrameType == .text then .binary else f.typeAfter s.lFrameType

/-- The data of the frame, which may not be base64. -/
def handledData (f : ClientFrame) (s : Session) : Option Bytes :=
  if s.base64 && f.typeAfter s.lFrameType == .text then Base64.decode f.payload else some f.payload

end ClientFrame

/-- The outcome of a call for a whole frame. -/
def receiveWhole (s : Session) (f : ClientFrame) : Outcome :=
  match f.handledData s with
  | some data => receiveFrame { s with lFrameType := f.handledType s } f.fin data
  | none => ⟨{ s with lFrameType := f.handledType s }, [], false, .thrown⟩

section Call

variable {s : Session} {f : ClientFrame}

theorem receiveWhole_of_data {data : Bytes} (h : f.handledData s = some data) :
    receiveWhole s f = receiveFrame { s with lFrameType := f.handledType s } f.fin data := by
  rw [receiveWhole, h]

theorem receiveWhole_of_none (h : f.handledData s = none) :
    receiveWhole s f = ⟨{ s with lFrameType := f.handledType s }, [], false, .thrown⟩ := by
  rw [receiveWhole, h]

/-- Without the subprotocol, or for another type, the payload is the data. -/
theorem receiveWhole_plain (h : s.base64 = false ∨ f.typeAfter s.lFrameType ≠ .text) :
    receiveWhole s f = receiveClientFrame s f := by
  have hplain : (s.base64 && f.typeAfter s.lFrameType == .text) = false := by
    rcases h with h | h
    · rw [h, Bool.false_and]
    · rw [beq_false_of_ne h, Bool.and_false]
  rw [receiveWhole, ClientFrame.handledData, ClientFrame.handledType, hplain]
  rfl

/-- A frame that arrives alone is taken off the buffer. -/
theorem receive_whole (hf : f.Legal) : receive ⟨s, []⟩ f.bytes = (receiveWhole s f, []) := by
  have hsize := frameSize_maskedFrame f.mask [] hf
  have hdecode := decodeFrame_maskedFrame f.mask [] s.base64 hf s.lFrameType
  rw [List.append_nil] at hsize hdecode
  have hcomplete : isFrameComplete f.bytes = true := by
    rw [isFrameComplete_iff, ClientFrame.bytes, hsize]
    exact FrameSize.noConfusion
  rw [receive_eq]
  dsimp only
  rw [List.nil_append, if_pos hcomplete, receiveDecoded, ClientFrame.bytes, hdecode]
  rw [receiveWhole, ClientFrame.handledData, ClientFrame.handledType]
  -- `decodeFrame` decodes the payload behind the switch of the type
  have htype : (if f.ft = .continuation then s.lFrameType else f.ft) =
      f.typeAfter s.lFrameType := rfl
  rw [htype, unwrapBase64]
  by_cases htext : (s.base64 && f.typeAfter s.lFrameType == .text) = true
  · rw [if_pos htext, if_pos htext, if_pos htext]
    cases Base64.decode f.payload <;> rfl
  · rw [if_neg htext, if_neg htext, if_neg htext]

/-- The data of a legal frame is within the limit. -/
theorem length_handledData (hf : f.Legal) {data : Bytes} (h : f.handledData s = some data) :
    data.length ≤ frameSizeLimit := by
  rw [ClientFrame.handledData] at h
  split at h
  · exact (Base64.length_decode_le h).trans hf.le_limit
  · rw [← Option.some.inj h]
    exact hf.le_limit

/-- A call that leaves the socket open has sent no close frame. -/
theorem session_receiveWhole (h : (receiveWhole s f).closed = false) :
    (receiveWhole s f).session.closeSent = s.closeSent ∧
      (receiveWhole s f).session.base64 = s.base64 := by
  cases hdata : f.handledData s with
  | none =>
    rw [receiveWhole_of_none hdata]
    exact ⟨rfl, rfl⟩
  | some data =>
    rw [receiveWhole_of_data hdata] at h ⊢
    generalize hs' : ({ s with lFrameType := f.handledType s } : Session) = s' at h ⊢
    have hsession : s'.closeSent = s.closeSent ∧ s'.base64 = s.base64 := by
      rw [← hs']
      exact ⟨rfl, rfl⟩
    rw [base64_receiveFrame, hsession.2]
    refine ⟨?_, rfl⟩
    rw [← hsession.1]
    have hclose (t : Bytes) (h : (closeAndReturn s' t).closed = false) :
        (closeAndReturn s' t).session.closeSent = s'.closeSent := by
      cases h
    have hreceive (h : (receiveData s' f.fin data).closed = false) :
        (receiveData s' f.fin data).session.closeSent = s'.closeSent := by
      cases hfin : f.fin with
      | true =>
        rw [hfin, receiveData_last] at h
        rw [receiveData_last]
        split at h
        · cases h
        · rename_i hvalid
          rw [if_neg hvalid]
      | false =>
        rw [hfin, receiveData, if_neg Bool.false_ne_true] at h
        rw [receiveData, if_neg Bool.false_ne_true]
        split at h
        · cases h
        · rename_i hsize
          rw [if_neg hsize]
    unfold receiveFrame at h ⊢
    split at h <;> first | exact hreceive h | exact hclose _ h | rfl

end Call

/-- The calls for whole frames from the object of the constructor: while the socket is open, no close
frame has been sent and no byte is left over. -/
theorem receiveEach_whole {fs : List ClientFrame} (hfs : ∀ f ∈ fs, f.Legal) {s : Session}
    {ws : State} (h : (receiveEach ⟨s, []⟩ (fs.map ClientFrame.bytes)).2 = some ws) :
    ws.receiveBuffer = [] ∧ ws.closeSent = s.closeSent ∧ ws.base64 = s.base64 := by
  induction fs generalizing s with
  | nil =>
    rw [← Option.some.inj h]
    exact ⟨rfl, rfl, rfl⟩
  | cons f fs ih =>
    rw [List.map_cons, receiveEach, receive_whole (hfs f List.mem_cons_self)] at h
    dsimp only at h
    split at h
    · cases h
    · rename_i hopen
      obtain ⟨hsent, hbase64⟩ := session_receiveWhole (Bool.eq_false_of_not_eq_true hopen)
      rw [← hsent, ← hbase64]
      exact ih (fun g hg => hfs g (List.mem_cons_of_mem _ hg)) h

end VplJail.WebSocket
