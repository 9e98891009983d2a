import VplJail.WebSocket.Delivery

/-!
# Fragmented messages

A client sends a message in fragments and may put control frames between them. `frames` is such a
stream, and `Transparent` says that the receiver hands out the message once and answers the pings.
A control frame overwrites `lFrameType`, which a continuation frame then keeps, so `Transparent`
holds exactly for the streams of `Undisturbed`.
-/

namespace VplJail.WebSocket

/-! ## Streams of a client -/

/-- A ping or a pong of a client. -/
structure ControlFrame where
  ping : Bool
  mask : Mask
  payload : Bytes
  length_le : payload.length ≤ 125

/-- The frame type of a control frame. -/
def ControlFrame.ft (c : ControlFrame) : FrameType :=
  if c.ping then .ping else .pong

/-- A part of a message with the mask that it is sent under. -/
structure Fragment where
  mask : Mask
  payload : Bytes

/-- A frame of a client. -/
inductive ClientFrame
  | control (c : ControlFrame)
  | data (ft : FrameType) (fin : Bool) (fragment : Fragment)

namespace ClientFrame

/-- The opcode of the frame. -/
def ft : ClientFrame → FrameType
  | control c => c.ft
  | data ft _ _ => ft

/-- The FIN bit: control frames are not fragmented. -/
def fin : ClientFrame → Bool
  | control _ => true
  | data _ fin _ => fin

/-- The payload before masking. -/
def payload : ClientFrame → Bytes
  | control c => c.payload
  | data _ _ fragment => fragment.payload

/-- The mask of the frame. -/
def mask : ClientFrame → Mask
  | control c => c.mask
  | data _ _ fragment => fragment.mask

/-- The frame on the wire. -/
def bytes (f : ClientFrame) : Bytes :=
  maskedFrame (firstByte f.fin f.ft) f.mask f.payload

/-- The frames allowed by RFC 6455. -/
def Legal (f : ClientFrame) : Prop :=
  WebSocket.Legal f.fin f.ft f.payload.length

end ClientFrame

/-- The fragments of a message behind the first one, each with the control frames before it. -/
abbrev Fragments := List (List ControlFrame × Fragment)

/-- The payload of the fragments. -/
def Fragments.payload (rest : Fragments) : Bytes :=
  rest.flatMap fun x => x.2.payload

/-- The frames of the fragments behind the first one: continuations, the last one with FIN. -/
def continuations : Fragments → List ClientFrame
  | [] => []
  | (controls, fragment) :: rest =>
      controls.map .control ++ .data .continuation rest.isEmpty fragment :: continuations rest

/-- The frames of a message of type `ft`. -/
def frames (ft : FrameType) (first : Fragment) (rest : Fragments) : List ClientFrame :=
  .data ft rest.isEmpty first :: continuations rest

/-- The message that is divided into the fragments. -/
def message (first : Fragment) (rest : Fragments) : Bytes :=
  first.payload ++ rest.payload

/-! ## What the receiver should do -/

/-- What a caller and the socket see of a call: the frames sent and the string returned. -/
abbrev Answer := List Bytes × Option Bytes

/-- The answer of a call. -/
def Outcome.answer (o : Outcome) : Answer :=
  (o.sent, o.ret.value)

/-- The answer to a frame of the message `m`: a pong for a ping, the message for the last fragment,
and the empty string without a frame otherwise. -/
def answerTo (m : Bytes) : ClientFrame → Answer
  | .control c => (if c.ping then [encodeFrame false c.payload .pong] else [], some [])
  | .data _ fin _ => ([], some (if fin then m else []))

/-- The frames sent in a run. -/
def sentFrames (es : List Event) : List Bytes :=
  es.filterMap fun
    | .sent frame => some frame
    | _ => none

/-- The strings returned in a run, but the empty ones. -/
def returned (es : List Event) : List Bytes :=
  es.filterMap fun
    | .message _ (b :: data) => some (b :: data)
    | _ => none

/-- Called for each of the frames, `receive` gives the answers to the message `m` and leaves no
previous data; and however the stream is delivered, it sends the pongs only, returns the message
once and never throws or closes. -/
def Transparent (ws : State) (m : Bytes) (fs : List ClientFrame) : Prop :=
  ((receiveEach ws (fs.map ClientFrame.bytes)).1.map Outcome.answer = fs.map (answerTo m) ∧
    (receiveEach ws (fs.map ClientFrame.bytes)).2.map (fun ws' => ws'.previousData) = some []) ∧
  ∀ chunks, chunks.flatten = (fs.map ClientFrame.bytes).flatten →
    sentFrames (receiveAll ws chunks).1 = fs.flatMap (fun f => (answerTo m f).1) ∧
    returned (receiveAll ws chunks).1 = (if m = [] then [] else [m]) ∧
    .thrown ∉ (receiveAll ws chunks).1 ∧
    (receiveAll ws chunks).2.map (fun ws' => ws'.previousData) = some []

/-- The streams that the receiver reassembles: no control frame stands between the fragments, or
the message is empty and the last control frame before each fragment is no ping. -/
def Undisturbed (m : Bytes) (rest : Fragments) : Prop :=
  (∀ x ∈ rest, x.1 = []) ∨ (m = [] ∧ ∀ x ∈ rest, ∀ c ∈ x.1.getLast?, c.ping = false)

/-! ## Calls for whole frames -/

/-- The type that `decodeFrame` leaves in `lFrameType`. -/
def ClientFrame.typeAfter (f : ClientFrame) (ft0 : FrameType) : FrameType :=
  if f.ft = .continuation then ft0 else f.ft

/-- The outcome of a call for a whole frame. -/
def receiveClientFrame (s : Session) (f : ClientFrame) : Outcome :=
  receiveFrame { s with lFrameType := f.typeAfter s.lFrameType } f.fin f.payload

/-- The calls for whole frames. -/
def receiveFrames (s : Session) : List ClientFrame → List Outcome × Option Session
  | [] => ([], some s)
  | f :: fs =>
      if (receiveClientFrame s f).closed then ([receiveClientFrame s f], none)
      else
        (receiveClientFrame s f :: (receiveFrames (receiveClientFrame s f).session fs).1,
          (receiveFrames (receiveClientFrame s f).session fs).2)

/-- A call does not change the subprotocol. -/
theorem base64_receiveFrame (s : Session) (fin : Bool) (data : Bytes) :
    (receiveFrame s fin data).session.base64 = s.base64 := by
  have hclose (t : Bytes) : (closeAndReturn s t).session.base64 = s.base64 := by
    rw [closeAndReturn, close]
    split <;> rfl
  have hdata : (receiveData s fin data).session.base64 = s.base64 := by
    simp only [receiveData]
    repeat' split
    all_goals first | exact hclose _ | rfl
  unfold receiveFrame
  split <;> first | exact hdata | exact hclose _ | rfl

theorem base64_receiveClientFrame (s : Session) (f : ClientFrame) :
    (receiveClientFrame s f).session.base64 = s.base64 :=
  base64_receiveFrame _ _ _

section Calls

variable {s : Session}

/-- A call for a whole frame decodes it and leaves an empty buffer. -/
theorem receive_bytes (hs : s.base64 = false) {f : ClientFrame} (hf : f.Legal) :
    receive ⟨s, []⟩ f.bytes = (receiveClientFrame s f, []) := by
  obtain ⟨closeSent, base64, previousData, lFrameType⟩ := s
  obtain rfl : base64 = false := hs
  have hsize := frameSize_maskedFrame f.mask [] hf
  have hdecode := decodeFrame_maskedFrame f.mask [] false hf lFrameType
  rw [List.append_nil] at hsize hdecode
  have hcomplete : isFrameComplete f.bytes = true := by
    rw [isFrameComplete_iff, ClientFrame.bytes, hsize]
    exact FrameSize.noConfusion
  rw [receive_eq]
  simp only [List.nil_append, hcomplete, if_true]
  rw [receiveDecoded, ClientFrame.bytes, hdecode]
  rfl

/-- The calls for a stream of whole frames. -/
theorem receiveEach_bytes (hs : s.base64 = false) {fs : List ClientFrame}
    (hfs : ∀ f ∈ fs, f.Legal) :
    receiveEach ⟨s, []⟩ (fs.map ClientFrame.bytes) =
      ((receiveFrames s fs).1, (receiveFrames s fs).2.map fun s' => ⟨s', []⟩) := by
  induction fs generalizing s with
  | nil => rfl
  | cons f fs ih =>
      rw [List.map_cons, receiveEach, receive_bytes hs (hfs f List.mem_cons_self), receiveFrames]
      have hs' : (receiveClientFrame s f).session.base64 = false :=
        (base64_receiveClientFrame s f).trans hs
      dsimp only
      rw [ih hs' fun f hf => hfs f (List.mem_cons_of_mem _ hf)]
      split <;> rfl

/-- The last fragment completes the message. -/
theorem receiveData_fin {data : Bytes}
    (h : s.lFrameType = .text → isValidUTF8 (s.previousData ++ data) = true) :
    receiveData s true data =
      ⟨{ s with previousData := [] }, [], false, .message s.lFrameType (s.previousData ++ data)⟩ := by
  rw [receiveData_last]
  exact if_neg fun hc => hc.2 (h hc.1)

/-- Another fragment is kept for the last one. -/
theorem receiveData_more {data : Bytes} (h : (s.previousData ++ data).length ≤ frameSizeLimit) :
    receiveData s false data =
      ⟨{ s with previousData := s.previousData ++ data }, [], false, .nothing⟩ := by
  rw [List.length_append] at h
  rw [receiveData_fragment s (by omega), if_neg (Nat.not_lt_of_le h)]

/-- The types that a control frame leaves in `lFrameType`. -/
def IsPingPong (ft : FrameType) : Prop :=
  ft = .ping ∨ ft = .pong

/-- A fragment that is taken for a control frame returns nothing and keeps nothing. -/
theorem receiveClientFrame_of_pingPong (h : IsPingPong s.lFrameType) (fin : Bool)
    (fragment : Fragment) :
    receiveClientFrame s (.data .continuation fin fragment) =
      ⟨s, if s.lFrameType = .ping then [encodeFrame s.base64 fragment.payload .pong] else [], false,
        .nothing⟩ := by
  obtain ⟨closeSent, base64, previousData, lFrameType⟩ := s
  obtain rfl | rfl : lFrameType = .ping ∨ lFrameType = .pong := h
  · rfl
  · rfl

/-- A control frame is answered, and its type stays in `lFrameType`. -/
theorem receiveClientFrame_control (c : ControlFrame) :
    receiveClientFrame s (.control c) =
      ⟨{ s with lFrameType := c.ft }, if c.ping then [encodeFrame s.base64 c.payload .pong] else [],
        false, .nothing⟩ := by
  obtain ⟨ping, mask, payload, -⟩ := c
  cases ping <;> rfl

/-- The type in `lFrameType` after the control frames `controls`. -/
def typeAfterControls (ft : FrameType) (controls : List ControlFrame) : FrameType :=
  match controls.getLast? with
  | none => ft
  | some c => c.ft

/-- Control frames are answered as they should be; all that they change is `lFrameType`. -/
theorem receiveFrames_controls (hs : s.base64 = false) (m : Bytes) (controls : List ControlFrame)
    (fs : List ClientFrame) :
    ∃ os, os.map Outcome.answer = controls.map (fun c => answerTo m (.control c)) ∧
      receiveFrames s (controls.map .control ++ fs) =
        (os ++ (receiveFrames { s with lFrameType := typeAfterControls s.lFrameType controls } fs).1,
          (receiveFrames { s with lFrameType := typeAfterControls s.lFrameType controls } fs).2) := by
  induction controls generalizing s with
  | nil => exact ⟨[], rfl, rfl⟩
  | cons c controls ih =>
      obtain ⟨os, hos, hrun⟩ := ih (s := { s with lFrameType := c.ft }) hs
      have htype : typeAfterControls c.ft controls =
          typeAfterControls s.lFrameType (c :: controls) := by
        simp only [typeAfterControls, List.getLast?_cons]
        cases controls.getLast? <;> rfl
      refine ⟨receiveClientFrame s (.control c) :: os, ?_, ?_⟩
      · rw [List.map_cons, List.map_cons, hos, receiveClientFrame_control, hs]
        rfl
      · rw [List.map_cons, List.cons_append, receiveFrames, receiveClientFrame_control]
        simp only [Bool.false_eq_true, if_false, hrun, htype, List.cons_append]

end Calls

/-! ## Streams that are reassembled -/

section Runs

variable {s : Session} {m : Bytes}

/-- The calls for `fs` give the answers to the message `m` and leave no previous data. -/
def Answered (s : Session) (m : Bytes) (fs : List ClientFrame) : Prop :=
  (receiveFrames s fs).1.map Outcome.answer = fs.map (answerTo m) ∧
    (receiveFrames s fs).2.map (fun s' => s'.previousData) = some []

/-- A call with the right answer goes before the others. -/
theorem answered_cons {f : ClientFrame} {fs : List ClientFrame}
    (hc : (receiveClientFrame s f).closed = false) :
    Answered s m (f :: fs) ↔
      (receiveClientFrame s f).answer = answerTo m f ∧
        Answered (receiveClientFrame s f).session m fs := by
  rw [Answered, Answered, receiveFrames, hc, if_neg (by simp), List.map_cons, List.map_cons,
    List.cons.injEq, and_assoc]

/-- Control frames before the others are answered right. -/
theorem answered_controls (hs : s.base64 = false) (controls : List ControlFrame)
    (fs : List ClientFrame) :
    Answered s m (controls.map .control ++ fs) ↔
      Answered { s with lFrameType := typeAfterControls s.lFrameType controls } m fs := by
  obtain ⟨os, hos, hrun⟩ := receiveFrames_controls hs m controls fs
  rw [Answered, Answered, hrun, List.map_append, List.map_append, hos, List.map_map]
  simp only [Function.comp_def, List.append_cancel_left_eq]

/-- A message type. -/
def IsData (ft : FrameType) : Prop :=
  ft = .text ∨ ft = .binary

/-- A data frame whose type is known goes to the reassembly. -/
theorem receiveClientFrame_data (h : IsData s.lFrameType) (fin : Bool) (fragment : Fragment) :
    receiveClientFrame s (.data .continuation fin fragment) =
      receiveData s fin fragment.payload := by
  obtain ⟨closeSent, base64, previousData, lFrameType⟩ := s
  obtain rfl | rfl : lFrameType = .text ∨ lFrameType = .binary := h
  · rfl
  · rfl

/-- Without control frames between them, the fragments are put together. -/
theorem answered_continuations {rest : Fragments} (hrest : rest ≠ []) (ht : IsData s.lFrameType)
    (hs : s.base64 = false) (hempty : ∀ x ∈ rest, x.1 = [])
    (hm : s.previousData ++ rest.payload = m) (hlen : m.length ≤ frameSizeLimit)
    (hv : s.lFrameType = .text → isValidUTF8 m = true) : Answered s m (continuations rest) := by
  induction rest generalizing s with
  | nil => exact absurd rfl hrest
  | cons x rest ih =>
      obtain ⟨controls, fragment⟩ := x
      obtain rfl : controls = [] := hempty (controls, fragment) List.mem_cons_self
      have hm' : s.previousData ++ fragment.payload ++ Fragments.payload rest = m := by
        simpa [Fragments.payload] using hm
      have hstep := receiveClientFrame_data ht rest.isEmpty fragment
      rw [continuations, answered_controls hs]
      cases rest with
      | nil =>
          -- the last fragment
          have hm'' : s.previousData ++ fragment.payload = m := by
            simpa [Fragments.payload] using hm'
          rw [List.isEmpty_nil, receiveData_fin (by rw [hm'']; exact hv), hm''] at hstep
          refine (answered_cons ?_).mpr ⟨?_, ?_⟩
          · exact congrArg Outcome.closed hstep
          · exact congrArg Outcome.answer hstep
          · change Answered (receiveClientFrame s _).session m []
            rw [List.isEmpty_nil, hstep]
            exact ⟨rfl, rfl⟩
      | cons y rest =>
          have hpart : (s.previousData ++ fragment.payload).length ≤ frameSizeLimit := by
            rw [← hm', List.length_append] at hlen
            omega
          rw [List.isEmpty_cons, receiveData_more hpart] at hstep
          refine (answered_cons ?_).mpr ⟨?_, ?_⟩
          · exact congrArg Outcome.closed hstep
          · exact congrArg Outcome.answer hstep
          · change Answered (receiveClientFrame s _).session m _
            rw [List.isEmpty_cons, hstep]
            exact ih (by simp) ht hs (fun z hz => hempty z (List.mem_cons_of_mem _ hz)) hm' hv

/-- The type behind control frames that do not end with a ping. -/
theorem typeAfterControls_of_pong {ft : FrameType} {controls : List ControlFrame}
    (ht : IsData ft ∨ ft = .pong) (h : ∀ c ∈ controls.getLast?, c.ping = false) :
    IsData (typeAfterControls ft controls) ∨ typeAfterControls ft controls = .pong := by
  rw [typeAfterControls]
  cases hl : controls.getLast? with
  | none => exact ht
  | some c =>
      refine .inr ?_
      simp only [ControlFrame.ft, h c hl]
      rfl

/-- An empty fragment that is not taken for a ping is answered with nothing and leaves no trace. -/
theorem receiveClientFrame_empty (ht : IsData s.lFrameType ∨ s.lFrameType = .pong)
    (hprev : s.previousData = []) (fin : Bool) {fragment : Fragment} (hp : fragment.payload = []) :
    ∃ ret, receiveClientFrame s (.data .continuation fin fragment) = ⟨s, [], false, ret⟩ ∧
      ret.value = some [] := by
  have hs : { s with previousData := [] } = s := by rw [← hprev]
  obtain ht | ht := ht
  · rw [receiveClientFrame_data ht, hp]
    cases fin with
    | false =>
        rw [receiveData_more (by simp [hprev]), hprev, List.append_nil, hs]
        exact ⟨_, rfl, rfl⟩
    | true =>
        rw [receiveData_fin (by rw [hprev]; exact fun _ => rfl), hprev, List.append_nil, hs]
        exact ⟨_, rfl, rfl⟩
  · rw [receiveClientFrame_of_pingPong (.inr ht), ht]
    exact ⟨_, rfl, rfl⟩

/-- An empty message is put together as long as no fragment is taken for a ping. -/
theorem answered_empty {rest : Fragments} (ht : IsData s.lFrameType ∨ s.lFrameType = .pong)
    (hs : s.base64 = false) (hprev : s.previousData = []) (hm : rest.payload = [])
    (hpong : ∀ x ∈ rest, ∀ c ∈ x.1.getLast?, c.ping = false) :
    Answered s [] (continuations rest) := by
  induction rest generalizing s with
  | nil => exact ⟨rfl, by rw [continuations, receiveFrames, Option.map_some, hprev]⟩
  | cons x rest ih =>
      obtain ⟨controls, fragment⟩ := x
      obtain ⟨hpayload, hrest⟩ : fragment.payload = [] ∧ Fragments.payload rest = [] := by
        simpa [Fragments.payload] using hm
      have ht' := typeAfterControls_of_pong ht (hpong (controls, fragment) List.mem_cons_self)
      rw [continuations, answered_controls hs]
      obtain ⟨ret, hstep, hret⟩ := receiveClientFrame_empty
        (s := { s with lFrameType := typeAfterControls s.lFrameType controls }) ht' hprev
        rest.isEmpty hpayload
      refine (answered_cons (congrArg Outcome.closed hstep)).mpr ⟨?_, ?_⟩
      · rw [hstep, Outcome.answer, hret, answerTo, ite_self]
      · rw [hstep]
        exact ih ht' hs hprev hrest fun y hy => hpong y (List.mem_cons_of_mem _ hy)

/-! ## Streams that are not -/

/-- Fragments behind a control frame return nothing. -/
theorem value_of_pingPong {rest : Fragments} (ht : IsPingPong s.lFrameType)
    (hs : s.base64 = false) :
    ∀ o ∈ (receiveFrames s (continuations rest)).1, o.ret.value = some [] := by
  induction rest generalizing s with
  | nil => exact fun o ho => absurd ho List.not_mem_nil
  | cons x rest ih =>
      obtain ⟨controls, fragment⟩ := x
      obtain ⟨os, hos, hrun⟩ := receiveFrames_controls hs [] controls
        (.data .continuation rest.isEmpty fragment :: continuations rest)
      have ht' : IsPingPong (typeAfterControls s.lFrameType controls) := by
        rw [typeAfterControls]
        cases controls.getLast? with
        | none => exact ht
        | some c => cases hc : c.ping <;> simp [IsPingPong, ControlFrame.ft, hc]
      have hstep := receiveClientFrame_of_pingPong
        (s := { s with lFrameType := typeAfterControls s.lFrameType controls }) ht' rest.isEmpty
        fragment
      intro o ho
      rw [continuations, hrun, receiveFrames, hstep, if_neg (by simp)] at ho
      obtain ho | ho := List.mem_append.mp ho
      · have hmem : o.answer ∈ os.map Outcome.answer := List.mem_map_of_mem ho
        rw [hos] at hmem
        obtain ⟨c, -, hc⟩ := List.mem_map.mp hmem
        exact (congrArg Prod.snd hc).symm
      · obtain rfl | ho := List.mem_cons.mp ho
        · rfl
        · exact ih (s := { s with lFrameType := typeAfterControls s.lFrameType controls }) ht' hs o ho

/-- The last fragment asks for the message. -/
theorem exists_fin (ft : FrameType) (fragment : Fragment) (rest : Fragments) :
    ∃ f ∈ ClientFrame.data ft rest.isEmpty fragment :: continuations rest,
      ∀ m, answerTo m f = ([], some m) := by
  induction rest generalizing ft fragment with
  | nil => exact ⟨_, List.mem_cons_self, fun _ => rfl⟩
  | cons x rest ih =>
      obtain ⟨f, hf, ha⟩ := ih .continuation x.2
      exact ⟨f, List.mem_cons_of_mem _ (List.mem_append_right _ hf), ha⟩

/-- A call that is answered right has left the socket open. -/
theorem Answered.closed_eq_false {f : ClientFrame} {fs : List ClientFrame}
    (h : Answered s m (f :: fs)) : (receiveClientFrame s f).closed = false := by
  rw [← Bool.not_eq_true]
  intro hc
  rw [Answered, receiveFrames, if_pos hc] at h
  exact absurd h.2 (by simp)

/-- Right answers are only given when the control frames do no harm. -/
theorem undisturbed_of_answered {rest : Fragments} (hs : s.base64 = false)
    (h : Answered s m (continuations rest)) : Undisturbed m rest := by
  induction rest generalizing s with
  | nil => exact .inl fun x hx => absurd hx List.not_mem_nil
  | cons x rest ih =>
      obtain ⟨controls, fragment⟩ := x
      rw [continuations, answered_controls hs] at h
      have hc := h.closed_eq_false
      have ih : Undisturbed m rest := by
        refine ih ?_ ((answered_cons hc).mp h).2
        rw [base64_receiveClientFrame]
        exact hs
      cases hl : controls.getLast? with
      | none =>
          -- nothing stands before the fragment: the others decide
          obtain rfl := List.getLast?_eq_none_iff.mp hl
          refine ih.imp (fun h => ?_) (fun h => ⟨h.1, ?_⟩)
          · exact List.forall_mem_cons.mpr ⟨rfl, h⟩
          · exact List.forall_mem_cons.mpr ⟨fun c hc => absurd hc (by simp), h.2⟩
      | some c =>
          have htype : typeAfterControls s.lFrameType controls = c.ft := by
            rw [typeAfterControls, hl]
          rw [htype] at h hc
          -- the fragment is taken for the control frame `c`, which must not be a ping
          have hpp : IsPingPong c.ft := by
            cases hp : c.ping <;> simp [IsPingPong, ControlFrame.ft, hp]
          have hstep := receiveClientFrame_of_pingPong (s := { s with lFrameType := c.ft }) hpp
            rest.isEmpty fragment
          have hpong : c.ping = false := by
            rw [← Bool.not_eq_true]
            intro hp
            have hanswer := congrArg Prod.fst ((answered_cons hc).mp h).1
            rw [hstep] at hanswer
            simp [Outcome.answer, answerTo, ControlFrame.ft, hp] at hanswer
          -- and the last fragment, which is taken so too, returns the empty string
          have hm : m = [] := by
            obtain ⟨f, hf, hfin⟩ := exists_fin .continuation fragment rest
            have hmem := List.mem_map_of_mem (f := answerTo m) hf
            rw [← h.1, hfin] at hmem
            obtain ⟨o, ho, hanswer⟩ := List.mem_map.mp hmem
            have hvalue : o.ret.value = some m := congrArg Prod.snd hanswer
            rw [receiveFrames, hstep, if_neg (by simp)] at ho
            obtain rfl | ho := List.mem_cons.mp ho
            · exact (Option.some.inj hvalue).symm
            · rw [value_of_pingPong (s := { s with lFrameType := c.ft }) hpp hs o ho] at hvalue
              exact (Option.some.inj hvalue).symm
          have hrest : ∀ y ∈ rest, ∀ c ∈ y.1.getLast?, c.ping = false := by
            obtain h | h := ih
            · exact fun y hy c hc => absurd hc (by simp [h y hy])
            · exact h.2
          refine .inr ⟨hm, List.forall_mem_cons.mpr ⟨fun c' hc' => ?_, hrest⟩⟩
          obtain rfl : c = c' := by simpa [hl] using hc'
          exact hpong

end Runs

/-! ## Transparency -/

section Transparency

variable {s : Session} {ft : FrameType} {first : Fragment} {rest : Fragments}

/-- The frames of a message are legal. -/
theorem legal_frames (ht : IsData ft) (hlen : (message first rest).length ≤ frameSizeLimit) :
    ∀ f ∈ frames ft first rest, f.Legal := by
  have hcontrol (c : ControlFrame) : (ClientFrame.control c).Legal := by
    have hle : c.payload.length ≤ frameSizeLimit := c.length_le.trans (by decide)
    obtain ⟨ping, mask, payload, h125⟩ := c
    cases ping
    · exact ⟨by simp [ClientFrame.ft, ControlFrame.ft, FrameType.OnWire, FrameType.Known], hle,
        fun _ => ⟨rfl, h125⟩, fun h => by cases h⟩
    · exact ⟨by simp [ClientFrame.ft, ControlFrame.ft, FrameType.OnWire, FrameType.Known], hle,
        fun _ => ⟨rfl, h125⟩, fun h => by cases h⟩
  have hdata (ft : FrameType) (hft : ft = .continuation ∨ IsData ft) (fin : Bool)
      (fragment : Fragment) (hle : fragment.payload.length ≤ frameSizeLimit) :
      (ClientFrame.data ft fin fragment).Legal := by
    obtain rfl | rfl | rfl := hft <;>
      exact ⟨by simp [ClientFrame.ft, FrameType.OnWire, FrameType.Known], hle,
        fun h => by simp [FrameType.Control, ClientFrame.ft] at h, fun h => by cases h⟩
  have hrest : ∀ rest : Fragments, rest.payload.length ≤ frameSizeLimit →
      ∀ f ∈ continuations rest, f.Legal := by
    intro rest hle
    induction rest with
    | nil => exact fun f hf => absurd hf List.not_mem_nil
    | cons x rest ih =>
        simp only [Fragments.payload, List.flatMap_cons, List.length_append] at hle ih
        intro f hf
        obtain hf | hf := List.mem_append.mp hf
        · obtain ⟨c, -, rfl⟩ := List.mem_map.mp hf
          exact hcontrol c
        · obtain rfl | hf := List.mem_cons.mp hf
          · exact hdata _ (.inl rfl) _ _ (by omega)
          · exact ih (by omega) f hf
  rw [message, List.length_append] at hlen
  intro f hf
  obtain rfl | hf := List.mem_cons.mp hf
  · exact hdata ft (.inr ht) _ _ (by omega)
  · exact hrest rest (by omega) f hf

/-- The first fragment sets the type. -/
theorem receiveClientFrame_first (ht : IsData ft) (fin : Bool) :
    receiveClientFrame s (.data ft fin first) =
      receiveClientFrame { s with lFrameType := ft } (.data .continuation fin first) := by
  obtain rfl | rfl := ht <;> rfl

/-- A message is put together exactly when the control frames do no harm. -/
theorem answered_frames (hs : s.base64 = false) (hprev : s.previousData = []) (ht : IsData ft)
    (hv : ft = .text → isValidUTF8 (message first rest) = true)
    (hlen : (message first rest).length ≤ frameSizeLimit) :
    Answered s (message first rest) (frames ft first rest) ↔
      Undisturbed (message first rest) rest := by
  have hfirst : Answered s (message first rest) (frames ft first rest) ↔
      Answered { s with lFrameType := ft } (message first rest)
        (continuations (([], first) :: rest)) := by
    rw [frames, continuations, Answered, Answered, receiveFrames, List.map_nil, List.nil_append,
      receiveFrames, receiveClientFrame_first ht]
    rfl
  rw [hfirst]
  constructor
  · intro h
    obtain h | ⟨h, hx⟩ := undisturbed_of_answered (s := { s with lFrameType := ft }) hs h
    · exact .inl fun x hx => h x (List.mem_cons_of_mem _ hx)
    · exact .inr ⟨h, fun x h => hx x (List.mem_cons_of_mem _ h)⟩
  · rintro (h | ⟨h, hx⟩)
    · exact answered_continuations (s := { s with lFrameType := ft }) (by simp) ht hs
        (List.forall_mem_cons.mpr ⟨rfl, h⟩)
        (by simp [hprev, message, Fragments.payload]) hlen hv
    · rw [h]
      exact answered_empty (s := { s with lFrameType := ft }) (.inl ht) hs hprev
        (by simpa [message, Fragments.payload] using h)
        (List.forall_mem_cons.mpr ⟨fun c hc => absurd hc (by simp), hx⟩)

/-- The frames that a call sends are those of its answer. -/
theorem sentFrames_flatMap (os : List Outcome) :
    sentFrames (os.flatMap Outcome.events) = (os.map Outcome.answer).flatMap Prod.fst := by
  induction os with
  | nil => rfl
  | cons o os ih =>
      have ho : sentFrames o.events = o.sent := by
        obtain ⟨s, sent, closed, ret⟩ := o
        simp only [sentFrames, Outcome.events, List.filterMap_append, List.filterMap_map]
        cases ret <;> cases closed <;> simp [Return.events]
      rw [List.flatMap_cons, List.map_cons, List.flatMap_cons, ← ih]
      simp only [sentFrames, List.filterMap_append] at ho ⊢
      rw [ho, Outcome.answer]

/-- A string that counts as returned. -/
def returnedBy (a : Answer) : List Bytes :=
  match a.2 with
  | some (b :: data) => [b :: data]
  | _ => []

/-- The strings that a run returns are those of its answers. -/
theorem returned_flatMap (os : List Outcome) :
    returned (os.flatMap Outcome.events) = (os.map Outcome.answer).flatMap returnedBy := by
  induction os with
  | nil => rfl
  | cons o os ih =>
      have ho : returned o.events = returnedBy o.answer := by
        obtain ⟨s, sent, closed, ret⟩ := o
        have hsent : returned (sent.map .sent) = [] := by
          simp [returned]
        simp only [returned, Outcome.events, List.filterMap_append] at hsent ⊢
        rw [hsent]
        obtain _ | ⟨ft, _ | ⟨b, data⟩⟩ | _ := ret <;> cases closed <;> rfl
      rw [List.flatMap_cons, List.map_cons, List.flatMap_cons, ← ih, ← ho]
      simp only [returned, List.filterMap_append]

/-- Of the answers to a message only the last one to a fragment returns anything. -/
theorem flatMap_returnedBy (m : Bytes) (ft : FrameType) (first : Fragment) (rest : Fragments) :
    ((frames ft first rest).map (answerTo m)).flatMap returnedBy = if m = [] then [] else [m] := by
  have hcontrols (controls : List ControlFrame) (fs : List ClientFrame) :
      ((controls.map ClientFrame.control ++ fs).map (answerTo m)).flatMap returnedBy =
        (fs.map (answerTo m)).flatMap returnedBy := by
    induction controls with
    | nil => rfl
    | cons c controls ih =>
        rw [List.map_cons, List.cons_append, List.map_cons, List.flatMap_cons, ih]
        rfl
  induction rest generalizing ft first with
  | nil => cases m <;> rfl
  | cons x rest ih =>
      rw [frames, List.map_cons, List.flatMap_cons, continuations, hcontrols]
      exact ih .continuation x.2

/-- A stream that is answered right is so however it is delivered. -/
theorem transparent_of_answered {m : Bytes} (hs : s.base64 = false)
    (hlegal : ∀ f ∈ frames ft first rest, f.Legal)
    (h : Answered s m (frames ft first rest)) : Transparent ⟨s, []⟩ m (frames ft first rest) := by
  have heach := receiveEach_bytes hs hlegal
  obtain ⟨hos, hprev⟩ := h
  generalize receiveFrames s (frames ft first rest) = run at *
  obtain ⟨os, _ | s'⟩ := run
  · cases hprev
  have hall : receiveAll ⟨s, []⟩ ((frames ft first rest).map ClientFrame.bytes) =
      (os.flatMap Outcome.events, some ⟨s', []⟩) := by
    have hrest : receiveRest ⟨s', []⟩ = ([], some ⟨s', []⟩) := by
      rw [receiveRest]
      rfl
    simp [receiveAll, heach, hrest]
  refine ⟨⟨by rw [heach]; exact hos, by rw [heach]; exact hprev⟩, ?_⟩
  intro chunks hchunks
  rw [receiveAll_of_flatten_eq _ hchunks, hall]
  refine ⟨?_, ?_, ?_, hprev⟩
  · rw [sentFrames_flatMap, hos, List.flatMap_map]
  · rw [returned_flatMap, hos, flatMap_returnedBy]
  · intro hmem
    obtain ⟨o, ho, hthrown⟩ := List.mem_flatMap.mp hmem
    have hret : o.ret = .thrown := by
      obtain ⟨s, sent, closed, ret⟩ := o
      cases ret <;> cases closed <;> simp [Outcome.events, Return.events] at hthrown ⊢
    have hanswer : o.answer ∈ os.map Outcome.answer := List.mem_map_of_mem ho
    rw [hos] at hanswer
    obtain ⟨f, -, hf⟩ := List.mem_map.mp hanswer
    have hvalue : (answerTo m f).2 = none := by rw [hf, Outcome.answer, hret]; rfl
    cases f <;> cases hvalue

/-- The receiver reassembles a fragmented message exactly when no control frame disturbs it. -/
theorem transparent_iff_undisturbed (s : Session) (ft : FrameType) (first : Fragment)
    (rest : Fragments) (hs : s.base64 = false) (hprev : s.previousData = []) (ht : IsData ft)
    (hv : ft = .text → isValidUTF8 (message first rest) = true)
    (hlen : (message first rest).length ≤ frameSizeLimit) :
    Transparent ⟨s, []⟩ (message first rest) (frames ft first rest) ↔
      Undisturbed (message first rest) rest := by
  have hlegal := legal_frames ht hlen
  rw [← answered_frames hs hprev ht hv hlen]
  constructor
  · intro h
    have := h.1
    rw [receiveEach_bytes hs hlegal, Option.map_map] at this
    exact this
  · exact transparent_of_answered hs hlegal

/-- A binary message in two fragments without a frame between them. -/
theorem transparent_iff_undisturbed_ab :
    Transparent ⟨⟨false, false, [], .continuation⟩, []⟩ (ascii "ab")
        (frames .binary ⟨⟨1, 2, 3, 4⟩, ascii "a"⟩ [([], ⟨⟨5, 6, 7, 8⟩, ascii "b"⟩)]) ↔
      Undisturbed (ascii "ab") [([], ⟨⟨5, 6, 7, 8⟩, ascii "b"⟩)] :=
  transparent_iff_undisturbed ⟨false, false, [], .continuation⟩ .binary ⟨⟨1, 2, 3, 4⟩, ascii "a"⟩
    [([], ⟨⟨5, 6, 7, 8⟩, ascii "b"⟩)] rfl rfl (.inr rfl) (by decide) (by decide)

/-- A ping between the two fragments: the last one is answered as a ping and never returned. -/
theorem ping_not_transparent :
    ¬ Transparent ⟨⟨false, false, [], .continuation⟩, []⟩ (ascii "ab")
      (frames .binary ⟨⟨1, 2, 3, 4⟩, ascii "a"⟩
        [([⟨true, ⟨0, 0, 0, 0⟩, [], by decide⟩], ⟨⟨5, 6, 7, 8⟩, ascii "b"⟩)]) :=
  fun h => absurd h.1.1 (by decide)

end Transparency

end VplJail.WebSocket
