import VplJail.Redirector.Terminal
import VplJail.WebSocket.Emission
import VplJail.WebSocket.FrameCodec

/-!
# The output of a terminal

Each `read` of program output goes into a text frame of its own, and `send` replaces what is not a
character by question marks. A read may end inside a character, so the text frames carry the output
just when no read does (`output_iff`).
-/

namespace VplJail

open Socket WebSocket

namespace WebSocket

theorem IsPong.not_isText {frame : Bytes} (h : IsPong frame) : ¬ IsText frame := by
  rw [IsPong] at h
  rw [IsText, h]
  decide

theorem IsClose.not_isText {frame : Bytes} (h : IsClose frame) : ¬ IsText frame := by
  rw [IsClose] at h
  rw [IsText, h]
  decide

/-- A call of `receive` sends no text. -/
theorem Replies.not_isText {s : Session} {o : Outcome} (h : Replies s o) :
    ∀ frame ∈ o.sent, ¬ IsText frame := by
  intro frame hframe
  rcases h with ⟨-, -, hpong⟩ | ⟨-, -, hnil | ⟨-, frame', hclose, hone⟩⟩
  · exact (hpong frame hframe).not_isText
  · rw [hnil] at hframe
    cases hframe
  · rw [hone] at hframe
    exact List.mem_singleton.mp hframe ▸ hclose.not_isText

/-! ## The text frames of a connection -/

/-- The text frames among some frames. -/
def textFrames (frames : List Bytes) : List Bytes :=
  frames.filter fun frame => decide (IsText frame)

theorem textFrames_append {frame : Bytes} (h : ¬ IsText frame) (frames : List Bytes) :
    textFrames (frames ++ [frame]) = textFrames frames := by
  rw [textFrames, List.filter_append, List.filter_singleton, decide_eq_false h]
  exact List.append_nil _

theorem textFrames_append_text {frame : Bytes} (h : IsText frame) (frames : List Bytes) :
    textFrames (frames ++ [frame]) = textFrames frames ++ [frame] := by
  rw [textFrames, List.filter_append, List.filter_singleton, decide_eq_true h]
  rfl

/-- The payload of a frame that is not masked. -/
def framePayload (frame : Bytes) : Bytes :=
  frame.drop (controlSize frame)

theorem framePayload_encodeFrame (base64 : Bool) (data : Bytes) :
    framePayload (encodeFrame base64 data .text) = data := by
  have hdata : encodeData base64 data .text = data := by
    cases base64 <;> rfl
  rw [framePayload, encodeFrame, hdata, controlSize_lengthBytes, List.drop_append_of_le_length]
  · rw [List.drop_of_length_le (by rw [List.length_cons]; omega), List.nil_append]
  · rw [List.length_cons]
    omega

namespace Connection

/-- The text frames that were handed to the socket. -/
def Texts (frames : List Bytes) (c : Connection) : Prop :=
  textFrames c.handed = frames

theorem texts_sendFrame {frames : List Bytes} {frame : Bytes} (h : ¬ IsText frame)
    (polls : List SendPoll) : Keeps (Texts frames) (sendFrame frame polls) := by
  have hkeep (c : Connection) (hc : Texts frames c) :
      textFrames (c.handed ++ [frame]) = frames :=
    (textFrames_append h _).trans hc
  exact triple_sendFrame polls (fun c _ hc _ => ⟨hkeep c hc, fun _ => hkeep c hc⟩)
    fun c hc _ => hkeep c hc

theorem texts_reply {frames : List Bytes} (session : Session) (polls : List SendPoll)
    {sent : List Bytes} (h : ∀ frame ∈ sent, ¬ IsText frame) :
    Keeps (Texts frames) (reply session sent polls) := by
  induction sent with
  | nil =>
    rw [reply, List.forM_nil, pure_bind]
    exact .modify fun _ hc => hc
  | cons frame sent ih =>
    obtain ⟨hframe, hrest⟩ := List.forall_mem_cons.mp h
    rw [reply, List.forM_cons, bind_assoc]
    exact .bind (texts_sendFrame hframe polls) fun _ => ih hrest

theorem texts_receive {frames : List Bytes} (a : Answers) : Keeps (Texts frames) (receive a) := by
  refine .bind (Q := fun _ => Texts frames)
    (triple_receiveChunk _ fun _ _ hc _ => ⟨hc, fun _ => hc⟩) fun chunk => ?_
  refine .bind (.get fun _ hc => hc) fun c => ?_
  have hret (r : Return) : Keeps (Texts frames) (giveBack r) := by
    unfold giveBack
    cases r.value with
    | some data => exact .pure fun _ hc => hc
    | none => exact .throw fun _ hc => hc
  refine .bind (Q := fun _ => Texts frames) (.modify fun _ hc => hc) fun _ => ?_
  refine .bind (texts_reply _ _ (replies_receive c.ws chunk).not_isText) fun _ => ?_
  refine .ite (fun _ => ?_) fun _ => hret _
  exact .bind (.modify fun _ hc => hc) fun _ => hret _

/-- A text is handed over in a frame, whatever becomes of it. -/
theorem texts_send {frames : List Bytes} (s : Bytes) (polls : List SendPoll) :
    Triple (Texts frames) (send s .text polls)
      (fun _ c => (textFrames c.handed).map framePayload =
        frames.map framePayload ++ [sendPayload s .text])
      (fun _ c => (textFrames c.handed).map framePayload =
        frames.map framePayload ++ [sendPayload s .text]) := by
  refine .bind_get fun c hc => ?_
  have hmore (c' : Connection) (hc' : c' = c) : (textFrames (c'.handed ++
      [encodeFrame c.ws.base64 (sendPayload s .text) .text])).map framePayload =
        frames.map framePayload ++ [sendPayload s .text] := by
    rw [textFrames_append_text (isText_encodeFrame _ _), List.map_append, hc', hc]
    simp only [List.map_cons, List.map_nil, framePayload_encodeFrame]
  exact triple_sendFrame polls (fun c' _ hc' _ => ⟨hmore c' hc', fun _ => hmore c' hc'⟩)
    fun c' hc' _ => hmore c' hc'

end Connection

end WebSocket

namespace RedirectorTerminal

open Redirector Connection

/-! ## The passes in the connected state -/

/-- The text frames carry what was read, as `send` leaves it. -/
def Carried (r : Redirector Connection) : Prop :=
  (textFrames r.client.handed).map framePayload = r.readings.map fun data => sendPayload data .text

theorem carried_input (a : Answers) : Keeps Carried (input a) := by
  have hreceive : Keeps Carried (receiveClient (Connection.receive a)) := by
    refine .of_states fun r hr => ?_
    have hkeep (c : Connection) (hc : Texts (textFrames r.client.handed) c) :
        (textFrames c.handed).map framePayload = r.readings.map fun data => sendPayload data .text := by
      rw [hc, hr]
    exact triple_receiveClient (texts_receive a) (fun _ h => h ▸ rfl)
      (fun _ _ c h hc => h ▸ hkeep c hc) fun _ _ c h hc => h ▸ hkeep c hc
  have hadd (data : Bytes) (r : Redirector Connection) (hr : Carried r) :
      Carried (addInput data r).2 := by
    rw [addInput, append]
    split_ifs <;> exact hr
  exact .bind hreceive fun data =>
    triple_accept (fun r hr _ => hadd data r hr) fun r hr _ => hadd data r hr

/-- Whatever is read is sent. -/
theorem carried_forwardOutput (p : Pass) : Keeps Carried (forwardOutput p) := by
  let Read (data : Bytes) (r : Redirector Connection) : Prop :=
    (textFrames r.client.handed).map framePayload ++ [sendPayload data .text] =
      r.readings.map fun data => sendPayload data .text
  refine .bind (Q := Read) (triple_readServer (P := Carried) (fun _ hr => hr) (fun r data hr => ?_) _)
    fun data => .bind (Q := fun _ => Read data) (.modify fun _ hr => hr) fun _ => ?_
  · show _ = (r.readings ++ [data]).map fun data => sendPayload data .text
    rw [List.map_append, ← hr]
    rfl
  · refine .of_states fun r hr => ?_
    have hkeep (c : Connection) (hc : (textFrames c.handed).map framePayload =
        (textFrames r.client.handed).map framePayload ++ [sendPayload data .text]) :
        Carried { r with client := c } := by
      rw [Carried, hc]
      exact hr
    exact triple_onClient (texts_send data p.output) (fun _ h => h ▸ rfl)
      (fun _ _ c h hc => h ▸ hkeep c hc) fun _ _ c h hc => h ▸ hkeep c hc

theorem carried_connected (p : Pass) : Keeps Carried (connected p) :=
  triple_connected (P := Carried) (R := fun _ => Carried)
    ⟨fun _ hr => hr, fun _ _ _ hr => hr, fun _ _ hr _ => hr⟩ carried_input carried_forwardOutput p

/-- Passes one after another while the redirector stays connected, up to an exception. -/
def connectedPasses (r : Redirector Connection) : List Pass → Redirector Connection
  | [] => r
  | p :: ps =>
      let done := (connected p).run.run r
      match done.1 with
      | .error (.interrupted _) => done.2
      | .error .broken =>
          if done.2.state = .connected then connectedPasses done.2 ps else done.2
      | .ok () => if done.2.state = .connected then connectedPasses done.2 ps else done.2

theorem carried_connectedPasses (ps : List Pass) {r : Redirector Connection} (hr : Carried r) :
    Carried (connectedPasses r ps) := by
  induction ps generalizing r with
  | nil => exact hr
  | cons p ps ih =>
    have hpass := carried_connected p r hr
    rw [connectedPasses]
    cases hrun : (connected p).run.run r with
    | mk x r' =>
      rw [hrun] at hpass
      have hnext (h : Carried r') :
          Carried (if r'.state = .connected then connectedPasses r' ps else r') := by
        split_ifs
        · exact ih h
        · exact h
      cases x with
      | ok u => exact hnext hpass
      | error e =>
        cases e with
        | broken => exact hnext hpass
        | interrupted i => exact hpass

/-- A redirector that has just connected to a WebSocket. -/
def start (ws : State) (socket : Socket) : Redirector Connection :=
  { state := .connected, client := { ws, socket } }

/-- The output that has been read. -/
def output (r : Redirector Connection) : Bytes :=
  r.readings.flatten

/-- The payloads of the text frames. -/
def sentOutput (r : Redirector Connection) : Bytes :=
  ((textFrames r.client.handed).map framePayload).flatten

/-- Pieces of the same lengths have the same whole just when they are the same. -/
theorem flatten_map_eq_iff {α : Type} {f : List α → List α} (hf : ∀ s, (f s).length = s.length)
    (ss : List (List α)) : (ss.map f).flatten = ss.flatten ↔ ∀ s ∈ ss, f s = s := by
  induction ss with
  | nil => simp
  | cons s ss ih =>
    rw [List.map_cons, List.flatten_cons, List.flatten_cons, List.forall_mem_cons, ← ih]
    constructor
    · intro h
      exact List.append_inj h (hf s)
    · rintro ⟨hs, hss⟩
      rw [hs, hss]

theorem sendPayload_eq_iff {data : Bytes} :
    sendPayload data .text = data ↔ ∃ cs : List Char, data = utf8 cs := by
  rw [← isValidUTF8_iff, sendPayload]
  by_cases h : isValidUTF8 data = true
  · rw [if_neg (by simp [h])]
    exact iff_of_true rfl h
  · rw [if_pos ⟨rfl, h⟩]
    exact iff_of_false (fun heq => h (isValidUTF8_of_sanitizeUTF8 heq)) h

/-- The text frames carry the output just when no read ends inside a character. -/
theorem output_iff (ws : State) (socket : Socket) (ps : List Pass) :
    sentOutput (connectedPasses (start ws socket) ps) =
        output (connectedPasses (start ws socket) ps) ↔
      ∀ data ∈ (connectedPasses (start ws socket) ps).readings, ∃ cs : List Char, data = utf8 cs := by
  have hlen (data : Bytes) : (sendPayload data .text).length = data.length := by
    rw [sendPayload]
    split
    · exact length_sanitizeUTF8 data
    · rfl
  have hcarried : Carried (connectedPasses (start ws socket) ps) := carried_connectedPasses ps rfl
  rw [sentOutput, hcarried, output, flatten_map_eq_iff hlen]
  simp only [sendPayload_eq_iff]

/-- A read that ends inside a character loses it. -/
theorem not_output_eq :
    ¬ ∀ (ws : State) (socket : Socket) (ps : List Pass),
      (∃ cs : List Char, output (connectedPasses (start ws socket) ps) = utf8 cs) →
        sentOutput (connectedPasses (start ws socket) ps) =
          output (connectedPasses (start ws socket) ps) := by
  intro hall
  let ws : State := ⟨⟨false, false, [], .text⟩, []⟩
  let p (data : Bytes) : Pass :=
    { polled := .ready { server := { read := true } }
      read := some data
      output := [.ready { pollout := some (.wrote netBufferSize) }] }
  have houtput : output (connectedPasses (start ws { header := [71] }) [p [0xC3], p [0xA9]]) =
      utf8 ['é'] := by
    decide +kernel
  have hsent := hall ws { header := [71] } [p [0xC3], p [0xA9]] ⟨_, houtput⟩
  rw [houtput] at hsent
  revert hsent
  decide +kernel

end RedirectorTerminal

end VplJail
