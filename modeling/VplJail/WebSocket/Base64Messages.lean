import VplJail.Util.Base64Parts
import VplJail.WebSocket.FrameCalls

/-!
# Fragments of base64 messages

With the base64 subprotocol a message is the encoding of binary data. `decodeFrame` decodes a text
frame and makes it a binary one, so the continuations behind it are taken as they are. A message in
fragments is returned only where they leave nothing to decode (`reassembles_iff`).
-/

namespace VplJail.WebSocket

/-- Fragments without control frames between them. -/
def alone (rest : List Fragment) : Fragments :=
  rest.map fun fragment => ([], fragment)

/-- The calls for the frames of a message return the empty string for every frame but the last, and
then the data. -/
def Reassembles (s : Session) (data : Bytes) (fs : List ClientFrame) : Prop :=
  (receiveEach ⟨s, []⟩ (fs.map ClientFrame.bytes)).1.map (fun o => o.ret.value) =
    fs.map fun f => (answerTo data f).2

/-- The text behind the first fragment, which is never decoded, is empty, or it happens to be the end
of the data. -/
def NothingToDecode (data : Bytes) (rest : List Fragment) : Prop :=
  (alone rest).payload = [] ∨
    (((alone rest).payload = ascii "0=" ∨ (alone rest).payload = ascii "EMD0=") ∧
      (alone rest).payload <:+ data)

section Calls

variable {s : Session}

theorem payload_cons (fragment : Fragment) (rest : List Fragment) :
    (alone (fragment :: rest)).payload = fragment.payload ++ (alone rest).payload :=
  List.flatMap_cons

theorem continuations_cons (fragment : Fragment) (rest : List Fragment) :
    continuations (alone (fragment :: rest)) =
      .data .continuation rest.isEmpty fragment :: continuations (alone rest) := by
  rw [alone, List.map_cons, continuations, List.map_nil, List.nil_append, List.isEmpty_map]
  rfl

/-- One call, and the others from the object that it leaves. -/
theorem reassembles_cons {data : Bytes} {f : ClientFrame} {fs : List ClientFrame} {o : Outcome}
    (hf : f.Legal) (hcall : receiveWhole s f = o) (hopen : o.closed = false) :
    Reassembles s data (f :: fs) ↔
      o.ret.value = (answerTo data f).2 ∧ Reassembles o.session data fs := by
  rw [Reassembles, List.map_cons, receiveEach, receive_whole hf, hcall]
  simp only [hopen, Bool.false_eq_true, if_false, List.map_cons, List.cons.injEq]
  rfl

/-- A continuation behind a text that has been decoded is not decoded. -/
theorem receiveWhole_continuation (ht : s.lFrameType = .binary) (fin : Bool)
    (fragment : Fragment) :
    receiveWhole s (.data .continuation fin fragment) = receiveData s fin fragment.payload := by
  rw [receiveWhole_plain, receiveClientFrame_data (.inr ht)]
  right
  change s.lFrameType ≠ .text
  rw [ht]
  exact FrameType.noConfusion

/-- A fragment of binary data, the last one or another. -/
theorem receiveData_binary (ht : s.lFrameType = .binary) {data : Bytes}
    (hlength : (s.previousData ++ data).length ≤ frameSizeLimit) (fin : Bool) :
    receiveData s fin data =
      if fin then
        ⟨{ s with previousData := [] }, [], false, .message .binary (s.previousData ++ data)⟩
      else ⟨{ s with previousData := s.previousData ++ data }, [], false, .nothing⟩ := by
  cases fin with
  | true =>
    have htext : ¬ s.lFrameType = .text := by
      rw [ht]
      exact FrameType.noConfusion
    rw [receiveData_fin fun h => absurd h htext, ht]
    rfl
  | false => exact receiveData_more hlength

/-- The continuations are put behind what is kept. -/
theorem values_continuations {rest : List Fragment} (hrest : rest ≠ [])
    (ht : s.lFrameType = .binary) (hlegal : ∀ f ∈ continuations (alone rest), f.Legal)
    (hlength : (s.previousData ++ (alone rest).payload).length ≤ frameSizeLimit) :
    Reassembles s (s.previousData ++ (alone rest).payload) (continuations (alone rest)) := by
  induction rest generalizing s with
  | nil => exact absurd rfl hrest
  | cons fragment rest ih =>
    rw [continuations_cons] at hlegal ⊢
    obtain ⟨hf, hlegal⟩ := List.forall_mem_cons.mp hlegal
    rw [payload_cons, ← List.append_assoc] at hlength ⊢
    have hpart : (s.previousData ++ fragment.payload).length ≤ frameSizeLimit := by
      rw [List.length_append] at hlength
      omega
    have hcall := (receiveWhole_continuation ht rest.isEmpty fragment).trans
      (receiveData_binary ht hpart rest.isEmpty)
    cases rest with
    | nil =>
      refine (reassembles_cons hf hcall rfl).mpr ⟨?_, rfl⟩
      simp [alone, Fragments.payload, answerTo, Return.value]
    | cons next rest =>
      refine (reassembles_cons hf hcall rfl).mpr ⟨rfl, ?_⟩
      exact ih (s := { s with previousData := s.previousData ++ fragment.payload })
        (List.cons_ne_nil _ _) ht hlegal hlength

/-- The first fragment is decoded by itself. -/
theorem handled_first (hs : s.base64 = true) (fin : Bool) (first : Fragment) :
    (ClientFrame.data .text fin first).handledType s = .binary ∧
      (ClientFrame.data .text fin first).handledData s = Base64.decode first.payload := by
  have htext : (s.base64 && (ClientFrame.data .text fin first).typeAfter s.lFrameType == .text) =
      true := by
    rw [hs]
    rfl
  rw [ClientFrame.handledType, ClientFrame.handledData, if_pos htext, if_pos htext]
  exact ⟨rfl, rfl⟩

variable {first : Fragment} {rest : List Fragment}

/-- What is returned is the first fragment decoded and the others as they are. -/
theorem values_frames (hs : s.base64 = true) (hprev : s.previousData = [])
    (hlength : (message first (alone rest)).length ≤ frameSizeLimit) {out : Bytes}
    (hout : Base64.decode first.payload = some out) :
    Reassembles s (out ++ (alone rest).payload) (frames .text first (alone rest)) := by
  have hlegal := legal_frames (.inl rfl) hlength
  have hle := Base64.length_decode_le hout
  rw [message, List.length_append] at hlength
  rw [frames] at hlegal ⊢
  obtain ⟨hf, hlegal⟩ := List.forall_mem_cons.mp hlegal
  obtain ⟨htype, hdata⟩ := handled_first hs (alone rest).isEmpty first
  have hkept : ({ s with lFrameType := .binary } : Session).previousData ++ out = out := by
    rw [hprev, List.nil_append]
  have hcall : receiveWhole s (.data .text (alone rest).isEmpty first) =
      receiveData { s with lFrameType := .binary } (alone rest).isEmpty out := by
    rw [receiveWhole_of_data (hdata.trans hout), htype, receiveFrame_of_data _ _ _ (.inr rfl)]
    rfl
  rw [receiveData_binary rfl (by rw [hkept]; omega), hkept] at hcall
  cases rest with
  | nil =>
    refine (reassembles_cons hf hcall rfl).mpr ⟨?_, rfl⟩
    exact congrArg some (List.append_nil out).symm
  | cons next rest =>
    refine (reassembles_cons hf hcall rfl).mpr ⟨rfl, ?_⟩
    apply values_continuations (s := { s with previousData := out, lFrameType := .binary })
      (List.cons_ne_nil _ _) rfl hlegal
    change (out ++ (alone (next :: rest)).payload).length ≤ frameSizeLimit
    rw [List.length_append]
    omega

/-- A first fragment that is not base64 makes the first call throw. -/
theorem not_reassembles_of_none (hs : s.base64 = true) {data : Bytes}
    (hlength : (message first (alone rest)).length ≤ frameSizeLimit)
    (hout : Base64.decode first.payload = none) :
    ¬ Reassembles s data (frames .text first (alone rest)) := by
  have hlegal := legal_frames (.inl rfl) hlength
  rw [frames] at hlegal ⊢
  obtain ⟨hf, -⟩ := List.forall_mem_cons.mp hlegal
  have hdata := (handled_first hs (alone rest).isEmpty first).2
  rw [reassembles_cons hf (receiveWhole_of_none (hdata.trans hout)) rfl]
  rintro ⟨hvalue, -⟩
  cases hvalue

/-- The calls return one message at most. -/
theorem reassembles_inj {data data' : Bytes}
    (h : Reassembles s data (frames .text first (alone rest)))
    (h' : Reassembles s data' (frames .text first (alone rest))) : data = data' := by
  obtain ⟨f, hf, hanswer⟩ := exists_fin .text first (alone rest)
  have hsame := List.map_inj_left.mp (h.symm.trans h') f hf
  rw [hanswer, hanswer] at hsame
  exact Option.some.inj hsame

end Calls

/-- A base64 message in fragments is returned just when nothing behind the first fragment is left to
decode. -/
theorem reassembles_iff (s : Session) (data : Bytes) (first : Fragment) (rest : List Fragment)
    (hs : s.base64 = true) (hprev : s.previousData = [])
    (hlength : (Base64.encode data).length ≤ frameSizeLimit)
    (hmessage : message first (alone rest) = Base64.encode data) :
    Reassembles s data (frames .text first (alone rest)) ↔ NothingToDecode data rest := by
  have hpart := Base64.decode_part_iff (show first.payload ++ (alone rest).payload = _ from hmessage)
  rw [NothingToDecode, ← hpart]
  rw [← hmessage] at hlength
  constructor
  · intro h
    cases hout : Base64.decode first.payload with
    | none => exact absurd h (not_reassembles_of_none hs hlength hout)
    | some out => exact ⟨out, rfl, reassembles_inj (values_frames hs hprev hlength hout) h⟩
  · rintro ⟨out, hout, rfl⟩
    exact values_frames hs hprev hlength hout

/-- The encoding of `abc`, all of it in the first fragment. -/
theorem reassembles_iff_abc :
    Reassembles ⟨false, true, [], .continuation⟩ (ascii "abc")
        (frames .text ⟨⟨1, 2, 3, 4⟩, ascii "YWJj"⟩ (alone [⟨⟨5, 6, 7, 8⟩, []⟩])) ↔
      NothingToDecode (ascii "abc") [⟨⟨5, 6, 7, 8⟩, []⟩] :=
  reassembles_iff ⟨false, true, [], .continuation⟩ (ascii "abc") ⟨⟨1, 2, 3, 4⟩, ascii "YWJj"⟩
    [⟨⟨5, 6, 7, 8⟩, []⟩] rfl rfl (by decide +kernel) (by decide +kernel)

/-- The encoding of `abc` in two halves: the first one is dropped and the second one returned. -/
theorem not_reassembles :
    ¬ ∀ (s : Session) (data : Bytes) (first : Fragment) (rest : List Fragment),
      s.base64 = true → s.previousData = [] → (Base64.encode data).length ≤ frameSizeLimit →
        message first (alone rest) = Base64.encode data →
          Reassembles s data (frames .text first (alone rest)) := by
  intro hall
  have hvalues := hall ⟨false, true, [], .continuation⟩ (ascii "abc")
    ⟨⟨1, 2, 3, 4⟩, ascii "YW"⟩ [⟨⟨5, 6, 7, 8⟩, ascii "Jj"⟩] rfl rfl (by decide +kernel)
    (by decide +kernel)
  exact absurd hvalues (by unfold Reassembles; decide +kernel)

end VplJail.WebSocket
