import Mathlib.Data.List.Forall2
import VplJail.WebSocket.Emission
import VplJail.WebSocket.FrameCodec
import VplJail.Xml.Strings

/-!
# Texts that are sent

`isValidUTF8` is exact (`isValidUTF8_exact`), and every text frame that `webSocket::send` makes passes
it (`sanitizeUTF8_sound`). `get_clean_utf8` looks at the marks of the bytes only, so what it keeps is
valid just when no sequence that it comes upon is overlong, a surrogate or too large
(`isCleaned_iff`).
-/

namespace VplJail.WebSocket

open Util Xml

/-! ## Valid texts -/

/-- The texts that are accepted are those that encode scalar values, each of them one sequence. -/
theorem isValidUTF8_exact (s : Bytes) :
    (isValidUTF8 s = true ↔ ∃ cs : List Char, s = utf8 cs) ∧
      ∀ cs cs' : List Char, s = utf8 cs → s = utf8 cs' → cs = cs' := by
  refine ⟨⟨exists_chars_of_isValidUTF8, ?_⟩, ?_⟩
  · rintro ⟨cs, rfl⟩
    exact isValidUTF8_utf8 cs
  · intro cs cs' hcs hcs'
    have hbytes : cs.utf8Encode = cs'.utf8Encode := by
      exact congrArg List.toByteArray (hcs.symm.trans hcs')
    have hdecode : some cs.toArray = some cs'.toArray := by
      rw [← List.utf8Decode?_utf8Encode, hbytes, List.utf8Decode?_utf8Encode]
    exact List.toArray_inj (Option.some.inj hdecode)

/-- A character is found again in front of another text. -/
theorem charLength_take_append {s : Bytes} {n : ℕ} (h : charLength s = some n) (rest : Bytes) :
    charLength (s.take n ++ rest) = some n := by
  obtain ⟨c, hc⟩ := exists_char_of_charLength h
  have hlength : (s.take n).length = n := List.length_take_of_le (charLength_bounds h).2
  rw [hc] at hlength ⊢
  rw [charLength_utf8EncodeChar, hlength]

/-- A character in front leaves a text as valid as it is. -/
theorem isValidUTF8_take_append {s : Bytes} {n : ℕ} (h : charLength s = some n) (rest : Bytes) :
    isValidUTF8 (s.take n ++ rest) = isValidUTF8 rest := by
  have hlength : (s.take n).length = n := List.length_take_of_le (charLength_bounds h).2
  rw [isValidUTF8_of_charLength (charLength_take_append h rest), List.drop_left' hlength]

/-! ## Texts that are sanitised -/

/-- What has become of a text: it is valid, and a `?` stands for each byte that is gone. -/
structure IsSanitized (s t : Bytes) : Prop where
  valid : isValidUTF8 t = true
  length_eq : t.length = s.length
  kept : List.Forall₂ (fun b b' => b' = b ∨ b' = 63) s t
  same : isValidUTF8 s = true → t = s

/-- The repairer leaves what the checker accepts. -/
theorem isValidUTF8_sanitizeUTF8 (s : Bytes) : isValidUTF8 (sanitizeUTF8 s) = true := by
  induction s using text_induction with
  | nil => rfl
  | stray b rest hn ih =>
    rw [sanitizeUTF8_of_stray hn, isValidUTF8_of_charLength (charLength_question _)]
    exact ih
  | char s n hn ih => rw [sanitizeUTF8_of_charLength hn, isValidUTF8_take_append hn, ih]

/-- The repairer leaves a valid text as it is. -/
theorem sanitizeUTF8_of_isValidUTF8 {s : Bytes} (h : isValidUTF8 s = true) :
    sanitizeUTF8 s = s := by
  induction s using text_induction with
  | nil => rfl
  | stray b rest hn ih =>
    rw [isValidUTF8_cons, hn] at h
    cases h
  | char s n hn ih =>
    rw [isValidUTF8_of_charLength hn] at h
    rw [sanitizeUTF8_of_charLength hn, ih h, List.take_append_drop]

theorem kept_refl (s : Bytes) : List.Forall₂ (fun b b' : UInt8 => b' = b ∨ b' = 63) s s :=
  List.forall₂_same.mpr fun _ _ => .inl rfl

/-- Byte by byte, a text is left or replaced. -/
theorem kept_sanitizeUTF8 (s : Bytes) :
    List.Forall₂ (fun b b' => b' = b ∨ b' = 63) s (sanitizeUTF8 s) := by
  induction s using text_induction with
  | nil => exact .nil
  | stray b rest hn ih =>
    rw [sanitizeUTF8_of_stray hn]
    exact .cons (.inr rfl) ih
  | char s n hn ih =>
    rw [sanitizeUTF8_of_charLength hn]
    have happend : List.Forall₂ (fun b b' => b' = b ∨ b' = 63) (s.take n ++ s.drop n)
        (s.take n ++ sanitizeUTF8 (s.drop n)) := List.rel_append (kept_refl (s.take n)) ih
    rwa [List.take_append_drop] at happend

/-- What is done to a text keeps all of it that it can. -/
theorem isSanitized_sanitizeUTF8 (s : Bytes) : IsSanitized s (sanitizeUTF8 s) where
  valid := isValidUTF8_sanitizeUTF8 s
  length_eq := length_sanitizeUTF8 s
  kept := kept_sanitizeUTF8 s
  same := sanitizeUTF8_of_isValidUTF8

/-! ## Texts in frames -/

/-- The payload of a frame without a mask. -/
def plainPayload (frame : Bytes) : Bytes :=
  frame.drop (controlSize frame)

/-- The frames that a connection hands over behind those that it had handed over before. -/
def newFrames (c c' : Connection) : List Bytes :=
  c'.handed.drop c.handed.length

/-- ASCII in front leaves a text as valid as it is. -/
theorem isValidUTF8_append_ascii {s : Bytes} (h : ∀ b ∈ s, b < 0x80) (rest : Bytes) :
    isValidUTF8 (s ++ rest) = isValidUTF8 rest := by
  induction s with
  | nil => rfl
  | cons b s ih =>
    obtain ⟨hb, hs⟩ := List.forall_mem_cons.mp h
    have hone : charLength (b :: (s ++ rest)) = some 1 := if_pos hb
    rw [List.cons_append, isValidUTF8_of_charLength hone]
    exact ih hs

theorem isValidUTF8_of_ascii {s : Bytes} (h : ∀ b ∈ s, b < 0x80) : isValidUTF8 s = true := by
  rw [← List.append_nil s, isValidUTF8_append_ascii h]
  rfl

theorem plainPayload_encodeFrame (base64 : Bool) (rdata : Bytes) (ft : FrameType) :
    plainPayload (encodeFrame base64 rdata ft) = encodeData base64 rdata ft := by
  rw [plainPayload, encodeFrame, controlSize_lengthBytes]
  exact List.drop_left' (by rw [List.length_cons, Nat.add_comm])

/-- What a text frame of `send` carries is a valid text, or base64. -/
theorem isValidUTF8_encodeData (base64 : Bool) (s : Bytes) {ft : FrameType}
    (hft : ∀ code, ft ≠ .unnamed code)
    (htext : IsText (encodeFrame base64 (sendPayload s ft) ft)) :
    isValidUTF8 (encodeData base64 (sendPayload s ft) ft) = true := by
  have hcode (h : ft ≠ .binary) : (0x80 ||| ft.code).toNat % 16 = 1 :=
    (opcode_encodeFrame h base64 _).symm.trans htext
  cases ft with
  | text =>
    have hdata : encodeData base64 (sendPayload s .text) .text = sendPayload s .text := by
      rw [encodeData, if_neg (by simp)]
    rw [hdata, sendPayload]
    by_cases hs : isValidUTF8 s = true
    · rw [if_neg (by simp [hs]), hs]
    · rw [if_pos ⟨rfl, hs⟩, isValidUTF8_sanitizeUTF8]
  | binary =>
    cases base64 with
    | true => exact isValidUTF8_of_ascii (Base64.lt_of_mem_encode _)
    | false =>
      have hop : opcode (encodeFrame false (sendPayload s .binary) .binary) =
          (0x80 ||| FrameType.binary.code).toNat % 16 := rfl
      exact absurd (hop.symm.trans htext) (by decide)
  | unnamed code => exact absurd rfl (hft code)
  | _ => exact absurd (hcode (by decide)) (by decide)

/-- `send` hands over one frame. -/
theorem newFrames_send (s : Bytes) (ft : FrameType) (polls : List Socket.SendPoll)
    (c : Connection) : newFrames c ((Connection.send s ft polls).run.run c).2 =
      [encodeFrame c.ws.base64 (sendPayload s ft) ft] := by
  have hrun : ((Connection.send s ft polls).run.run c).2 =
      (c.handOver (encodeFrame c.ws.base64 (sendPayload s ft) ft) polls).1 := by
    rw [Connection.send, run_bind_get, Connection.sendFrame, run_bind_get, run_bind_set]
    split <;> rfl
  rw [hrun, newFrames]
  exact List.drop_left' rfl

/-- A sanitised text is valid and stays as it is, and so is every text that `send` frames. -/
theorem sanitizeUTF8_sound (s : Bytes) : IsSanitized s (sanitizeUTF8 s) ∧
    sanitizeUTF8 (sanitizeUTF8 s) = sanitizeUTF8 s ∧
    ∀ (c : Connection) (ft : FrameType) (polls : List Socket.SendPoll),
      (∀ code, ft ≠ .unnamed code) →
      ∀ frame ∈ newFrames c ((Connection.send s ft polls).run.run c).2, IsText frame →
        isValidUTF8 (plainPayload frame) = true := by
  refine ⟨isSanitized_sanitizeUTF8 s,
    sanitizeUTF8_of_isValidUTF8 (isValidUTF8_sanitizeUTF8 s), ?_⟩
  intro c ft polls hft frame hframe htext
  rw [newFrames_send, List.mem_singleton] at hframe
  rw [hframe] at htext ⊢
  rw [plainPayload_encodeFrame]
  exact isValidUTF8_encodeData c.ws.base64 s hft htext

/-! ## Texts that are cleaned -/

/-- What `get_clean_utf8` should do with a text, and what `encodeXML` should write for it. -/
structure IsCleaned (s : Bytes) : Prop where
  valid : isValidUTF8 (getCleanUtf8 s) = true
  xml : isValidUTF8 (encodeXML s) = true
  sublist : (getCleanUtf8 s).Sublist s
  same : isValidUTF8 s = true → getCleanUtf8 s = s
  idempotent : getCleanUtf8 (getCleanUtf8 s) = getCleanUtf8 s

/-- The loop of `get_clean_utf8` comes to the rest of a text. -/
inductive Meets : Bytes → Bytes → Prop
  | here (text : Bytes) : Meets text text
  | next {text rest : Bytes} (hne : text ≠ [])
      (h : Meets (text.drop (getUtf8NbytesChar text).natAbs) rest) : Meets text rest

/-- Every sequence that the loop comes upon, a first byte with the bytes behind it that it announces,
encodes a scalar value: it is not overlong, no surrogate and not too large. -/
def MeetsScalars (text : Bytes) : Prop :=
  ∀ rest (n : ℕ), Meets text rest → getUtf8NbytesChar rest = n → 0 < n →
    ∃ c : Char, rest.take n = String.utf8EncodeChar c

/-- The masks and the shifts of the two checkers tell the same of a first byte. -/
theorem lead_of_sequenceLength (c : UInt8) :
    (c >>> 7 = 0 → c < 0x80) ∧
      (sequenceLength c = some 2 → ¬ c < 0x80 ∧ c &&& 0xE0 = 0xC0) ∧
      (sequenceLength c = some 3 → ¬ c < 0x80 ∧ ¬ c &&& 0xE0 = 0xC0 ∧ c &&& 0xF0 = 0xE0) ∧
      (sequenceLength c = some 4 →
        ¬ c < 0x80 ∧ ¬ c &&& 0xE0 = 0xC0 ∧ ¬ c &&& 0xF0 = 0xE0 ∧ c &&& 0xF8 = 0xF0) := by
  have hall : ∀ k < 256, (UInt8.ofNat k >>> 7 = 0 → UInt8.ofNat k < 0x80) ∧
      (sequenceLength (UInt8.ofNat k) = some 2 →
        ¬ UInt8.ofNat k < 0x80 ∧ UInt8.ofNat k &&& 0xE0 = 0xC0) ∧
      (sequenceLength (UInt8.ofNat k) = some 3 →
        ¬ UInt8.ofNat k < 0x80 ∧ ¬ UInt8.ofNat k &&& 0xE0 = 0xC0 ∧ UInt8.ofNat k &&& 0xF0 = 0xE0) ∧
      (sequenceLength (UInt8.ofNat k) = some 4 →
        ¬ UInt8.ofNat k < 0x80 ∧ ¬ UInt8.ofNat k &&& 0xE0 = 0xC0 ∧
          ¬ UInt8.ofNat k &&& 0xF0 = 0xE0 ∧ UInt8.ofNat k &&& 0xF8 = 0xF0) := by decide +kernel
  have hc := hall c.toNat c.toNat_lt
  rwa [UInt8.ofNat_toNat] at hc

/-- The lengths that a first byte announces. -/
theorem sequenceLength_cases {c : UInt8} {n : ℕ} (h : sequenceLength c = some n) :
    n = 2 ∨ n = 3 ∨ n = 4 := by
  rw [sequenceLength] at h
  split at h
  · exact .inl (Option.some.inj h).symm
  split at h
  · exact .inr (.inl (Option.some.inj h).symm)
  split at h
  · exact .inr (.inr (Option.some.inj h).symm)
  · cases h

/-- Of a sequence the checker says no or takes it whole, whatever stands behind it. -/
theorem charLength_sequence {c : UInt8} {tail : Bytes} (h : IsSequence c tail) (rest : Bytes) :
    charLength (c :: (tail ++ rest)) = charLength (c :: tail) ∧
      ∀ n, charLength (c :: tail) = some n → n = tail.length + 1 := by
  obtain ⟨hone, htwo, hthree, hfour⟩ := lead_of_sequenceLength c
  have hsome {p : Prop} [Decidable p] {k n : ℕ} (heq : (if p then some k else none) = some n) :
      n = k := by
    split at heq
    · exact (Option.some.inj heq).symm
    · cases heq
  rcases h with ⟨hascii, rfl⟩ | ⟨-, hlength, -⟩
  · have hchar (rest : Bytes) : charLength (c :: rest) = some 1 := if_pos (hone hascii)
    exact ⟨(hchar rest).trans (hchar []).symm, fun n hn =>
      (Option.some.inj ((hchar []).symm.trans hn)).symm⟩
  rcases sequenceLength_cases hlength with htail | htail | htail
  · obtain ⟨c1, rfl⟩ := List.length_eq_one_iff.mp (Nat.succ.inj htail)
    obtain ⟨h1, h2⟩ := htwo hlength
    have hchar (rest : Bytes) : charLength (c :: c1 :: rest) =
        if validChar (c &&& 0x1F) 0x80 [c1] then some 2 else none := by
      rw [charLength.eq_def]
      exact (if_neg h1).trans (if_pos h2)
    exact ⟨(hchar rest).trans (hchar []).symm, fun n hn => hsome ((hchar []).symm.trans hn)⟩
  · obtain ⟨c1, c2, rfl⟩ := List.length_eq_two.mp (Nat.succ.inj htail)
    obtain ⟨h1, h2, h3⟩ := hthree hlength
    have hchar (rest : Bytes) : charLength (c :: c1 :: c2 :: rest) =
        if validChar (c &&& 0x0F) 0x800 [c1, c2] then some 3 else none := by
      rw [charLength.eq_def]
      exact (if_neg h1).trans ((if_neg h2).trans (if_pos h3))
    exact ⟨(hchar rest).trans (hchar []).symm, fun n hn => hsome ((hchar []).symm.trans hn)⟩
  · obtain ⟨c1, c2, c3, rfl⟩ := List.length_eq_three.mp (Nat.succ.inj htail)
    obtain ⟨h1, h2, h3, h4⟩ := hfour hlength
    have hchar (rest : Bytes) : charLength (c :: c1 :: c2 :: c3 :: rest) =
        if validChar (c &&& 0x07) 0x10000 [c1, c2, c3] then some 4 else none := by
      rw [charLength.eq_def]
      exact (if_neg h1).trans ((if_neg h2).trans ((if_neg h3).trans (if_pos h4)))
    exact ⟨(hchar rest).trans (hchar []).symm, fun n hn => hsome ((hchar []).symm.trans hn)⟩

/-- A sequence in front of a text is valid if it encodes a scalar value. -/
theorem isValidUTF8_sequence_iff {c : UInt8} {tail : Bytes} (h : IsSequence c tail) (rest : Bytes) :
    isValidUTF8 (c :: (tail ++ rest)) = true ↔
      (∃ ch : Char, c :: tail = String.utf8EncodeChar ch) ∧ isValidUTF8 rest = true := by
  obtain ⟨hrest, hlength⟩ := charLength_sequence h rest
  constructor
  · intro hvalid
    cases hn : charLength (c :: tail) with
    | none =>
      rw [isValidUTF8_cons, hrest, hn] at hvalid
      cases hvalid
    | some n =>
      obtain ⟨ch, hch⟩ := exists_char_of_charLength hn
      obtain rfl := hlength n hn
      rw [isValidUTF8_of_charLength (hrest.trans hn), List.drop_succ_cons, List.drop_left] at hvalid
      rw [List.take_succ_cons, List.take_length] at hch
      exact ⟨⟨ch, hch⟩, hvalid⟩
  · rintro ⟨⟨ch, hch⟩, hvalid⟩
    rw [← List.cons_append, hch, isValidUTF8_of_charLength (charLength_utf8EncodeChar ch rest),
      List.drop_left]
    exact hvalid

/-! ### What the loop comes upon -/

theorem meetsScalars_nil : MeetsScalars [] := by
  intro rest n h hn hpos
  cases h with
  | here =>
    rw [getUtf8NbytesChar] at hn
    omega
  | next hne => exact absurd rfl hne

theorem meetsScalars_drop {text : Bytes} (h : getUtf8NbytesChar text < 0) :
    MeetsScalars text ↔ MeetsScalars (text.drop (getUtf8NbytesChar text).natAbs) := by
  constructor
  · intro hall rest n hmeets hn hpos
    refine hall rest n (.next ?_ hmeets) hn hpos
    rintro rfl
    exact absurd h (by decide)
  · intro hall rest n hmeets hn hpos
    cases hmeets with
    | here => omega
    | next _ hmeets => exact hall rest n hmeets hn hpos

theorem meetsScalars_keep {c : UInt8} {tail : Bytes} (h : IsSequence c tail) (rest : Bytes) :
    MeetsScalars (c :: (tail ++ rest)) ↔
      (∃ ch : Char, c :: tail = String.utf8EncodeChar ch) ∧ MeetsScalars rest := by
  have hn := h.getUtf8NbytesChar_append rest
  have habs : (getUtf8NbytesChar (c :: (tail ++ rest))).natAbs = tail.length + 1 := by omega
  have htake : (c :: (tail ++ rest)).take (tail.length + 1) = c :: tail := by
    rw [List.take_succ_cons, List.take_left]
  have hdrop : (c :: (tail ++ rest)).drop (tail.length + 1) = rest := by
    rw [List.drop_succ_cons, List.drop_left]
  constructor
  · intro hall
    refine ⟨htake ▸ hall _ (tail.length + 1) (.here _) hn (Nat.succ_pos _), ?_⟩
    intro rest' n hmeets
    refine hall rest' n (.next (List.cons_ne_nil _ _) ?_)
    rw [habs, hdrop]
    exact hmeets
  · rintro ⟨hchar, hall⟩ rest' n hmeets hn' hpos
    cases hmeets with
    | here =>
      obtain rfl : n = tail.length + 1 := by omega
      rw [htake]
      exact hchar
    | next _ hmeets =>
      rw [habs, hdrop] at hmeets
      exact hall rest' n hmeets hn' hpos

/-- The clean text is valid if the loop comes upon scalar values only. -/
theorem isValidUTF8_getCleanUtf8_iff (s : Bytes) :
    isValidUTF8 (getCleanUtf8 s) = true ↔ MeetsScalars s := by
  induction s using clean_induction with
  | nil => exact iff_of_true rfl meetsScalars_nil
  | keep c tail rest hseq ih =>
    rw [getCleanUtf8_keep hseq, isValidUTF8_sequence_iff hseq, meetsScalars_keep hseq, ih]
  | drop text hneg ih => rw [getCleanUtf8_drop hneg, meetsScalars_drop hneg, ih]

/-- The bytes that `encodeXML` writes otherwise are ASCII, and so is what it writes. -/
theorem encodeByte_cases (c : UInt8) :
    (c >>> 7 = 0 → ∀ b ∈ encodeByte c, b < 0x80) ∧ (¬ c >>> 7 = 0 → encodeByte c = [c]) := by
  have hall : ∀ k < 256, (UInt8.ofNat k >>> 7 = 0 → ∀ b ∈ encodeByte (UInt8.ofNat k), b < 0x80) ∧
      (¬ UInt8.ofNat k >>> 7 = 0 → encodeByte (UInt8.ofNat k) = [UInt8.ofNat k]) := by
    decide +kernel
  have hc := hall c.toNat c.toNat_lt
  rwa [UInt8.ofNat_toNat] at hc

/-- A sequence of more bytes is written as it is. -/
theorem flatMap_encodeByte {s : Bytes} (h : ∀ b ∈ s, ¬ b >>> 7 = 0) : s.flatMap encodeByte = s := by
  induction s with
  | nil => rfl
  | cons b s ih =>
    obtain ⟨hb, hs⟩ := List.forall_mem_cons.mp h
    rw [List.flatMap_cons, (encodeByte_cases b).2 hb, ih hs]
    rfl

/-- What `encodeXML` writes of scalar values is valid. -/
theorem isValidUTF8_encodeXML {s : Bytes} (h : MeetsScalars s) :
    isValidUTF8 (encodeXML s) = true := by
  rw [encodeXML]
  induction s using clean_induction with
  | nil => rfl
  | keep c tail rest hseq ih =>
    obtain ⟨hchar, hrest⟩ := (meetsScalars_keep hseq rest).mp h
    rw [getCleanUtf8_keep hseq]
    by_cases hascii : c >>> 7 = 0
    · rcases hseq with ⟨-, rfl⟩ | ⟨hc, -⟩
      · rw [List.nil_append, List.flatMap_cons,
          isValidUTF8_append_ascii ((encodeByte_cases c).1 hascii)]
        exact ih hrest
      · exact absurd hascii hc
    · have hmore : ∀ b : UInt8, b >>> 6 = 0b10 → ¬ b >>> 7 = 0 := by
        have hall : ∀ k < 256, UInt8.ofNat k >>> 6 = 0b10 → ¬ UInt8.ofNat k >>> 7 = 0 := by
          decide +kernel
        intro b
        have hb := hall b.toNat b.toNat_lt
        rwa [UInt8.ofNat_toNat] at hb
      have htail : ∀ b ∈ c :: tail, ¬ b >>> 7 = 0 := by
        rcases hseq with ⟨hc, -⟩ | ⟨-, -, htail⟩
        · exact absurd hc hascii
        · exact List.forall_mem_cons.mpr ⟨hascii, fun b hb => hmore b (htail b hb)⟩
      rw [← List.cons_append, List.flatMap_append, flatMap_encodeByte htail, List.cons_append,
        isValidUTF8_sequence_iff hseq]
      exact ⟨hchar, ih hrest⟩
  | drop text hneg ih =>
    rw [getCleanUtf8_drop hneg]
    exact ih ((meetsScalars_drop hneg).mp h)

/-- A text is cleaned as it should be if the loop comes upon scalar values only. -/
theorem isCleaned_iff (s : Bytes) : IsCleaned s ↔ MeetsScalars s := by
  constructor
  · intro h
    exact (isValidUTF8_getCleanUtf8_iff s).mp h.valid
  · intro h
    refine ⟨(isValidUTF8_getCleanUtf8_iff s).mpr h, isValidUTF8_encodeXML h,
      sublist_getCleanUtf8 s, ?_, getCleanUtf8_idem s⟩
    intro hvalid
    obtain ⟨cs, rfl⟩ := exists_chars_of_isValidUTF8 hvalid
    exact getCleanUtf8_utf8 cs

/-- The overlong form of NUL is kept. -/
theorem not_isCleaned_overlong : ¬ IsCleaned [0xC0, 0x80] := by
  intro h
  have hkept : isValidUTF8 (getCleanUtf8 [0xC0, 0x80]) = false := by decide +kernel
  rw [h.valid] at hkept
  cases hkept

end VplJail.WebSocket
