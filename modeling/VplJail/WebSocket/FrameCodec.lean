import VplJail.WebSocket.Frame
import Mathlib.Tactic.Ring

/-!
# The frame codec round trip

`encodeFrame` writes what the server sends, `decodeFrame` reads what a client sends, and a client's
frame is an encoded frame with a mask (`maskFrame`). `decodeFrame_maskFrame` reads such a frame back,
and `exists_maskedFrame_of_decodeFrame` shows which buffers are accepted.
-/

namespace VplJail.WebSocket

/-- The four mask bytes a client chooses. -/
structure Mask where
  m0 : UInt8
  m1 : UInt8
  m2 : UInt8
  m3 : UInt8
deriving DecidableEq, Repr

/-- The mask as it stands in the frame. -/
def Mask.bytes (m : Mask) : Bytes :=
  [m.m0, m.m1, m.m2, m.m3]

@[simp] theorem Mask.length_bytes (m : Mask) : m.bytes.length = 4 := rfl

/-- Set the mask bit in the first length byte. -/
def setMaskBit : Bytes → Bytes
  | [] => []
  | b :: bs => (b ||| 0x80) :: bs

@[simp] theorem length_setMaskBit (bs : Bytes) : (setMaskBit bs).length = bs.length := by
  cases bs <;> rfl

/-- The masked frame of a client with first byte `b0`. -/
def maskedFrame (b0 : UInt8) (mask : Mask) (payload : Bytes) : Bytes :=
  b0 :: setMaskBit (lengthBytes payload.length) ++ mask.bytes ++ xorMask mask.bytes payload

/-- Mask an encoded frame: set the mask bit, insert the mask behind the length field and xor the
payload. -/
def maskFrame (mask : Mask) (frame : Bytes) : Bytes :=
  frame.take 1 ++ setMaskBit ((frame.take (controlSize frame)).drop 1) ++ mask.bytes ++
    xorMask mask.bytes (frame.drop (controlSize frame))

/-! ## Bits and bytes -/

@[simp] theorem byteAt_cons_zero (b : UInt8) (bs : Bytes) : byteAt (b :: bs) 0 = b.toNat := rfl

@[simp] theorem byteAt_cons_succ (b : UInt8) (bs : Bytes) (i : ℕ) :
    byteAt (b :: bs) (i + 1) = byteAt bs i := rfl

theorem byteAt_lt (data : Bytes) (i : ℕ) : byteAt data i < 256 :=
  UInt8.toNat_lt _

/-- Appending does not change the bytes that are there. -/
theorem byteAt_append {data : Bytes} (more : Bytes) {i : ℕ} (h : i < data.length) :
    byteAt (data ++ more) i = byteAt data i := by
  simp [byteAt, List.getElem?_append_left h]

/-- One more byte at the low end of a big-endian number. -/
theorem mul_or_mul (k x : ℕ) {b : ℕ} (hb : b < 256) :
    x * 2 ^ (k + 8) ||| b * 2 ^ k = (x * 256 + b) * 2 ^ k := by
  have hlt : b * 2 ^ k < 2 ^ (k + 8) := by
    rw [Nat.pow_add, Nat.mul_comm]
    exact Nat.mul_lt_mul_of_pos_left hb (Nat.two_pow_pos k)
  rw [Nat.mul_comm x, ← Nat.two_pow_add_eq_or_of_lt hlt]
  ring

theorem length16_eq (data : Bytes) : length16 data = byteAt data 2 * 256 + byteAt data 3 := by
  have := mul_or_mul 0 (byteAt data 2) (byteAt_lt data 3)
  simpa [length16, Nat.shiftLeft_eq] using this

theorem length64_eq (data : Bytes) :
    length64 data = byteAt data 2 * 2 ^ 56 + byteAt data 3 * 2 ^ 48 + byteAt data 4 * 2 ^ 40 +
      byteAt data 5 * 2 ^ 32 + byteAt data 6 * 2 ^ 24 + byteAt data 7 * 2 ^ 16 +
      byteAt data 8 * 2 ^ 8 + byteAt data 9 := by
  have hlow : byteAt data 9 = byteAt data 9 * 2 ^ 0 := by simp
  simp only [length64, Nat.shiftLeft_eq]
  rw [hlow, mul_or_mul 48 _ (byteAt_lt data 3), mul_or_mul 40 _ (byteAt_lt data 4),
    mul_or_mul 32 _ (byteAt_lt data 5), mul_or_mul 24 _ (byteAt_lt data 6),
    mul_or_mul 16 _ (byteAt_lt data 7), mul_or_mul 8 _ (byteAt_lt data 8),
    mul_or_mul 0 _ (byteAt_lt data 9)]
  ring

/-- Masking twice gives the payload back. -/
@[simp] theorem xorMask_xorMask (mask payload : Bytes) :
    xorMask mask (xorMask mask payload) = payload := by
  apply List.ext_getElem
  · simp [xorMask]
  · intro i h1 h2
    have hback (a b : UInt8) : a ^^^ b ^^^ b = a := by
      rw [UInt8.xor_assoc, UInt8.xor_self, UInt8.xor_zero]
    simp [xorMask, hback]

@[simp] theorem length_xorMask (mask payload : Bytes) :
    (xorMask mask payload).length = payload.length := by
  simp [xorMask]

/-! ## The length field -/

theorem bitAt_eq (data : Bytes) (i k : ℕ) :
    bitAt data i k = decide (byteAt data i / 2 ^ k % 2 = 1) :=
  Nat.testBit_eq_decide_div_mod_eq

/-- The three forms of the length field. -/
theorem lengthBytes_cases (n : ℕ) :
    (n ≤ 125 ∧ lengthBytes n = [UInt8.ofNat n]) ∨
      (125 < n ∧ n ≤ 0xffff ∧ lengthBytes n = [126, UInt8.ofNat (n >>> 8), UInt8.ofNat (n % 256)]) ∨
      (0xffff < n ∧ lengthBytes n = [127, UInt8.ofNat (n >>> 56), UInt8.ofNat (n >>> 48),
        UInt8.ofNat (n >>> 40), UInt8.ofNat (n >>> 32), UInt8.ofNat (n >>> 24),
        UInt8.ofNat (n >>> 16), UInt8.ofNat (n >>> 8), UInt8.ofNat (n >>> 0)]) := by
  by_cases h1 : n ≤ 125
  · exact .inl ⟨h1, if_pos h1⟩
  by_cases h2 : n ≤ 0xffff
  · exact .inr (.inl ⟨by omega, h2, by rw [lengthBytes, if_neg h1, if_pos h2]⟩)
  · exact .inr (.inr ⟨by omega, by rw [lengthBytes, if_neg h1, if_neg h2]; rfl⟩)

theorem toNat_or_128 {b : UInt8} (h : b.toNat < 128) : (b ||| 0x80).toNat = b.toNat + 128 := by
  rw [UInt8.toNat_or, Nat.or_comm]
  have := Nat.two_pow_add_eq_or_of_lt (i := 7) h 1
  simp only [Nat.reducePow, Nat.mul_one] at this
  rw [show (0x80 : UInt8).toNat = 128 from rfl, ← this, Nat.add_comm]

theorem header_of_code_lt {data : Bytes} (h : lengthCode data < 126) :
    controlSize data = 2 ∧ decodedSize data = some (lengthCode data) :=
  ⟨if_pos h, if_pos h⟩

theorem header_of_code_126 {data : Bytes} (h : lengthCode data = 126) :
    controlSize data = 4 ∧
      decodedSize data = if length16 data < 126 then none else some (length16 data) := by
  simp [controlSize, decodedSize, h]

theorem header_of_code_127 {data : Bytes} (h : lengthCode data = 127) :
    controlSize data = 10 ∧
      decodedSize data =
        if bitAt data 2 7 then none
        else if length64 data ≤ 0xffff then none else some (length64 data) := by
  simp [controlSize, decodedSize, h]

section LengthField

variable (b0 : UInt8) {n : ℕ} (tail : Bytes)

/-- The header of an unmasked frame announces its own size. -/
theorem controlSize_lengthBytes :
    controlSize (b0 :: lengthBytes n ++ tail) = 1 + (lengthBytes n).length := by
  obtain ⟨h, hb⟩ | ⟨h, -, hb⟩ | ⟨h, hb⟩ := lengthBytes_cases n
  · have hn : n % 256 % 128 = n := by omega
    simp [hb, controlSize, lengthCode, byteAt, hn, show n < 126 by omega]
  · simp [hb, controlSize, lengthCode, byteAt]
  · simp [hb, controlSize, lengthCode, byteAt]

/-- The header of a masked frame announces its own size, the mask and the payload size. -/
theorem header_setMaskBit (hn : n ≤ frameSizeLimit) :
    controlSize (b0 :: setMaskBit (lengthBytes n) ++ tail) = 1 + (lengthBytes n).length ∧
      maskSize (b0 :: setMaskBit (lengthBytes n) ++ tail) = 4 ∧
      decodedSize (b0 :: setMaskBit (lengthBytes n) ++ tail) = some n := by
  rw [frameSizeLimit] at hn
  rw [maskSize, bitAt_eq]
  -- the mask bit is the high bit of the second byte: 128 on top of the length, of 126 or of 127
  obtain ⟨h, hb⟩ | ⟨h, h', hb⟩ | ⟨h, hb⟩ := lengthBytes_cases n
  · have hsize : (UInt8.ofNat n).toNat = n := UInt8.toNat_ofNat_of_lt' (by simp [UInt8.size]; omega)
    have hb1 : byteAt (b0 :: setMaskBit (lengthBytes n) ++ tail) 1 = n + 128 := by
      simp only [hb, setMaskBit, List.cons_append, byteAt_cons_succ, byteAt_cons_zero]
      rw [toNat_or_128 (by omega), hsize]
    have hcode : lengthCode (b0 :: setMaskBit (lengthBytes n) ++ tail) = n := by
      rw [lengthCode, hb1]
      omega
    obtain ⟨hc, hd⟩ := header_of_code_lt (show lengthCode _ < 126 by rw [hcode]; omega)
    refine ⟨by rw [hc, hb]; rfl, ?_, by rw [hd, hcode]⟩
    rw [hb1]
    exact if_pos (decide_eq_true (by omega))
  · have hb1 : byteAt (b0 :: setMaskBit (lengthBytes n) ++ tail) 1 = 254 := by
      rw [hb]; rfl
    have hsize : length16 (b0 :: setMaskBit (lengthBytes n) ++ tail) = n := by
      rw [length16_eq]
      simp only [hb, setMaskBit, List.cons_append, List.nil_append, byteAt_cons_succ,
        byteAt_cons_zero, UInt8.toNat_ofNat', Nat.shiftRight_eq_div_pow]
      omega
    obtain ⟨hc, hd⟩ := header_of_code_126 (show lengthCode _ = 126 by rw [lengthCode, hb1])
    refine ⟨by rw [hc, hb]; rfl, by rw [hb1]; rfl, ?_⟩
    rw [hd, hsize, if_neg (by omega)]
  · have hb1 : byteAt (b0 :: setMaskBit (lengthBytes n) ++ tail) 1 = 255 := by
      rw [hb]; rfl
    have hsize : length64 (b0 :: setMaskBit (lengthBytes n) ++ tail) = n := by
      rw [length64_eq]
      simp only [hb, setMaskBit, List.cons_append, List.nil_append, byteAt_cons_succ,
        byteAt_cons_zero, UInt8.toNat_ofNat', Nat.shiftRight_eq_div_pow]
      omega
    have hsign : bitAt (b0 :: setMaskBit (lengthBytes n) ++ tail) 2 7 = false := by
      rw [bitAt_eq]
      simp only [hb, setMaskBit, List.cons_append, List.nil_append, byteAt_cons_succ,
        byteAt_cons_zero, UInt8.toNat_ofNat', Nat.shiftRight_eq_div_pow]
      exact decide_eq_false (by omega)
    obtain ⟨hc, hd⟩ := header_of_code_127 (show lengthCode _ = 127 by rw [lengthCode, hb1])
    refine ⟨by rw [hc, hb]; rfl, by rw [hb1]; rfl, ?_⟩
    rw [hd, hsign, hsize, if_neg (by simp), if_neg (by omega)]

end LengthField

/-! ## Sizes -/

/-- What a size answer of `frameSize` says. -/
theorem frameSize_eq_size {data : Bytes} {header : FrameHeader} :
    frameSize data = .size header ↔
      header.controlSize = controlSize data ∧ header.maskSize = maskSize data ∧
        decodedSize data = some header.payloadSize ∧ badFrame data header.payloadSize = false ∧
        2 ≤ data.length ∧ header.total ≤ data.length := by
  obtain ⟨c, m, p⟩ := header
  have hc : 2 ≤ controlSize data := by
    unfold controlSize
    split <;> [omega; split <;> omega]
  simp only [frameSize, FrameHeader.total]
  constructor
  · intro h
    split at h
    · cases h
    split at h
    · cases h
    cases hd : decodedSize data with
    | none => simp [hd] at h
    | some n =>
        simp only [hd] at h
        split at h
        · cases h
        split at h
        · cases h
        obtain ⟨rfl, rfl, rfl⟩ := FrameHeader.mk.inj (FrameSize.size.inj h)
        exact ⟨rfl, rfl, rfl, by simpa using ‹¬badFrame data n = true›, by omega, by omega⟩
  · rintro ⟨rfl, rfl, hd, hb, h2, hlen⟩
    simp only [hd, hb]
    rw [if_neg (by omega), if_neg (by omega), if_neg (by simp), if_neg (by omega)]

/-! ## Reading a masked frame -/

theorem maskFrame_encodeFrame_plain (mask : Mask) (data : Bytes) (ft : FrameType) :
    maskFrame mask (encodeFrame false data ft) = maskedFrame (0x80 ||| ft.code) mask data := by
  simp only [encodeFrame, encodeData, Bool.false_and, Bool.false_eq_true, if_false]
  have hc := controlSize_lengthBytes (0x80 ||| ft.code) (n := data.length) data
  rw [maskFrame, hc]
  simp [maskedFrame, List.take_append, Nat.add_comm 1]

/-- The frame types that have an opcode of their own on the wire. -/
def FrameType.OnWire (ft : FrameType) : Prop :=
  ft = .continuation ∨ ft.Known

/-- The first byte of a frame: FIN, no extension bits and the opcode. -/
def firstByte (fin : Bool) (ft : FrameType) : UInt8 :=
  (if fin then 0x80 else 0) ||| ft.code

/-- The frames a client may send: RFC 6455 bounds control frames and forbids their fragmentation. -/
structure Legal (fin : Bool) (ft : FrameType) (n : ℕ) : Prop where
  onWire : ft.OnWire
  le_limit : n ≤ frameSizeLimit
  control : ft.Control → fin = true ∧ n ≤ 125
  close : ft = .connectionClose → n ≠ 1

section FirstByte

variable {fin : Bool} {ft : FrameType}

/-- The fields of a first byte. -/
theorem firstByte_fields (fin : Bool) (h : ft.OnWire) (tail : Bytes) :
    opcode (firstByte fin ft :: tail) = ft.code.toNat ∧
      bitAt (firstByte fin ft :: tail) 0 7 = fin ∧
      byteAt (firstByte fin ft :: tail) 0 / 16 % 8 = 0 := by
  simp only [opcode, bitAt, byteAt_cons_zero]
  obtain rfl | rfl | rfl | rfl | rfl | rfl := h <;> cases fin <;> decide

/-- The opcode on the wire names the type, except that a continuation keeps the one before. -/
theorem ofCode_code (h : ft.Known) : FrameType.ofCode (UInt8.ofNat ft.code.toNat) = ft := by
  obtain rfl | rfl | rfl | rfl | rfl := h <;> decide

theorem code_ne_zero (h : ft.Known) : ft.code.toNat ≠ 0 := by
  obtain rfl | rfl | rfl | rfl | rfl := h <;> decide

/-- A legal frame passes the checks of `frameSize`. -/
theorem badFrame_of_legal {n : ℕ} (h : Legal fin ft n) (tail : Bytes) :
    badFrame (firstByte fin ft :: tail) n = false := by
  obtain ⟨hop, hfin, -⟩ := firstByte_fields fin h.onWire tail
  have hle := h.le_limit
  have hcontrol := h.control
  have hclose := h.close
  simp only [badFrame, hop, hfin]
  obtain rfl | rfl | rfl | rfl | rfl | rfl := h.onWire <;>
    simp_all [FrameType.Control, FrameType.code]

end FirstByte

section MaskedFrame

variable {fin : Bool} {ft : FrameType} {p : Bytes} (mask : Mask) (trailing : Bytes)

theorem maskedFrame_append (b0 : UInt8) :
    maskedFrame b0 mask p ++ trailing =
      b0 :: setMaskBit (lengthBytes p.length) ++
        (mask.bytes ++ (xorMask mask.bytes p ++ trailing)) := by
  simp [maskedFrame]

/-- The size of a legal masked frame is known as soon as it is there. -/
theorem frameSize_maskedFrame (h : Legal fin ft p.length) :
    frameSize (maskedFrame (firstByte fin ft) mask p ++ trailing) =
      .size ⟨1 + (lengthBytes p.length).length, 4, p.length⟩ := by
  rw [maskedFrame_append]
  obtain ⟨hc, hm, hd⟩ := header_setMaskBit (firstByte fin ft)
    (mask.bytes ++ (xorMask mask.bytes p ++ trailing)) h.le_limit
  refine frameSize_eq_size.mpr ⟨hc.symm, hm.symm, hd, ?_, ?_, ?_⟩
  · exact badFrame_of_legal h _
  · simp
    omega
  · simp [FrameHeader.total]
    omega

/-- A legal masked frame is taken off the buffer and unmasked. -/
theorem decodeFrame_maskedFrame (base64 : Bool) (h : Legal fin ft p.length) (ft0 : FrameType) :
    decodeFrame base64 (maskedFrame (firstByte fin ft) mask p ++ trailing) ft0 =
      unwrapBase64 base64 p (if ft = .continuation then ft0 else ft) fin trailing := by
  have hsize := frameSize_maskedFrame mask trailing h
  rw [maskedFrame_append, List.cons_append] at hsize ⊢
  obtain ⟨hop, hfin, hrsv⟩ := firstByte_fields fin h.onWire
    (setMaskBit (lengthBytes p.length) ++ (mask.bytes ++ (xorMask mask.bytes p ++ trailing)))
  have hmask : (firstByte fin ft :: (setMaskBit (lengthBytes p.length) ++
      (mask.bytes ++ (xorMask mask.bytes p ++ trailing)))).drop (1 + (lengthBytes p.length).length) =
      mask.bytes ++ (xorMask mask.bytes p ++ trailing) := by
    simp [Nat.add_comm 1]
  generalize hb : firstByte fin ft :: (setMaskBit (lengthBytes p.length) ++
    (mask.bytes ++ (xorMask mask.bytes p ++ trailing))) = buffer at *
  have hpayload : buffer.drop (1 + (lengthBytes p.length).length + 4) =
      xorMask mask.bytes p ++ trailing := by
    rw [← List.drop_drop, hmask]
    rfl
  have hrest : buffer.drop (1 + (lengthBytes p.length).length + 4 + p.length) = trailing := by
    rw [← List.drop_drop, hpayload]
    simp
  have htype : (if ft.code.toNat ≠ 0 then FrameType.ofCode (UInt8.ofNat ft.code.toNat) else ft0) =
      if ft = .continuation then ft0 else ft := by
    obtain rfl | hk := h.onWire
    · rfl
    · have hne : ft ≠ .continuation := by
        rintro rfl
        simp_all [FrameType.Known]
      rw [if_pos (code_ne_zero hk), ofCode_code hk, if_neg hne]
  simp only [decodeFrame, hsize, hrsv, hop, hfin, htype, hmask, hpayload, hrest, FrameHeader.total]
  simp [Mask.bytes]

end MaskedFrame

/-! ## What is accepted -/

theorem ofNat_eq_of_toNat {b : UInt8} {n : ℕ} (h : n % 2 ^ 8 = b.toNat) : UInt8.ofNat n = b := by
  rw [← UInt8.toNat_inj, UInt8.toNat_ofNat', h]

/-- A header with the mask bit is the canonical one of the size that it announces. -/
theorem eq_cons_setMaskBit {data : Bytes} {n : ℕ} (h2 : 2 ≤ data.length)
    (hlen : controlSize data ≤ data.length) (hm : maskSize data = 4)
    (hd : decodedSize data = some n) :
    ∃ b0 tail, data = b0 :: setMaskBit (lengthBytes n) ++ tail := by
  obtain ⟨b0, b1, tl, rfl⟩ : ∃ b0 b1 tl, data = b0 :: b1 :: tl := by
    match data, h2 with
    | b0 :: b1 :: tl, _ => exact ⟨b0, b1, tl, rfl⟩
  -- the second byte is the mask bit and the code of the length
  have hbit : b1.toNat / 2 ^ 7 % 2 = 1 := by
    by_contra hb
    rw [maskSize, bitAt_eq, byteAt_cons_succ, byteAt_cons_zero, decide_eq_false hb] at hm
    cases hm
  have hb1 := UInt8.toNat_lt b1
  have hcode : b1.toNat = lengthCode (b0 :: b1 :: tl) + 128 := by
    simp only [lengthCode, byteAt_cons_succ, byteAt_cons_zero]
    omega
  obtain hc | hc | hc : lengthCode (b0 :: b1 :: tl) < 126 ∨ lengthCode (b0 :: b1 :: tl) = 126 ∨
      lengthCode (b0 :: b1 :: tl) = 127 := by omega
  · -- the code is the length
    obtain ⟨-, hsize⟩ := header_of_code_lt hc
    obtain rfl : lengthCode (b0 :: b1 :: tl) = n := by simpa [hsize] using hd
    have hn : (UInt8.ofNat (lengthCode (b0 :: b1 :: tl))).toNat = lengthCode (b0 :: b1 :: tl) := by
      rw [UInt8.toNat_ofNat']
      omega
    have : UInt8.ofNat (lengthCode (b0 :: b1 :: tl)) ||| 0x80 = b1 := by
      rw [← UInt8.toNat_inj, toNat_or_128 (by omega), hn, hcode]
    refine ⟨b0, tl, ?_⟩
    rw [lengthBytes, if_pos (by omega)]
    simp [setMaskBit, this]
  · -- the length is in two bytes, since it is too long for the code
    obtain ⟨hsize, hn⟩ := header_of_code_126 hc
    obtain ⟨b2, b3, tl, rfl⟩ : ∃ b2 b3 tl', tl = b2 :: b3 :: tl' := by
      match tl, hsize ▸ hlen with
      | b2 :: b3 :: tl, _ => exact ⟨b2, b3, tl, rfl⟩
    rw [hn] at hd
    split at hd
    · cases hd
    obtain rfl := Option.some.inj hd
    obtain rfl : (0xfe : UInt8) = b1 := ofNat_eq_of_toNat (n := 0xfe) (by omega)
    have hn := length16_eq (b0 :: 0xfe :: b2 :: b3 :: tl)
    simp only [byteAt_cons_succ, byteAt_cons_zero] at hn
    have h2 := UInt8.toNat_lt b2
    have h3 := UInt8.toNat_lt b3
    refine ⟨b0, tl, ?_⟩
    rw [lengthBytes, if_neg (by omega), if_pos (by omega), hn,
      ofNat_eq_of_toNat (b := b2) (by rw [Nat.shiftRight_eq_div_pow]; omega),
      ofNat_eq_of_toNat (b := b3) (by omega)]
    rfl
  · -- the length is in eight bytes, since it is too long for two
    obtain ⟨hsize, hn⟩ := header_of_code_127 hc
    obtain ⟨b2, b3, b4, b5, b6, b7, b8, b9, tl, rfl⟩ : ∃ b2 b3 b4 b5 b6 b7 b8 b9 tl',
        tl = b2 :: b3 :: b4 :: b5 :: b6 :: b7 :: b8 :: b9 :: tl' := by
      match tl, hsize ▸ hlen with
      | b2 :: b3 :: b4 :: b5 :: b6 :: b7 :: b8 :: b9 :: tl, _ =>
        exact ⟨b2, b3, b4, b5, b6, b7, b8, b9, tl, rfl⟩
    rw [hn] at hd
    split at hd
    · cases hd
    split at hd
    · cases hd
    obtain rfl := Option.some.inj hd
    obtain rfl : (0xff : UInt8) = b1 := ofNat_eq_of_toNat (n := 0xff) (by omega)
    have hn := length64_eq (b0 :: 0xff :: b2 :: b3 :: b4 :: b5 :: b6 :: b7 :: b8 :: b9 :: tl)
    simp only [byteAt_cons_succ, byteAt_cons_zero] at hn
    have h2 := UInt8.toNat_lt b2
    have h3 := UInt8.toNat_lt b3
    have h4 := UInt8.toNat_lt b4
    have h5 := UInt8.toNat_lt b5
    have h6 := UInt8.toNat_lt b6
    have h7 := UInt8.toNat_lt b7
    have h8 := UInt8.toNat_lt b8
    have h9 := UInt8.toNat_lt b9
    generalize length64 _ = n at *
    obtain ⟨h, -⟩ | ⟨-, h, -⟩ | ⟨-, hbytes⟩ := lengthBytes_cases n
    · omega
    · omega
    refine ⟨b0, tl, ?_⟩
    simp only [Nat.shiftRight_eq_div_pow] at hbytes
    rw [hbytes, ofNat_eq_of_toNat (b := b2) (by omega), ofNat_eq_of_toNat (b := b3) (by omega),
      ofNat_eq_of_toNat (b := b4) (by omega), ofNat_eq_of_toNat (b := b5) (by omega),
      ofNat_eq_of_toNat (b := b6) (by omega), ofNat_eq_of_toNat (b := b7) (by omega),
      ofNat_eq_of_toNat (b := b8) (by omega), ofNat_eq_of_toNat (b := b9) (by omega)]
    rfl

theorem FrameType.code_ofCode (c : UInt8) : (FrameType.ofCode c).code = c := by
  unfold FrameType.ofCode
  repeat' split
  all_goals simp_all [FrameType.code]

/-- What a frame answer of `decodeFrame` says in plain mode. -/
theorem decodeFrame_plain_eq_frame {data p rest : Bytes} {ft ft0 : FrameType} {fin : Bool}
    (h : decodeFrame false data ft0 = .frame p ft fin rest) :
    ∃ header, frameSize data = .size header ∧ header.maskSize ≠ 0 ∧
      byteAt data 0 / 16 % 8 = 0 ∧ fin = bitAt data 0 7 ∧
      ft = (if opcode data ≠ 0 then .ofCode (UInt8.ofNat (opcode data)) else ft0) ∧
      p = xorMask ((data.drop header.controlSize).take 4)
        ((data.drop (header.controlSize + header.maskSize)).take header.payloadSize) ∧
      rest = data.drop header.total := by
  rw [decodeFrame] at h
  cases hs : frameSize data with
  | incomplete => simp [hs] at h
  | invalid => simp [hs] at h
  | size header =>
      simp only [hs] at h
      split at h
      · cases h
      split at h
      · cases h
      simp only [unwrapBase64, Bool.false_and, Bool.false_eq_true, if_false] at h
      obtain ⟨rfl, rfl, rfl, rfl⟩ := Decoded.frame.inj h
      exact ⟨header, rfl, ‹_›, not_not.mp ‹_›, rfl, rfl, rfl, rfl⟩

/-- The first byte of a final frame without extension bits. -/
theorem eq_firstByte {b0 : UInt8} (ft : FrameType) (hfin : b0.toNat.testBit 7 = true)
    (hrsv : b0.toNat / 16 % 8 = 0) (hop : ft.code = UInt8.ofNat (b0.toNat % 16)) :
    b0 = firstByte true ft := by
  have hb0 := UInt8.toNat_lt b0
  have hop' : ft.code.toNat = b0.toNat % 16 := by
    rw [hop, UInt8.toNat_ofNat']
    omega
  rw [Nat.testBit_eq_decide_div_mod_eq] at hfin
  have hbit := of_decide_eq_true hfin
  have hor : (ft.code ||| 0x80).toNat = b0.toNat := by
    rw [toNat_or_128 (by omega)]
    omega
  rw [firstByte, if_pos rfl, UInt8.or_comm, ← UInt8.toNat_inj, hor]

/-- A buffer on which `decodeFrame` succeeds with FIN starts with a masked frame of the type, or of
a continuation where the type is the one before. -/
theorem exists_maskedFrame_of_decodeFrame {data p rest : Bytes} {ft ft0 : FrameType}
    (h : decodeFrame false data ft0 = .frame p ft true rest) :
    ∃ mask, data = maskedFrame (firstByte true ft) mask p ++ rest ∨
      (ft = ft0 ∧ data = maskedFrame (firstByte true .continuation) mask p ++ rest) := by
  obtain ⟨header, hs, hm, hrsv, hfin, hft, rfl, rfl⟩ := decodeFrame_plain_eq_frame h
  obtain ⟨hcontrol, hmask, hsize, hbad, h2, hlen⟩ := frameSize_eq_size.mp hs
  have hlimit : header.payloadSize ≤ frameSizeLimit := by
    simp only [badFrame, Bool.or_eq_false_iff, decide_eq_false_iff_not] at hbad
    omega
  have hm4 : maskSize data = 4 := by
    rw [hmask, maskSize] at hm
    rw [maskSize]
    split <;> simp_all
  simp only [FrameHeader.total, hcontrol, hmask, hm4] at hlen ⊢
  obtain ⟨b0, tail, hdata⟩ := eq_cons_setMaskBit h2 (by omega) hm4 hsize
  generalize header.payloadSize = n at *
  have hc : controlSize data = 1 + (lengthBytes n).length := by
    rw [hdata]
    exact (header_setMaskBit b0 tail hlimit).1
  have htail : data.drop (controlSize data) = tail := by
    rw [hc, hdata]
    simp [Nat.add_comm 1]
  have hlength : data.length = controlSize data + tail.length := by
    rw [hc, hdata]
    simp
    omega
  obtain ⟨m0, m1, m2, m3, tail, rfl⟩ : ∃ m0 m1 m2 m3 tl, tail = m0 :: m1 :: m2 :: m3 :: tl := by
    match tail, (show 4 ≤ tail.length by omega) with
    | m0 :: m1 :: m2 :: m3 :: tl, _ => exact ⟨m0, m1, m2, m3, tl, rfl⟩
  have hpayload : data.drop (controlSize data + 4) = tail := by
    rw [← List.drop_drop, htail]
    rfl
  have hrest : data.drop (controlSize data + 4 + n) = tail.drop n := by
    rw [← List.drop_drop, hpayload]
  have htake : (tail.take n).length = n := by
    simp at hlength ⊢
    omega
  rw [htail, hpayload, hrest]
  have hop : opcode data = b0.toNat % 16 := by rw [hdata]; rfl
  have hb7 : b0.toNat.testBit 7 = true := by rw [hfin, hdata]; rfl
  have hrsv : b0.toNat / 16 % 8 = 0 := by rw [← hrsv, hdata]; rfl
  -- the frame behind its first byte
  have hframe : data = maskedFrame b0 ⟨m0, m1, m2, m3⟩
      (xorMask [m0, m1, m2, m3] (tail.take n)) ++ tail.drop n := by
    rw [maskedFrame_append, length_xorMask, htake]
    simp [Mask.bytes, hdata]
  refine ⟨⟨m0, m1, m2, m3⟩, ?_⟩
  by_cases h0 : opcode data = 0
  · rw [if_neg (not_not.mpr h0)] at hft
    rw [eq_firstByte .continuation hb7 hrsv (by rw [← hop, h0]; rfl)] at hframe
    exact .inr ⟨hft, hframe⟩
  · rw [if_pos h0] at hft
    rw [eq_firstByte ft hb7 hrsv (by rw [← hop, hft, FrameType.code_ofCode])] at hframe
    exact .inl hframe

/-! ## The round trip -/

section RoundTrip

variable {base64 : Bool} {ft : FrameType} {payload : Bytes}

/-- An encoded frame is a plain frame of the data written, which is text for base64 data. -/
theorem encodeFrame_eq_plain (base64 : Bool) (payload : Bytes) (ft : FrameType) :
    encodeFrame base64 payload ft =
      encodeFrame false (encodeData base64 payload ft)
        (if base64 && ft == .binary then .text else ft) := by
  simp [encodeFrame, encodeData]

/-- The receiver undoes what the sender did to the payload. -/
theorem unwrapBase64_encodeData (hbase64 : base64 = true → ft ≠ .text) (fin : Bool) (rest : Bytes) :
    unwrapBase64 base64 (encodeData base64 payload ft)
      (if base64 && ft == .binary then .text else ft) fin rest = .frame payload ft fin rest := by
  cases base64 with
  | false => simp [unwrapBase64, encodeData]
  | true =>
      by_cases hb : ft = .binary
      · simp [unwrapBase64, encodeData, hb, Base64.decode_encode]
      · simp [unwrapBase64, encodeData, hb, hbase64 rfl]

/-- The frame that the sender writes is legal. -/
theorem legal_encodeData (hft : ft.Known) (hcontrol : ft.Control → payload.length ≤ 125)
    (hclose : ft = .connectionClose → payload.length ≠ 1)
    (hlimit : (encodeData base64 payload ft).length ≤ frameSizeLimit) :
    Legal true (if base64 && ft == .binary then .text else ft)
      (encodeData base64 payload ft).length := by
  by_cases hb : (base64 && ft == .binary) = true
  · refine ⟨.inr ?_, hlimit, ?_, ?_⟩ <;> simp [hb, FrameType.Known, FrameType.Control]
  · have hdata : encodeData base64 payload ft = payload := if_neg hb
    rw [hdata] at hlimit ⊢
    rw [if_neg hb]
    exact ⟨.inr hft, hlimit, fun hc => ⟨rfl, hcontrol hc⟩, hclose⟩

/-- A masked encoded frame is read back and the rest of the buffer is left. -/
theorem decodeFrame_maskFrame (hft : ft.Known) (hbase64 : base64 = true → ft ≠ .text)
    (hcontrol : ft.Control → payload.length ≤ 125)
    (hclose : ft = .connectionClose → payload.length ≠ 1)
    (hlimit : (encodeData base64 payload ft).length ≤ frameSizeLimit)
    (mask : Mask) (trailing : Bytes) (ft0 : FrameType) :
    decodeFrame base64 (maskFrame mask (encodeFrame base64 payload ft) ++ trailing) ft0 =
      .frame payload ft true trailing := by
  have hlegal := legal_encodeData hft hcontrol hclose hlimit
  have htype : (if base64 && ft == .binary then FrameType.text else ft) ≠ .continuation := by
    split
    · exact FrameType.noConfusion
    · rintro rfl
      simp [FrameType.Known] at hft
  rw [encodeFrame_eq_plain, maskFrame_encodeFrame_plain]
  refine (decodeFrame_maskedFrame mask trailing base64 hlegal ft0).trans ?_
  rw [if_neg htype, unwrapBase64_encodeData hbase64]

end RoundTrip

/-- `decodeFrame` reads back what `encodeFrame` writes, once it is masked, and in plain mode a final
frame is such a frame or a continuation that takes the type of the frame before. -/
theorem frame_codec :
    (∀ (base64 : Bool) (payload : Bytes) (ft : FrameType) (mask : Mask) (trailing : Bytes)
      (ft0 : FrameType), ft.Known → (base64 = true → ft ≠ .text) →
      (ft.Control → payload.length ≤ 125) → (ft = .connectionClose → payload.length ≠ 1) →
      (encodeData base64 payload ft).length ≤ frameSizeLimit →
      decodeFrame base64 (maskFrame mask (encodeFrame base64 payload ft) ++ trailing) ft0 =
        .frame payload ft true trailing) ∧
    (∀ (data : Bytes) (ft0 : FrameType) (payload : Bytes) (ft : FrameType) (rest : Bytes),
      decodeFrame false data ft0 = .frame payload ft true rest →
      ∃ mask, data = maskFrame mask (encodeFrame false payload ft) ++ rest ∨
        (ft = ft0 ∧ data = maskFrame mask (encodeFrame false payload .continuation) ++ rest)) := by
  refine ⟨fun base64 payload ft mask trailing ft0 hft hbase64 hcontrol hclose hlimit =>
    decodeFrame_maskFrame hft hbase64 hcontrol hclose hlimit mask trailing ft0, ?_⟩
  intro data ft0 payload ft rest h
  obtain ⟨mask, hmask⟩ := exists_maskedFrame_of_decodeFrame h
  refine ⟨mask, ?_⟩
  rw [maskFrame_encodeFrame_plain, maskFrame_encodeFrame_plain]
  exact hmask

/-- A base64 frame read back, and a plain frame taken apart. -/
theorem frame_codec_hello :
    decodeFrame true
        (maskFrame ⟨1, 2, 3, 4⟩ (encodeFrame true (ascii "hello") .binary) ++ [7]) .pong =
      .frame (ascii "hello") .binary true [7] ∧
    ∃ mask, [0x81, 0x81, 0, 0, 0, 0, 65, 66] =
        maskFrame mask (encodeFrame false (ascii "A") .text) ++ ascii "B" ∨
      (FrameType.text = .ping ∧ [0x81, 0x81, 0, 0, 0, 0, 65, 66] =
        maskFrame mask (encodeFrame false (ascii "A") .continuation) ++ ascii "B") :=
  ⟨frame_codec.1 true (ascii "hello") .binary ⟨1, 2, 3, 4⟩ [7] .pong (by decide) (by decide)
      (by decide) (by decide) (by decide),
    frame_codec.2 [0x81, 0x81, 0, 0, 0, 0, 65, 66] .ping (ascii "A") .text (ascii "B") (by decide)⟩

/-- A final continuation after a text frame succeeds as text, but it is no text frame. -/
theorem continuation_not_canonical :
    decodeFrame false [0x80, 0x80, 0, 0, 0, 0] .text = .frame [] .text true [] ∧
      ¬ ∃ mask trailing, ([0x80, 0x80, 0, 0, 0, 0] : Bytes) =
        maskFrame mask (encodeFrame false [] .text) ++ trailing := by
  refine ⟨by decide, ?_⟩
  rintro ⟨mask, trailing, h⟩
  rw [maskFrame_encodeFrame_plain] at h
  exact absurd (List.cons.inj h).1 (by decide)

end VplJail.WebSocket
