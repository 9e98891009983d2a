import VplJail.Util.Base64

/-!
# WebSocket frames

The frame codec of `websocket.cpp`: `frameSize` reads the header of the first frame of a buffer,
`decodeFrame` takes that frame off the buffer, and `encodeFrame` writes an unmasked frame.
-/

namespace VplJail.WebSocket

/-- `JAIL_WEBSOCKET_FRAME_SIZE_LIMIT`: the limit for the payload of a frame. -/
def frameSizeLimit : ℕ := 20 * 1024 * 1024

/-- `FrameType`. The cast from an opcode of the wire can also give a value that the enumeration
does not name. -/
inductive FrameType
  | continuation
  | text
  | binary
  | connectionClose
  | ping
  | pong
  | error
  | unnamed (code : UInt8)
deriving DecidableEq, Repr

namespace FrameType

/-- The cast `(FrameType) opcode`. -/
def ofCode (code : UInt8) : FrameType :=
  if code = 0x00 then continuation
  else if code = 0x01 then text
  else if code = 0x02 then binary
  else if code = 0x08 then connectionClose
  else if code = 0x09 then ping
  else if code = 0x0A then pong
  else if code = 0xFF then error
  else unnamed code

/-- The value of the enumeration constant. -/
def code : FrameType → UInt8
  | continuation => 0x00
  | text => 0x01
  | binary => 0x02
  | connectionClose => 0x08
  | ping => 0x09
  | pong => 0x0A
  | error => 0xFF
  | unnamed code => code

/-- The types of a frame that carries a whole message or a control message. -/
def Known (ft : FrameType) : Prop :=
  ft = text ∨ ft = binary ∨ ft = connectionClose ∨ ft = ping ∨ ft = pong

instance (ft : FrameType) : Decidable ft.Known :=
  inferInstanceAs (Decidable (_ ∨ _))

/-- The types of the control frames. -/
def Control (ft : FrameType) : Prop :=
  ft = connectionClose ∨ ft = ping ∨ ft = pong

instance (ft : FrameType) : Decidable ft.Control :=
  inferInstanceAs (Decidable (_ ∨ _))

end FrameType

/-! ## The header -/

/-- The out parameters of `frameSize`. -/
structure FrameHeader where
  controlSize : ℕ
  maskSize : ℕ
  payloadSize : ℕ
deriving DecidableEq, Repr

/-- The size of the whole frame. -/
def FrameHeader.total (h : FrameHeader) : ℕ :=
  h.controlSize + h.maskSize + h.payloadSize

/-- The answer of `frameSize`: `-1`, `-2`, or the size, with the out parameters where they are
used. -/
inductive FrameSize
  | incomplete
  | invalid
  | size (header : FrameHeader)
deriving DecidableEq, Repr

/-- `rawdata[i]` as a number. -/
def byteAt (data : Bytes) (i : ℕ) : ℕ :=
  (data.getD i 0).toNat

/-- Bit `2 ^ k` of `rawdata[i]`. -/
def bitAt (data : Bytes) (i k : ℕ) : Bool :=
  (byteAt data i).testBit k

/-- `lengthCode`: seven bits that give the length or where it stands. -/
def lengthCode (data : Bytes) : ℕ :=
  byteAt data 1 % 128

/-- `mask_size`: the length of the mask. -/
def maskSize (data : Bytes) : ℕ :=
  if bitAt data 1 7 then 4 else 0

/-- `control_size`, as the length code sets it. -/
def controlSize (data : Bytes) : ℕ :=
  if lengthCode data < 126 then 2 else if lengthCode data = 126 then 4 else 10

/-- The two length bytes behind length code 126. -/
def length16 (data : Bytes) : ℕ :=
  byteAt data 2 <<< 8 ||| byteAt data 3

/-- The eight length bytes behind length code 127. -/
def length64 (data : Bytes) : ℕ :=
  byteAt data 2 <<< 56 ||| byteAt data 3 <<< 48 ||| byteAt data 4 <<< 40 |||
    byteAt data 5 <<< 32 ||| byteAt data 6 <<< 24 ||| byteAt data 7 <<< 16 |||
    byteAt data 8 <<< 8 ||| byteAt data 9

/-- `decodedSize`, read once the header is there. `none` is a length that the code answers `-2`
to: not in its shortest form, or with the sign bit set. -/
def decodedSize (data : Bytes) : Option ℕ :=
  if lengthCode data < 126 then some (lengthCode data)
  else if lengthCode data = 126 then
    if length16 data < 126 then none else some (length16 data)
  else
    if bitAt data 2 7 then none
    else if length64 data ≤ 0xffff then none
    else some (length64 data)

/-- `rawdata[0] & 0x0f`: the kind of the frame. -/
def opcode (data : Bytes) : ℕ :=
  byteAt data 0 % 16

/-- The checks on the first byte and the length that answer `-2`. -/
def badFrame (data : Bytes) (decodedSize : ℕ) : Bool :=
  decide (decodedSize > frameSizeLimit) ||
    (decide (opcode data ≥ 8) && !bitAt data 0 7) ||
    (decide (opcode data ≥ 8) && decide (decodedSize > 125)) ||
    (decide (opcode data = 8) && decide (decodedSize = 1))

/-- `frameSize`: the sizes of the parts of a frame, once its head is there. -/
def frameSize (data : Bytes) : FrameSize :=
  if data.length < 2 then .incomplete
  else if data.length < controlSize data then .incomplete
  else match decodedSize data with
    | none => .invalid
    | some size =>
        if badFrame data size then .invalid
        else if data.length < controlSize data + maskSize data + size then .incomplete
        else .size ⟨controlSize data, maskSize data, size⟩

/-- `isFrameComplete`: the frame is there as a whole, or it is invalid. -/
def isFrameComplete (data : Bytes) : Bool :=
  match frameSize data with
  | .incomplete => false
  | .invalid => true
  | .size header => decide (data.length ≥ header.total)

/-! ## Decoding -/

/-- `payload[i] ^ mask[i % 4]` for every index. -/
def xorMask (mask payload : Bytes) : Bytes :=
  payload.mapIdx fun i b => b ^^^ mask.getD (i % 4) 0

/-- The result of `decodeFrame`: an error text with the buffer left as it was, or the payload with
the type, the FIN bit and the rest of the buffer. With the base64 subprotocol the payload may not be
base64, and the exception leaves a buffer from which the frame has been taken. -/
inductive Decoded
  | error (message : String)
  | lengthError (rest : Bytes)
  | frame (payload : Bytes) (ft : FrameType) (fin : Bool) (rest : Bytes)
deriving DecidableEq, Repr

/-- The end of `decodeFrame`: with the base64 subprotocol a text payload is binary data. -/
def unwrapBase64 (base64 : Bool) (ret : Bytes) (ft : FrameType) (fin : Bool) (rest : Bytes) :
    Decoded :=
  if base64 && ft == .text then
    match Base64.decode ret with
    | some ret64 => .frame ret64 .binary fin rest
    | none => .lengthError rest
  else .frame ret ft fin rest

/-- `decodeFrame`. `ft` is the type of the frame before, which a continuation frame keeps. -/
def decodeFrame (base64 : Bool) (data : Bytes) (ft : FrameType) : Decoded :=
  match frameSize data with
  | .incomplete => .error "Frame size too large"
  | .invalid => .error "Invalid frame length"
  | .size header =>
      if header.maskSize = 0 then .error "Frame must be masked"
      else if byteAt data 0 / 16 % 8 ≠ 0 then .error "Websocket extensions unsupported"
      else
        let fin := bitAt data 0 7
        let ft := if opcode data ≠ 0 then .ofCode (UInt8.ofNat (opcode data)) else ft
        let mask := (data.drop header.controlSize).take 4
        let payload := (data.drop (header.controlSize + header.maskSize)).take header.payloadSize
        unwrapBase64 base64 (xorMask mask payload) ft fin (data.drop header.total)

/-! ## Encoding -/

/-- The length bytes of a header for a payload of `n` bytes, from `ret[1]` on. -/
def lengthBytes (n : ℕ) : Bytes :=
  if n ≤ 125 then [UInt8.ofNat n]
  else if n ≤ 0xffff then [126, UInt8.ofNat (n >>> 8), UInt8.ofNat (n % 256)]
  else 127 :: (List.range 8).map fun i => UInt8.ofNat (n >>> (8 * (7 - i)))

/-- The payload that `encodeFrame` writes. -/
def encodeData (base64 : Bool) (rdata : Bytes) (ft : FrameType) : Bytes :=
  if base64 && ft == .binary then Base64.encode rdata else rdata

/-- `encodeFrame`: data as one frame. -/
def encodeFrame (base64 : Bool) (rdata : Bytes) (ft : FrameType) : Bytes :=
  let data := encodeData base64 rdata ft
  let ft := if base64 && ft == .binary then .text else ft
  ((0x80 ||| ft.code) :: lengthBytes data.length) ++ data

end VplJail.WebSocket
