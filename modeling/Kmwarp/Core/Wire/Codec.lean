import Kmwarp.Core.Wire.Message
import Kmwarp.Foundation.LittleEndian

/-!
# Frame encoder and decoder

`encodeFrame` appends one frame to a buffer; `decodeFrame` consumes one frame
from the front of a buffer, or leaves the buffer as it is.
-/

namespace Kmwarp.Wire

open Foundation

/-! ## Encoding -/

/-- An encoder over a byte buffer.  What has been written stays in the buffer
when a later step fails. -/
abbrev Encoder := ExceptT WireError (StateM (List UInt8))

def putSlice (bytes : List UInt8) : Encoder Unit :=
  modify fun buf => buf ++ bytes

def putU8 (byte : UInt8) : Encoder Unit :=
  putSlice [byte]

def putU16Le (value : UInt16) : Encoder Unit :=
  putSlice (toLe 2 value.toNat)

def putI16Le (value : Int16) : Encoder Unit :=
  putSlice (toLe 2 value.toUInt16.toNat)

def putU32Le (value : UInt32) : Encoder Unit :=
  putSlice (toLe 4 value.toNat)

def putU64Le (value : UInt64) : Encoder Unit :=
  putSlice (toLe 8 value.toNat)

/-- `u16::try_from` on a length. -/
def u16TryFrom (len : Nat) : Option UInt16 :=
  if len ≤ 65535 then some (UInt16.ofNat len) else none

/-- The error carries the length saturated to `u16`. -/
def tooLong (len : Nat) : WireError :=
  .payloadTooLong ((u16TryFrom len).getD 65535) (UInt16.ofNat maxPayloadLen)

def checkPayloadLen (len : Nat) : Except WireError UInt16 :=
  if len > maxPayloadLen then .error (tooLong len) else .ok (UInt16.ofNat len)

def checkInnerLen (len : Nat) : Except WireError UInt16 :=
  match u16TryFrom len with
  | some short => .ok short
  | none => .error (tooLong len)

/-- `&str` to its UTF-8 bytes. -/
def asBytes (text : String) : List UInt8 :=
  text.toUTF8.data.toList

def encodeFrame : Message → Encoder Unit
  | .hello protoVersion peerName => do
      let nameBytes := asBytes peerName
      -- proto_version (2) + name_len (2) + name_bytes
      let payloadLen ← checkPayloadLen (4 + nameBytes.length)
      let nameLen ← checkInnerLen nameBytes.length
      putU8 MsgType.hello
      putU16Le payloadLen
      putU16Le protoVersion
      putU16Le nameLen
      putSlice nameBytes
  | .helloAck accepted serverScreenPx => do
      putU8 MsgType.helloAck
      putU16Le 5
      putU8 (if accepted then 1 else 0)
      putU16Le serverScreenPx.1
      putU16Le serverScreenPx.2
  | .mouseMoveRel dx dy => do
      putU8 MsgType.mouseMoveRel
      putU16Le 4
      putI16Le dx
      putI16Le dy
  | .mouseButton button state => do
      putU8 MsgType.mouseButton
      putU16Le 2
      putU8 button
      putU8 state
  | .mouseWheel dx dy => do
      putU8 MsgType.mouseWheel
      putU16Le 4
      putI16Le dx
      putI16Le dy
  | .keyEvent hidUsage state modifiers => do
      putU8 MsgType.keyEvent
      putU16Le 4
      putU16Le hidUsage
      putU8 state
      putU8 modifiers
  | .clipboardText chunkFlags bytes => do
      -- chunk_flags (1) + byte_len (2) + bytes
      let payloadLen ← checkPayloadLen (3 + bytes.length)
      let byteLen ← checkInnerLen bytes.length
      putU8 MsgType.clipboardText
      putU16Le payloadLen
      putU8 chunkFlags
      putU16Le byteLen
      putSlice bytes
  | .takeControl entryY => do
      putU8 MsgType.takeControl
      putU16Le 2
      putU16Le entryY
  | .releaseControl exitY => do
      putU8 MsgType.releaseControl
      putU16Le 2
      putU16Le exitY
  | .heartbeat seq => do
      putU8 MsgType.heartbeat
      putU16Le 4
      putU32Le seq
  | .bye reasonCode => do
      putU8 MsgType.bye
      putU16Le 1
      putU8 reasonCode
  | .echoPing tsNs => do
      putU8 MsgType.echoPing
      putU16Le 8
      putU64Le tsNs
  | .echoPong tsNs => do
      putU8 MsgType.echoPong
      putU16Le 8
      putU64Le tsNs
  | .pairSpakeA msg => do
      let payloadLen ← checkPayloadLen (2 + msg.length)
      let msgLen ← checkInnerLen msg.length
      putU8 MsgType.pairSpakeA
      putU16Le payloadLen
      putU16Le msgLen
      putSlice msg
  | .pairSpakeB msg => do
      let payloadLen ← checkPayloadLen (2 + msg.length)
      let msgLen ← checkInnerLen msg.length
      putU8 MsgType.pairSpakeB
      putU16Le payloadLen
      putU16Le msgLen
      putSlice msg
  | .pairCertExchange certDer hmac => do
      -- cert_len (2) + cert + hmac (32)
      let payloadLen ← checkPayloadLen (2 + certDer.length + 32)
      let certLen ← checkInnerLen certDer.length
      putU8 MsgType.pairCertExchange
      putU16Le payloadLen
      putU16Le certLen
      putSlice certDer
      putSlice hmac.toList
  | .pairAccepted => do
      putU8 MsgType.pairAccepted
      putU16Le 0
  | .pairRejected reasonCode => do
      putU8 MsgType.pairRejected
      putU16Le 1
      putU8 reasonCode

/-! ## Decoding -/

/-- A cursor over the unread part of a payload. -/
abbrev PayloadReader := StateT (List UInt8) (Except WireError)

def readBytes (n : Nat) : PayloadReader (List UInt8) := fun rest =>
  if n ≤ rest.length then .ok (rest.take n, rest.drop n)
  else .error .shortBuffer

def readU8 : PayloadReader UInt8 := fun rest =>
  match rest with
  | byte :: rest => .ok (byte, rest)
  | [] => .error .shortBuffer

def readU16Le : PayloadReader UInt16 := do
  return UInt16.ofNat (ofLe (← readBytes 2))

def readI16Le : PayloadReader Int16 := do
  return (UInt16.ofNat (ofLe (← readBytes 2))).toInt16

def readU32Le : PayloadReader UInt32 := do
  return UInt32.ofNat (ofLe (← readBytes 4))

def readU64Le : PayloadReader UInt64 := do
  return UInt64.ofNat (ofLe (← readBytes 8))

/-- `std::str::from_utf8`. -/
def fromUtf8 (bytes : List UInt8) : Except WireError String :=
  match String.fromUTF8? ⟨bytes.toArray⟩ with
  | some text => .ok text
  | none => .error (.utf8 ⟨bytes⟩)

/-- Copy a slice into a 32-byte array. -/
def toBytes32 (bytes : List UInt8) : Bytes32 :=
  Vector.ofFn fun index => bytes.getD index.val 0

def decodePayload (msgTypeByte : UInt8) : PayloadReader Message :=
  if msgTypeByte = MsgType.hello then do
    let protoVersion ← readU16Le
    let nameLen ← readU16Le
    let nameBytes ← readBytes nameLen.toNat
    let peerName ← fromUtf8 nameBytes
    return .hello protoVersion peerName
  else if msgTypeByte = MsgType.helloAck then do
    let acceptedByte ← readU8
    let accepted ←
      if acceptedByte = 0 then pure false
      else if acceptedByte = 1 then pure true
      else throw (.invalidPayload "HelloAck.accepted must be 0 or 1")
    let w ← readU16Le
    let h ← readU16Le
    return .helloAck accepted (w, h)
  else if msgTypeByte = MsgType.mouseMoveRel then do
    let dx ← readI16Le
    let dy ← readI16Le
    return .mouseMoveRel dx dy
  else if msgTypeByte = MsgType.mouseButton then do
    let button ← readU8
    let state ← readU8
    return .mouseButton button state
  else if msgTypeByte = MsgType.mouseWheel then do
    let dx ← readI16Le
    let dy ← readI16Le
    return .mouseWheel dx dy
  else if msgTypeByte = MsgType.keyEvent then do
    let hidUsage ← readU16Le
    let state ← readU8
    let modifiers ← readU8
    return .keyEvent hidUsage state modifiers
  else if msgTypeByte = MsgType.clipboardText then do
    let chunkFlags ← readU8
    let byteLen ← readU16Le
    let bytes ← readBytes byteLen.toNat
    return .clipboardText chunkFlags bytes
  else if msgTypeByte = MsgType.takeControl then do
    return .takeControl (← readU16Le)
  else if msgTypeByte = MsgType.releaseControl then do
    return .releaseControl (← readU16Le)
  else if msgTypeByte = MsgType.heartbeat then do
    return .heartbeat (← readU32Le)
  else if msgTypeByte = MsgType.bye then do
    return .bye (← readU8)
  else if msgTypeByte = MsgType.echoPing then do
    return .echoPing (← readU64Le)
  else if msgTypeByte = MsgType.echoPong then do
    return .echoPong (← readU64Le)
  else if msgTypeByte = MsgType.pairSpakeA then do
    let msgLen ← readU16Le
    return .pairSpakeA (← readBytes msgLen.toNat)
  else if msgTypeByte = MsgType.pairSpakeB then do
    let msgLen ← readU16Le
    return .pairSpakeB (← readBytes msgLen.toNat)
  else if msgTypeByte = MsgType.pairCertExchange then do
    let certLen ← readU16Le
    let certDer ← readBytes certLen.toNat
    let hmacBytes ← readBytes 32
    return .pairCertExchange certDer (toBytes32 hmacBytes)
  else if msgTypeByte = MsgType.pairAccepted then
    return .pairAccepted
  else if msgTypeByte = MsgType.pairRejected then do
    return .pairRejected (← readU8)
  else throw (.unknownMsgType msgTypeByte)

/-- The result and the buffer afterwards.  Only a decoded frame advances the
buffer. -/
def decodeFrame (buf : List UInt8) :
    Except WireError (Option Message) × List UInt8 :=
  match buf with
  | msgTypeByte :: lenLow :: lenHigh :: body =>
      let payloadLen := ofLe [lenLow, lenHigh]
      if body.length < payloadLen then (.ok none, buf)
      else
        match decodePayload msgTypeByte (body.take payloadLen) with
        | .error error => (.error error, buf)
        | .ok (msg, _) => (.ok (some msg), body.drop payloadLen)
  | _ => (.ok none, buf)

end Kmwarp.Wire
