/-!
# Wire messages and errors

Every frame is `[u8 msg_type][u16 length LE][payload]`.  `Message` lists the
variants of the protocol with their payload fields.
-/

namespace Kmwarp.Wire

def protoVersion : UInt16 := 1

/-- Largest payload the `u16` length field can announce. -/
def maxPayloadLen : Nat := 65535

def frameHeaderLen : Nat := 3

namespace MsgType

def hello : UInt8 := 0x01

def helloAck : UInt8 := 0x02

def mouseMoveRel : UInt8 := 0x10

def mouseButton : UInt8 := 0x11

def mouseWheel : UInt8 := 0x12

def keyEvent : UInt8 := 0x20

def clipboardText : UInt8 := 0x30

def takeControl : UInt8 := 0x40

def releaseControl : UInt8 := 0x41

def pairSpakeA : UInt8 := 0x50

def pairSpakeB : UInt8 := 0x51

def pairCertExchange : UInt8 := 0x52

def pairAccepted : UInt8 := 0x53

def pairRejected : UInt8 := 0x54

def echoPing : UInt8 := 0x70

def echoPong : UInt8 := 0x71

def heartbeat : UInt8 := 0xFE

def bye : UInt8 := 0xFF

end MsgType

namespace MouseButtonCode

def left : UInt8 := 0

def right : UInt8 := 1

def middle : UInt8 := 2

def x1 : UInt8 := 3

def x2 : UInt8 := 4

end MouseButtonCode

namespace KeyStateCode

def up : UInt8 := 0

def down : UInt8 := 1

end KeyStateCode

/-- A 32-byte array: an HMAC tag, a SHA-256 digest or a shared key. -/
abbrev Bytes32 := Vector UInt8 32

inductive Message where
  | hello (protoVersion : UInt16) (peerName : String)
  | helloAck (accepted : Bool) (serverScreenPx : UInt16 × UInt16)
  | mouseMoveRel (dx dy : Int16)
  | mouseButton (button state : UInt8)
  | mouseWheel (dx dy : Int16)
  | keyEvent (hidUsage : UInt16) (state modifiers : UInt8)
  | clipboardText (chunkFlags : UInt8) (bytes : List UInt8)
  | takeControl (entryY : UInt16)
  | releaseControl (exitY : UInt16)
  | heartbeat (seq : UInt32)
  | bye (reasonCode : UInt8)
  | echoPing (tsNs : UInt64)
  | echoPong (tsNs : UInt64)
  | pairSpakeA (msg : List UInt8)
  | pairSpakeB (msg : List UInt8)
  | pairCertExchange (certDer : List UInt8) (hmac : Bytes32)
  | pairAccepted
  | pairRejected (reasonCode : UInt8)
deriving DecidableEq, Repr

/-- The standard library's UTF-8 error is a function of the bytes that failed
to decode; they stand for it here. -/
structure Utf8Error where
  bytes : List UInt8
deriving DecidableEq, Repr

inductive WireError where
  | shortBuffer
  | unknownMsgType (byte : UInt8)
  | payloadTooLong (len max : UInt16)
  | utf8 (error : Utf8Error)
  | invalidPayload (reason : String)
deriving DecidableEq, Repr

end Kmwarp.Wire
