/-!
# Platform-independent input vocabulary

The event types shared by the macOS capture side and the Windows injection
side, and the calls an `InputSink` implementor can receive.  A sink is
represented by the list of calls made on it.
-/

namespace Kmwarp

inductive KeyState where
  | up
  | down
deriving DecidableEq, Repr

def KeyState.isDown : KeyState → Bool
  | .up => false
  | .down => true

@[simp] theorem KeyState.isDown_up : KeyState.up.isDown = false := rfl

@[simp] theorem KeyState.isDown_down : KeyState.down.isDown = true := rfl

inductive MouseButton where
  | left
  | right
  | middle
  | x1
  | x2
deriving DecidableEq, Repr

/-- Modifier bits carried by every key event: shift, ctrl, alt, meta in bits
0 to 3, the rest reserved. -/
structure ModMask where
  bits : UInt8 := 0
deriving DecidableEq, Repr

namespace ModMask

def shift : ModMask := ⟨(1 : UInt8) <<< 0⟩

def ctrl : ModMask := ⟨(1 : UInt8) <<< 1⟩

def alt : ModMask := ⟨(1 : UInt8) <<< 2⟩

def metaKey : ModMask := ⟨(1 : UInt8) <<< 3⟩

def definedBits : UInt8 := 0x0F

def contains (mask other : ModMask) : Bool :=
  mask.bits &&& other.bits == other.bits

def insert (mask other : ModMask) : ModMask :=
  ⟨mask.bits ||| other.bits⟩

def fromWire (byte : UInt8) : ModMask :=
  ⟨byte &&& definedBits⟩

def toWire (mask : ModMask) : UInt8 :=
  mask.bits &&& definedBits

end ModMask

/-- Event emitted by an `InputSource`.  `cursorAt` never goes on the wire. -/
inductive SourceEvent where
  | mouseRel (dx dy : Int16)
  | mouseButton (button : MouseButton) (state : KeyState)
  | mouseWheel (dx dy : Int16)
  | key (hidUsage : UInt16) (state : KeyState) (mods : ModMask)
  | cursorAt (x y : Int)
deriving DecidableEq, Repr

/-- One call of an `InputSink` method. -/
inductive SinkCall where
  | injectMouseRel (dx dy : Int)
  | injectMouseButton (button : MouseButton) (state : KeyState)
  | injectMouseWheel (dx dy : Int16)
  | injectKey (hid : UInt16) (state : KeyState) (mods : ModMask)
  | warpCursorAbs (x y : Int)
  | hideCursor
  | showCursor
deriving DecidableEq, Repr

/-- An error of the operating system, by its text. -/
structure IoError where
  text : String
deriving DecidableEq, Repr

end Kmwarp
