import Kmwarp.Core.Platform
import Kmwarp.Core.Wire.Framing

/-!
# Framed connections

`Connection` is the handshake-time view of a byte stream, `FrameReader` and
`FrameWriter` are the halves it splits into.  The two programs carry the same
code with their own error types, so each operation is written once over the
errors and instantiated twice.
-/

namespace Kmwarp.Net

open Foundation Wire

/-- The reads the socket still has to offer.  One read is appended as a whole;
the last one is followed by EOF, which is a read of no bytes. -/
abbrev DynRead := List (List UInt8)

/-- The bytes written to the socket so far. -/
abbrev DynWrite := List UInt8

structure Connection where
  streamRead : DynRead
  streamWrite : DynWrite
  readBuf : List UInt8
deriving DecidableEq

structure FrameReader where
  readHalf : DynRead
  readBuf : List UInt8
deriving DecidableEq

structure FrameWriter where
  writeHalf : DynWrite
  scratch : List UInt8
deriving DecidableEq

/-- The two errors a frame read ends with. -/
structure ReadErrors (ε : Type) where
  wire : WireError → ε
  disconnected : ε

/-- `read_frame` on the socket's reads and the accumulated buffer. -/
def readFrameLoop {ε : Type} (errors : ReadErrors ε) :
    DynRead → List UInt8 → Except ε Message × DynRead × List UInt8
  | reads, buf =>
      match decodeFrame buf with
      | (.ok (some msg), buf) => (.ok msg, reads, buf)
      | (.error error, buf) => (.error (errors.wire error), reads, buf)
      | (.ok none, buf) =>
          match reads with
          | [] => (.error errors.disconnected, [], buf)
          | read :: reads =>
              let n := read.length
              if n = 0 then (.error errors.disconnected, reads, buf)
              else readFrameLoop errors reads (buf ++ read)

/-- `write_frame` encodes into `scratch` and writes it out. -/
def writeFrameFrom {ε : Type} (wire : WireError → ε) (msg : Message)
    (scratch : List UInt8) (written : DynWrite) :
    Except ε Unit × List UInt8 × DynWrite :=
  match runEncoder (encodeFrame msg) scratch with
  | (.ok (), scratch) => (.ok (), scratch, written ++ scratch)
  | (.error error, scratch) => (.error (wire error), scratch, written)

namespace Connection

def fromIo (stream : DynRead) : Connection where
  streamRead := stream
  streamWrite := []
  readBuf := []

def readFrameWith {ε : Type} (errors : ReadErrors ε) (connection : Connection) :
    Except ε Message × Connection :=
  let (result, reads, buf) :=
    readFrameLoop errors connection.streamRead connection.readBuf
  (result, { connection with streamRead := reads, readBuf := buf })

def writeFrameWith {ε : Type} (wire : WireError → ε) (connection : Connection)
    (msg : Message) : Except ε Unit × Connection :=
  let (result, _, written) := writeFrameFrom wire msg [] connection.streamWrite
  (result, { connection with streamWrite := written })

/-- Bytes already buffered go to the reader. -/
def intoSplit (connection : Connection) : FrameReader × FrameWriter :=
  (⟨connection.streamRead, connection.readBuf⟩, ⟨connection.streamWrite, []⟩)

end Connection

namespace FrameReader

def readFrameWith {ε : Type} (errors : ReadErrors ε) (reader : FrameReader) :
    Except ε Message × FrameReader :=
  let (result, reads, buf) := readFrameLoop errors reader.readHalf reader.readBuf
  (result, ⟨reads, buf⟩)

end FrameReader

namespace FrameWriter

def writeFrameWith {ε : Type} (wire : WireError → ε) (writer : FrameWriter)
    (msg : Message) : Except ε Unit × FrameWriter :=
  let (result, scratch, written) := writeFrameFrom wire msg [] writer.writeHalf
  (result, ⟨written, scratch⟩)

end FrameWriter

end Kmwarp.Net

namespace Kmwarp.Server

open Wire Net

inductive ServerError where
  | io (error : IoError)
  | wire (error : WireError)
  | disconnected
deriving DecidableEq

def readErrors : ReadErrors ServerError := ⟨.wire, .disconnected⟩

def Connection.readFrame (connection : Connection) :
    Except ServerError Message × Connection :=
  connection.readFrameWith readErrors

def Connection.writeFrame (connection : Connection) (msg : Message) :
    Except ServerError Unit × Connection :=
  connection.writeFrameWith .wire msg

def FrameReader.readFrame (reader : FrameReader) :
    Except ServerError Message × FrameReader :=
  reader.readFrameWith readErrors

def FrameWriter.writeFrame (writer : FrameWriter) (msg : Message) :
    Except ServerError Unit × FrameWriter :=
  writer.writeFrameWith .wire msg

end Kmwarp.Server

namespace Kmwarp.Client

open Wire Net

inductive ClientError where
  | io (error : IoError)
  | wire (error : WireError)
  | disconnected
  | handshakeRejected
  | unexpectedHandshakeFrame
deriving DecidableEq

def readErrors : ReadErrors ClientError := ⟨.wire, .disconnected⟩

def Connection.readFrame (connection : Connection) :
    Except ClientError Message × Connection :=
  connection.readFrameWith readErrors

def Connection.writeFrame (connection : Connection) (msg : Message) :
    Except ClientError Unit × Connection :=
  connection.writeFrameWith .wire msg

def FrameReader.readFrame (reader : FrameReader) :
    Except ClientError Message × FrameReader :=
  reader.readFrameWith readErrors

def FrameWriter.writeFrame (writer : FrameWriter) (msg : Message) :
    Except ClientError Unit × FrameWriter :=
  writer.writeFrameWith .wire msg

end Kmwarp.Client
