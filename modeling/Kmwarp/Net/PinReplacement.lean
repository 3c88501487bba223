import Kmwarp.Core.ConcurrentPins
import Kmwarp.Foundation.History
import Kmwarp.Net.PinMode

/-!
# Pin replacement

Any number of connections share the pin file.  Each looks for a pin once and may
store one much later, in several file operations, so a pin stored in between is replaced.
-/

namespace Kmwarp.Net

open Foundation Wire Tls Pairing Interaction

/-- The pin file and its temporary file, with the stores of all connections. -/
abbrev PinDisk : Type := SharedReplace Nat UInt8 IoError

/-- What `read_to_string` makes of the contents of the pin file. -/
def readContents (contents : Option (List UInt8)) : PinFile :=
  readToString (fun _ => contents) "peer.pin"

def PinDisk.file (disk : PinDisk) : PinFile :=
  readContents disk.targetContent

/-- A step in a run of the accept loop: others delete the pin file, a connection gets the
answer to something it has asked for, or its store goes on by a file operation. -/
inductive ServerStep (crypto : Crypto) (ε : Type) where
  | forget
  | answer (connection : Nat) (event : PeerEvent crypto ε)
  | store (operation : ReplaceLabel Nat IoError)

section Replacement

variable {crypto : Crypto} {ε : Type}

variable {pins : Nat → PinHash} {disk next : PinDisk} {steps : List (ServerStep crypto ε)}

end Replacement

def storeOf (peerCert : List UInt8) : PeerEvent mockCrypto Server.ServerError :=
  ⟨.storePin (toBytes32 peerCert), .ok ()⟩

/-- The file operations of a store, and its result. -/
def storing (connection : Nat) (peerCert : List UInt8) :
    List (ServerStep mockCrypto Server.ServerError) :=
  [.store (.openTmp connection), .store (.write connection 65), .store (.sync connection),
    .store (.rename connection), .answer connection (storeOf peerCert)]

section Splits

variable {connection : Nat} {before after rest : List (ServerStep mockCrypto Server.ServerError)}
  {operation : ReplaceLabel Nat IoError}

end Splits

end Kmwarp.Net
