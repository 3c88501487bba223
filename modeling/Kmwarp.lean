import Kmwarp.Net.PinnedPeer
import Kmwarp.Net.Reflection
import Kmwarp.Handoff.Ownership
import Kmwarp.Client.StuckKeys
import Kmwarp.Server.Session
import Kmwarp.Server.HeldTracking
import Kmwarp.Foundation.Runs
import Kmwarp.Net.Framing
import Kmwarp.Core.Wire.Grammar
import Kmwarp.Core.EdgeTrace
import Kmwarp.Server.Forwarding
import Kmwarp.Net.InputPath
import Kmwarp.Net.ClipboardToClient
import Kmwarp.Net.ClipboardToServer
import Kmwarp.Net.ClipboardSync
import Kmwarp.Net.FailedPairing
import Kmwarp.Net.Establishment
import Kmwarp.Net.HonestPairing
import Kmwarp.Net.PinReplacement
import Kmwarp.Server.Routing
import Kmwarp.Client.ClipboardEcho
import Kmwarp.Server.PasteboardEcho
import Kmwarp.Server.RemappedKeys
import Kmwarp.Server.DisconnectDrain
import Kmwarp.Net.MouseButtons
import Kmwarp.Server.WarpTargets
import Kmwarp.Core.EdgeCooldown
import Kmwarp.Core.Reassembly
import Kmwarp.Core.Wire.SelfDescribing
import Kmwarp.Server.Modifiers
import Kmwarp.Foundation.Separators
import Kmwarp.Client.Pacing
import Kmwarp.Foundation.Files
import Kmwarp.Core.PinFile
import Kmwarp.Core.Certificate
import Kmwarp.Foundation.Decimal
import Kmwarp.Client.PairingCode
import Kmwarp.Foundation.Simulation
import Kmwarp.Handoff.ByteLink
import Kmwarp.Handoff.Wire
import Kmwarp.Core.Scancode
import Kmwarp.Client.Inject
import Kmwarp.Net.WindowsInput
import Kmwarp.Foundation.Watchdog
import Kmwarp.Net.Liveness
import Kmwarp.Core.ModifierLayers
import Kmwarp.Server.Chords
import Kmwarp.Foundation.SharedReplace
import Kmwarp.Core.ConcurrentPins
import Kmwarp.Client.Sessions
import Kmwarp.Client.Service
import Kmwarp.Client.ServiceHandles
import Kmwarp.Client.ServiceStop
import Kmwarp.Foundation.Relay
import Kmwarp.Handoff.LatencyProbe
import Kmwarp.Handoff.RemoteInput
import Kmwarp.Server.PasteboardWatch
