import ImeBridge.Library.Run
import ImeBridge.Library.History
import ImeBridge.Library.Permit
import ImeBridge.Library.Assignments
import ImeBridge.Library.Scanner
import ImeBridge.Library.Pace
import ImeBridge.Library.Lines
import ImeBridge.Library.Ledger
import ImeBridge.Library.CircularBuffer
import ImeBridge.Library.Counter
import ImeBridge.Library.Progress
import ImeBridge.Library.Interleaving
import ImeBridge.Library.Custody
import ImeBridge.Library.Checksum
import ImeBridge.Library.Handlers
import ImeBridge.Library.HandlerContract
import ImeBridge.Library.HandlerRuns
import ImeBridge.Library.HandlerModels
import ImeBridge.Machine.Memory
import ImeBridge.Machine.RealMode
import ImeBridge.Protocol
import ImeBridge.Wire.Frame
import ImeBridge.Wire.Codecs
import ImeBridge.Wire.Decoder
import ImeBridge.Wire.Stream
import ImeBridge.Wire.Checksum
import ImeBridge.Keyboard.Bios
import ImeBridge.Keyboard.Encoding
import ImeBridge.Keyboard.Ring
import ImeBridge.Keyboard.Metadata
import ImeBridge.Keyboard.Injection
import ImeBridge.Resident.State
import ImeBridge.Resident.Serial
import ImeBridge.Resident.ReceiveRing
import ImeBridge.Resident.Foreground
import ImeBridge.Resident.Framer
import ImeBridge.Resident.Slices
import ImeBridge.Resident.Extent
import ImeBridge.Resident.Session
import ImeBridge.Resident.Refinement
import ImeBridge.Resident.Batches
import ImeBridge.Resident.Runs
import ImeBridge.Resident.Consistency
import ImeBridge.Resident.Port
import ImeBridge.Resident.PortLog
import ImeBridge.Resident.Core
import ImeBridge.Resident.Release
import ImeBridge.Resident.Ownership
import ImeBridge.Resident.Reception
import ImeBridge.Resident.Truncation
import ImeBridge.Resident.Timeout
import ImeBridge.Resident.Answering
import ImeBridge.Resident.Accounts
import ImeBridge.Resident.Enqueued
import ImeBridge.Resident.Staging
import ImeBridge.Resident.Idle
import ImeBridge.Resident.OffClean
import ImeBridge.Resident.Numbers
import ImeBridge.Input.Hook
import ImeBridge.Input.Steps
import ImeBridge.Input.Hotkey
import ImeBridge.Input.Sleep
import ImeBridge.Input.Reading
import ImeBridge.Host.Bridge
import ImeBridge.Host.ReadPacket
import ImeBridge.Host.Permission
import ImeBridge.Host.KeyBindings
import ImeBridge.Client.ReadPacket
import ImeBridge.Client.Exchange
import ImeBridge.Client.Main
import ImeBridge.Link.Receivers
import ImeBridge.Link.Damage
import ImeBridge.Link.Line
import ImeBridge.Link.Net
import ImeBridge.Link.Bytes
import ImeBridge.Link.Idle
import ImeBridge.Link.Traffic
import ImeBridge.Link.Offers
import ImeBridge.Link.Agreement
import ImeBridge.Link.Readiness
import ImeBridge.Link.Freshness
import ImeBridge.Link.Order
import ImeBridge.Link.Turn
import ImeBridge.Link.Acknowledgement
import ImeBridge.Link.Delivery
import ImeBridge.Link.Carriage
import ImeBridge.Link.Transport
import ImeBridge.Link.Cable
import ImeBridge.Link.Refinement
import ImeBridge.Link.Recovery
import ImeBridge.Host.Window
import ImeBridge.Host.Messages
import ImeBridge.Host.TestMode
import ImeBridge.Link.TestRun
import ImeBridge.Assembly.Hooks
import ImeBridge.Assembly.Contract
import ImeBridge.Assembly.Transparency
import ImeBridge.Assembly.Nesting
import ImeBridge.Assembly.Refinement
import ImeBridge.Dos.Program
import ImeBridge.Dos.Rollback
import ImeBridge.Dos.Removal
import ImeBridge.Dos.Unloading
import ImeBridge.Dos.Lifetime
import ImeBridge.Device.Driver
import ImeBridge.Device.Requests
import ImeBridge.Device.Control
import ImeBridge.Device.Sessions
import ImeBridge.Configuration.Line
import ImeBridge.Configuration.Grammar
import ImeBridge.Configuration.Loader
import ImeBridge.Serial.Ports
import ImeBridge.Serial.Handshake
import ImeBridge.Serial.Programming
import ImeBridge.Serial.Refinement
