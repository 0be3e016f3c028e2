import SaorsaTransport.Theorems.Streams.FinalSize
import SaorsaTransport.Theorems.Streams.SendWindow
import SaorsaTransport.Theorems.KeySystem
import SaorsaTransport.Theorems.PacketFates
import SaorsaTransport.Theorems.Dedup
import SaorsaTransport.Theorems.PacketNumbers
import SaorsaTransport.Theorems.Cids
import SaorsaTransport.Theorems.Path
import SaorsaTransport.Theorems.Ecn
import SaorsaTransport.Theorems.Constrained.Delivery
import SaorsaTransport.Theorems.Populate
import SaorsaTransport.Theorems.Masque.Routing
import SaorsaTransport.Theorems.Masque.Admission
import SaorsaTransport.Theorems.Nat
import SaorsaTransport.Theorems.Discovery
import SaorsaTransport.Theorems.RelayAuthenticator
import SaorsaTransport.Theorems.BleCache
import SaorsaTransport.HandleEvent
import SaorsaTransport.Theorems.Closing
