import Getty.Verified.ThreadPool
import Getty.Verified.Framing
import Getty.Verified.StreamCodec
import Getty.Verified.LinkedList
import Getty.Verified.CallStack
import Getty.Verified.Deferred
import Getty.Verified.DynamicEquality
import Getty.Verified.Shuffle
import Getty.Verified.Progress
import Getty.Verified.Packets
import Getty.Verified.LittleEndian
import Getty.Verified.Freeze
import Getty.Verified.Ghost
import Getty.Transport.Basic
import Getty.Transport.TcpReadLoop
import Getty.Transport.TcpFraming
import Getty.Transport.TcpLimit
import Getty.Transport.UdpReadLoop
import Getty.Transport.UdpLimit
import Getty.Transport.Reconnect
import Getty.Transport.WriteStream
import Getty.Transport.SingleFlight
import Getty.Transport.ClientPool
import Getty.Transport.ClientPoolFlight
import Getty.Transport.ClientPoolInvariant
import Getty.Transport.ClientPoolSafety
import Getty.Transport.SessionLifecycle
import Getty.Transport.SessionInvariant
import Getty.Transport.SessionSafety
import Getty.Transport.SessionFence
import Getty.Transport.SessionSteps
import Getty.Transport.SessionEvents
import Getty.Transport.SessionHeartbeat
import Getty.Transport.HandlePackage
import Getty.Transport.RejectedSession
import Getty.Transport.Callbacks
import Getty.Transport.CallbackRegistry
import Getty.Transport.CloseCallbacks
import Getty.Transport.ResetDelivery
import Getty.Transport.SessionSystem
import Getty.Transport.Server
import Getty.Transport.ServerClose
import Getty.Transport.WriteCount
import Getty.Transport.WriteResult
import Getty.Transport.WriteTimeout
import Getty.Transport.CodecConn
import Getty.Transport.CodecLatch
import Getty.Transport.CodecStream
import Getty.Transport.WsMessages
import Getty.Transport.WsReceive
import Getty.Transport.WsReadLoop
import Getty.Transport.ReaderContract
import Getty.Transport.ReconnectPass
import Getty.Transport.CodecWriter
import Getty.Transport.StallDetection
import Getty.Transport.CodecReadLoop
import Getty.Transport.WsWriteLimit
import Getty.Transport.WritePkg
import Getty.Transport.WriteLocality
import Getty.Transport.WriteStats
import Getty.Transport.WriteProgress
import Getty.Transport.PackageStream
import Getty.Transport.TcpChannel
import Getty.Transport.TcpConservation
import Getty.Transport.TcpLink
import Getty.Transport.CompressType
import Getty.Transport.UdpNetwork
import Getty.Transport.ServerSockets
import Getty.Transport.ServerProgress
import Getty.Transport.ClientPoolEffect
import Getty.Transport.PoolHealingInvariant
import Getty.Transport.PoolHealing
import Getty.Transport.ClientWaits
import Getty.Transport.ClientProgress
import Getty.Echo.Package
import Getty.Echo.System
