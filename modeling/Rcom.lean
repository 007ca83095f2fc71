import Rcom.Lib.Trace
import Rcom.Lib.Decimal
import Rcom.Lib.Json
import Rcom.RegistryUniqueness
import Rcom.RegistryResponses
import Rcom.RegistryTexts
import Rcom.Replica
import Rcom.WholeMessages
import Rcom.CloseHandshake
import Rcom.ReadLoop
import Rcom.Senders
import Rcom.ClientLink
import Rcom.InterleavingRuns
import Rcom.CommandLocks
import Rcom.Connection
import Rcom.HandshakeVerdicts
import Rcom.WholeParts
import Rcom.MultipartRoundTrip
import Rcom.Datahub
import Rcom.StandAlone
import Rcom.HubSubscribers
import Rcom.RemoteAddressRuns
import Rcom.ReleasedBuffers
import Rcom.Rpc
import Rcom.Dump
import Rcom.EntryEncodings
import Rcom.MultipartSharing
import Rcom.Streamerlink
import Rcom.StreamerClient
import Rcom.HttpPost
import Rcom.HeaderTables
import Rcom.MessagehubLinks
import Rcom.ServiceClients
import Rcom.StreamerSockets
import Rcom.Broadcasts
import Rcom.PacketRoundTrip
import Rcom.WholePackets
import Rcom.Exports
import Rcom.TextFrames
import Rcom.HeaderCase
import Rcom.Rclaunch
import Rcom.RcgenScopes
import Rcom.Lib.Rfc4648
import Rcom.Base64Loop
import Rcom.Lib.PercentCoding
import Rcom.UrlCoding
import Rcom.Lib.FrameHeader
import Rcom.ReadErrors
import Rcom.ReadCloses
import Rcom.NodeTexts
import Rcom.Readdressing
import Rcom.ProxyRuns
import Rcom.OneEntryRuns
import Rcom.Lib.Fips180
import Rcom.AcceptKey
import Rcom.Transport
import Rcom.StreamTransport
import Rcom.TextExchange
import Rcom.RpcExchange
import Rcom.HubThreads
import Rcom.RpcCalls
import Rcom.CloseFrames
