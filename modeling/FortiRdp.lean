import FortiRdp.Net.PPInterface
import FortiRdp.Net.Forwarding
import FortiRdp.Net.Tunneler
import FortiRdp.Net.ClientLimit
import FortiRdp.Net.Closing
import FortiRdp.Net.CallbackLifetime
import FortiRdp.Run.Prog
import FortiRdp.Util.Str
import FortiRdp.Util.ObfString
import FortiRdp.Util.StringMap
import FortiRdp.Net.TcpSocket
import FortiRdp.Run.SortedMap
import FortiRdp.Run.Transducer
import FortiRdp.Http.Cookie
import FortiRdp.Util.ByteBuffer
import FortiRdp.Http.Answer
import FortiRdp.Http.AnswerRead
import FortiRdp.Http.LineReader
import FortiRdp.Http.AnswerRoundTrip
import FortiRdp.Http.ChunkedWhole
import FortiRdp.Http.FramingNumber
import FortiRdp.Http.AnswerOutcome
import FortiRdp.Http.HeadScan
import FortiRdp.Http.BodyOutcome
import FortiRdp.Http.BodyLimit
import FortiRdp.Http.GzipBody
import FortiRdp.Http.ReadEnds
import FortiRdp.Http.EndlessAnswer
import FortiRdp.Http.Url
import FortiRdp.Http.HttpsClient
import FortiRdp.Http.UrlCoding
import FortiRdp.Http.ServerText
import FortiRdp.Fw.FirewallClient
import FortiRdp.Fw.Pinning
import FortiRdp.Fw.FirewallTunnel
import FortiRdp.Fw.CookieJar
import FortiRdp.Fw.LoginForm
import FortiRdp.Ui.AsyncController
import FortiRdp.Ui.Handshake
import FortiRdp.Net.PcbLiveness
import FortiRdp.Net.PcbOwnership
import FortiRdp.Net.TunnelInput
import FortiRdp.Net.ForwardPath
import FortiRdp.Net.BackPressure
import FortiRdp.Net.FailStop
import FortiRdp.Net.InternalErrors
import FortiRdp.Ui.SamlAuthDialog
import FortiRdp.Ui.SyncDisconnect
import FortiRdp.Run.RefCount
import FortiRdp.Ui.TaskHandle
import FortiRdp.Lwip.PbufHeap
import FortiRdp.Util.HeapQueue
import FortiRdp.Net.PppHeap
import FortiRdp.Net.PbufCounts
import FortiRdp.Net.PbufFifo
import FortiRdp.Util.QueueCapacity
import FortiRdp.Net.SendRetry
import FortiRdp.Http.RequestText
import FortiRdp.Run.Emits
import FortiRdp.Fw.WireRequests
import FortiRdp.Fw.Sessions
import FortiRdp.Fw.LoginOutcome
import FortiRdp.Fw.KeepAlive
import FortiRdp.Fw.Redirects
import FortiRdp.Http.UrlText
import FortiRdp.Net.EndpointText
import FortiRdp.Http.CookieText
import FortiRdp.Http.CookieHeader
import FortiRdp.Http.CookieDate
import FortiRdp.Fw.CookieExpiry
import FortiRdp.Run.View
import FortiRdp.Util.ObfStringView
import FortiRdp.Util.SplitText
import FortiRdp.Util.StringMapText
import FortiRdp.Run.Transfer
import FortiRdp.Net.TransferLoops
import FortiRdp.Ui.UserCrt
import FortiRdp.Run.Argv
import FortiRdp.Util.CommandLine
import FortiRdp.Run.Loop
import FortiRdp.Util.Substvar
import FortiRdp.Util.StringFormat
import FortiRdp.Util.Logger
import FortiRdp.Fw.CertificateLog
import FortiRdp.Run.Bits
import FortiRdp.Net.Netmask
import FortiRdp.Net.MoreFlag
import FortiRdp.Net.BytesInTransit
import FortiRdp.Ui.RdpFile
import FortiRdp.Run.Cursor
import FortiRdp.Util.Json
import FortiRdp.Util.JsonReader
import FortiRdp.Util.JsonTokens
import FortiRdp.Util.JsonGrammar
import FortiRdp.Util.JsonRoundTrip
import FortiRdp.Fw.PortalInfo
import FortiRdp.Ui.SyncConnect
import FortiRdp.Run.Options
import FortiRdp.Util.Getopt
import FortiRdp.Ui.CmdlineParams
import FortiRdp.Util.Strptime
import FortiRdp.Util.StrptimeBounds
import FortiRdp.Http.CookieStrptime
import FortiRdp.Ui.ConnectDialog
import FortiRdp.Ui.DialogSession
import FortiRdp.Lwip.Timeouts
import FortiRdp.Run.Agenda
import FortiRdp.Lwip.CyclicTimers
import FortiRdp.Lwip.TimeoutSchedule
