import Bscope.Interleaving
import Bscope.KeepAlive
import Bscope.LogStale
import Bscope.PostCuts
import Bscope.PostAdjacency
import Bscope.Filings
import Bscope.JoinBuff
import Bscope.PairCount
import Bscope.WireFormat
import Bscope.Message
import Bscope.Segmentation
import Bscope.QueryString
import Bscope.EndOfLength
import Bscope.CookieNames
import Bscope.HeaderValues
import Bscope.BodyPrefix
import Bscope.CarryBounds
import Bscope.Debts
import Bscope.Balance
import Bscope.ByteCounts
import Bscope.Paths
import Bscope.Worker
import Bscope.Gauge
import Bscope.Transducer
import Bscope.Framing
import Bscope.Buckets
import Bscope.RequestRate
import Bscope.Stopwatch
import Bscope.PhaseTimes
import Bscope.Overwrite
import Bscope.UrlDecoding
import Bscope.FormCoding
import Bscope.RefererLog
import Bscope.MethodReport
import Bscope.Attribution
import Bscope.KnownHeaders
import Bscope.ListFilter
import Bscope.ScannerKeys
import Bscope.Delimited
import Bscope.ContentType
import Bscope.LogStores
import Bscope.Tokens
import Bscope.Settings
import Bscope.IniFile
import Bscope.LoadConfig
import Bscope.Commands
import Bscope.ConfigCommands
import Bscope.Reload
import Bscope.ListBounds
import Bscope.Masks
import Bscope.HostEntry
import Bscope.ServiceFilter
import Bscope.Serial
import Bscope.Reassembly
import Bscope.HalfStream
import Bscope.InOrder
import Bscope.TcpQueue
import Bscope.QueueBounds
import Bscope.ProcessTcp
import Bscope.StreamStep
import Bscope.StreamTable
import Bscope.Announcements
import Bscope.Delivery
import Bscope.HttpParser
import Bscope.HttpBytes
import Bscope.HttpSafety
import Bscope.Joining
import Bscope.HttpSegments
import Bscope.HttpReports
import Bscope.HandleData
import Bscope.HttpTraffic
import Bscope.HttpEnds
import Bscope.HttpExchanges
import Bscope.Sniffing
import Bscope.WorkerCalls
import Bscope.StreamExchanges
