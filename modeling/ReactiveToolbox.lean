import ReactiveToolbox.Ipc.MpmcConcurrent
import ReactiveToolbox.Ipc.MagicRingShared
import ReactiveToolbox.Io.EpollDispatch
import ReactiveToolbox.Io.DgramOrder
import ReactiveToolbox.Io.Reactor
import ReactiveToolbox.Io.TimerCount
import ReactiveToolbox.Io.TimerDispatch
import ReactiveToolbox.Net.Frame
import ReactiveToolbox.Net.RateLimit
import ReactiveToolbox.Net.ParsedUrl
import ReactiveToolbox.Net.Resolver
import ReactiveToolbox.Sys.ParsedForms
import ReactiveToolbox.Io.Disposer
import ReactiveToolbox.Io.BufferQueue
import ReactiveToolbox.Http.StreamRequests
import ReactiveToolbox.Http.HeaderPieces
import ReactiveToolbox.Http.ConnInterest
import ReactiveToolbox.Http.StreamBytes
import ReactiveToolbox.Http.UrlReuse
import ReactiveToolbox.Hdr.Percentile
import ReactiveToolbox.Hdr.LinearIterator
import ReactiveToolbox.Hdr.Overflow
import ReactiveToolbox.Net.Pcap
import ReactiveToolbox.Net.PcapPayload
import ReactiveToolbox.Util.Argv
import ReactiveToolbox.Util.Options
import ReactiveToolbox.Util.OptionsReading
import ReactiveToolbox.Lib.LinkedChain
import ReactiveToolbox.Util.Json
import ReactiveToolbox.Util.JsonMemory
import ReactiveToolbox.Util.JsonSplice
import ReactiveToolbox.Util.JsonLists
import ReactiveToolbox.Util.JsonCounts
import ReactiveToolbox.Util.JsonDocument
import ReactiveToolbox.Util.JsonPointers
import ReactiveToolbox.Util.JsonTrees
import ReactiveToolbox.Util.JsonGrowth
import ReactiveToolbox.Util.JsonCopy
import ReactiveToolbox.Lib.Machine
import ReactiveToolbox.Util.VarSub
import ReactiveToolbox.Util.VarSubTemplate
import ReactiveToolbox.Util.VarSubEvents
import ReactiveToolbox.Util.VarSubTermination
import ReactiveToolbox.Util.VarSubRanks
import ReactiveToolbox.Util.JsonBuilt
import ReactiveToolbox.Hdr.RecordedIterator
import ReactiveToolbox.Net.FrameWidth
import ReactiveToolbox.Util.RingBuffer
import ReactiveToolbox.Ipc.MagicRingBytes
import ReactiveToolbox.Io.LineReader
import ReactiveToolbox.Lib.Slice
import ReactiveToolbox.Util.Ston
import ReactiveToolbox.Sys.EnclosedTime
import ReactiveToolbox.Io.DgramReset
import ReactiveToolbox.Ipc.MmapPages
import ReactiveToolbox.Ipc.MpmcObserver
import ReactiveToolbox.Ipc.RoundedCapacity
import ReactiveToolbox.Util.OptionsRegistering
import ReactiveToolbox.Util.ArgvStates
import ReactiveToolbox.Io.TimerPool
import ReactiveToolbox.Util.InternedStrings
import ReactiveToolbox.Util.JsonComments
import ReactiveToolbox.Util.Pool
import ReactiveToolbox.Io.Hook
import ReactiveToolbox.Util.Config
import ReactiveToolbox.Util.ConfigSections
import ReactiveToolbox.Util.Signal
import ReactiveToolbox.Util.PaddedFields
import ReactiveToolbox.Sys.DayCounts
import ReactiveToolbox.Io.MultiReactor
import ReactiveToolbox.Io.SocketRead
import ReactiveToolbox.Io.TimerIdentity
import ReactiveToolbox.Net.ParsedUrlReuse
import ReactiveToolbox.Net.Endpoint
import ReactiveToolbox.Util.ConfigEnding
import ReactiveToolbox.Util.ConfigMoves
import ReactiveToolbox.Http.HttpParser
import ReactiveToolbox.Http.HttpParserExecute
import ReactiveToolbox.Http.ParserMarks
import ReactiveToolbox.Http.ParserPieces
import ReactiveToolbox.Http.ParserEvents
import ReactiveToolbox.Http.ParserFraming
import ReactiveToolbox.Http.ParserTypes
import ReactiveToolbox.Http.ServedMessages
import ReactiveToolbox.Lib.LockedFile
import ReactiveToolbox.Sys.PidFile
import ReactiveToolbox.Sys.PidFileOpening
import ReactiveToolbox.Io.ReactorStop
import ReactiveToolbox.Io.BasicSocket
import ReactiveToolbox.Io.SocketInterest
