import SaneBackends.WordBytes
import SaneBackends.SignedWords
import SaneBackends.FaultState
import SaneBackends.Overwrite
import SaneBackends.LabelledRun
import SaneBackends.SaneTypes
import SaneBackends.WireState
import SaneBackends.CStrings
import SaneBackends.WireCodec
import SaneBackends.NetMessages
import SaneBackends.WireStream
import SaneBackends.WireTriples
import SaneBackends.WireFormat
import SaneBackends.SaneFormats
import SaneBackends.WireImplements
import SaneBackends.WireArrays
import SaneBackends.SaneImplements
import SaneBackends.NetFormats
import SaneBackends.WireRoundTrip
import SaneBackends.MessageTypes
import SaneBackends.WireOutput
import SaneBackends.WireMemory
import SaneBackends.OptionValueSize
import SaneBackends.WireParsing
import SaneBackends.DescriptorShape
import SaneBackends.GridRounding
import SaneBackends.ConstrainValue
import SaneBackends.ConstraintSound
import SaneBackends.SetStringOption
import SaneBackends.RingBuffer
import SaneBackends.RoundRobin
import SaneBackends.SanedHandles
import SaneBackends.SanedScan
import SaneBackends.RecordStream
import SaneBackends.BytePairs
import SaneBackends.NetRead
import SaneBackends.SanedChildren
import SaneBackends.Gt68xxRead
import SaneBackends.ShmChannel
import SaneBackends.SnapscanSources
import SaneBackends.SnapscanBase
import SaneBackends.SnapscanExpander
import SaneBackends.PullStream
import SaneBackends.RingWindow
import SaneBackends.SnapscanDeinterlacer
import SaneBackends.SnapscanRouter
import SaneBackends.SnapscanChain
import SaneBackends.DllBackends
import SaneBackends.DllDispatch
import SaneBackends.AsciiCodec
import SaneBackends.AsciiWriting
import SaneBackends.AsciiReading
import SaneBackends.AsciiRoundTrip
import SaneBackends.BjnpUdp
import SaneBackends.PixmaRead
import SaneBackends.GenesysBuffer
import SaneBackends.GenesysRead
import SaneBackends.PixmaMp150
import SaneBackends.XeroxProgress
import SaneBackends.UsbTable
import SaneBackends.BjnpDevices
import SaneBackends.ScanimageImage
import SaneBackends.CancelRuns
import SaneBackends.BjnpBulk
import SaneBackends.LexmarkScan
import SaneBackends.FujitsuScan
import SaneBackends.ConstrainTwice
import SaneBackends.SanedSubnet
import SaneBackends.ConfigRead
import SaneBackends.ConfigAttach
import SaneBackends.MagicTurn
import SaneBackends.MagicSymmetry
import SaneBackends.MagicDespeck
import SaneBackends.MagicCrop
import SaneBackends.DelaySlots
import SaneBackends.Gt68xxDelay
import SaneBackends.Gt68xxUnpack
import SaneBackends.Gt68xxAlign
import SaneBackends.PixmaCommand
import SaneBackends.GenesysSlope
import SaneBackends.BjnpUri
import SaneBackends.BjnpUriText
import SaneBackends.BjnpIdentity
import SaneBackends.SnapscanRouting
import SaneBackends.SnapscanColumns
import SaneBackends.SnapscanDeinterlacing
import SaneBackends.GenesysShrink
import SaneBackends.GenesysShrinkBits
import SaneBackends.Pieces
import SaneBackends.BitPacking
import SaneBackends.GenesysLines
import SaneBackends.GenesysInterleaving
import SaneBackends.ScanimageDirect
import SaneBackends.Hp3500Calibration
import SaneBackends.BjnpReadBulk
import SaneBackends.EpjitsuRead
import SaneBackends.EpjitsuAutodetect
import SaneBackends.XeroxCommands
import SaneBackends.XeroxFailures
import SaneBackends.LexmarkRing
import SaneBackends.ByteStuffing
import SaneBackends.Hp3500Commands
import SaneBackends.Hp3500Stream
import SaneBackends.Hp3500Transfers
import SaneBackends.Strided
import SaneBackends.Fujitsu3091
import SaneBackends.Fujitsu3091Color
import SaneBackends.Fujitsu3091Duplex
import SaneBackends.ThreeWay
import SaneBackends.PriorityInsert
import SaneBackends.SaneDesc
import SaneBackends.SaneDescRecords
import SaneBackends.CharArrays
import SaneBackends.Authorization
import SaneBackends.AuthorizationStrings
import SaneBackends.AuthorizationCallback
import SaneBackends.LastEntry
import SaneBackends.SaneDescParser
import SaneBackends.SaneDescDocument
import SaneBackends.SaneDescAttach
import SaneBackends.SaneDescFiles
import SaneBackends.Numerals
import SaneBackends.ScanimageVector
import SaneBackends.ScanimageVectorRead
import SaneBackends.ScanimageVectorCorrect
import SaneBackends.Gather
import SaneBackends.CanonInterlace
import SaneBackends.CanonDescramble
import SaneBackends.CanonBlocks
import SaneBackends.Interleave
import SaneBackends.PixmaMp150Check
import SaneBackends.PixmaMp150Reorder
import SaneBackends.SampleGrid
import SaneBackends.ArtecLine
import SaneBackends.ArtecLineOutput
import SaneBackends.ArtecLineProper
import SaneBackends.DoubleRounding
import SaneBackends.Dda
import SaneBackends.LineWalk
import SaneBackends.PlustekLine
import SaneBackends.PlustekProcs
import SaneBackends.PlustekSampling
import SaneBackends.PlustekScaling
import SaneBackends.PlustekAgree
import SaneBackends.BlockFold
import SaneBackends.Md5
import SaneBackends.Md5Streaming
import SaneBackends.NetScan
import SaneBackends.AuthorizationExchange
