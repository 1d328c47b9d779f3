import StdDaq.Array10Recv
import StdDaq.Bitshuffle.Avx
import StdDaq.Bitshuffle.Blocks
import StdDaq.Bitshuffle.DataCompress
import StdDaq.Bitshuffle.Filter
import StdDaq.Bitshuffle.Frames
import StdDaq.Bitshuffle.IoChain
import StdDaq.Bitshuffle.Scalar
import StdDaq.Bitshuffle.Schedules
import StdDaq.Bitshuffle.Sse
import StdDaq.Bitshuffle.Threads
import StdDaq.Buffer.BufferHandler
import StdDaq.Buffer.FailedReads
import StdDaq.Buffer.FileHandler
import StdDaq.Buffer.Filled
import StdDaq.Buffer.Interleaving
import StdDaq.Buffer.Lookup
import StdDaq.Buffer.NextImage
import StdDaq.Buffer.Reading
import StdDaq.Buffer.Redis
import StdDaq.Buffer.Replay
import StdDaq.Buffer.RoundTrip
import StdDaq.Buffer.Writer
import StdDaq.DelayFilter
import StdDaq.DetectorConfig
import StdDaq.Driver.Acknowledge
import StdDaq.Driver.Extents
import StdDaq.Driver.H5File
import StdDaq.Driver.IdleReset
import StdDaq.Driver.LastState
import StdDaq.Driver.RecordedFiles
import StdDaq.Driver.Recording
import StdDaq.Driver.Sessions
import StdDaq.Driver.Stop
import StdDaq.Driver.WriterDriver
import StdDaq.Driver.WriterLoop
import StdDaq.Driver.Writers
import StdDaq.Eiger.ConfigGen
import StdDaq.Eiger.Converter
import StdDaq.Eiger.Layout
import StdDaq.Forwarding
import StdDaq.GigaFrost.Assembly
import StdDaq.GigaFrost.Converter
import StdDaq.GigaFrost.DataPath
import StdDaq.GigaFrost.Geometry
import StdDaq.GigaFrost.Header
import StdDaq.GigaFrost.Simulator
import StdDaq.GigaFrost.Sizes
import StdDaq.ImageBytes
import StdDaq.ImageMetadata
import StdDaq.Jungfrau.Converter
import StdDaq.Lib.Assembler
import StdDaq.Lib.Between
import StdDaq.Lib.Binary64
import StdDaq.Lib.BitMatrix
import StdDaq.Lib.Bits
import StdDaq.Lib.Bursts
import StdDaq.Lib.Dataset
import StdDaq.Lib.Decimal
import StdDaq.Lib.FloorPartition
import StdDaq.Lib.Inevitable
import StdDaq.Lib.Json
import StdDaq.Lib.KeyedStore
import StdDaq.Lib.Lanes
import StdDaq.Lib.Memory
import StdDaq.Lib.Messages
import StdDaq.Lib.OrderedMap
import StdDaq.Lib.Overlay
import StdDaq.Lib.Painting
import StdDaq.Lib.Raster
import StdDaq.Lib.RingBuffer
import StdDaq.Lib.RoundRobin
import StdDaq.Lib.Run
import StdDaq.Lib.SortedSearch
import StdDaq.Lib.Stride
import StdDaq.Lib.Subsequence
import StdDaq.Lib.Throws
import StdDaq.LiveStream
import StdDaq.MetadataSync
import StdDaq.MetadataSync.FirstEntry
import StdDaq.MetadataSync.Log
import StdDaq.MetadataSync.Stranded
import StdDaq.ModuleSync.Accounting
import StdDaq.ModuleSync.Eviction
import StdDaq.ModuleSync.Order
import StdDaq.ModuleSync.Output
import StdDaq.ModuleSync.Status
import StdDaq.ModuleSync.Synchronizer
import StdDaq.Placement.Exact
import StdDaq.Placement.Range
import StdDaq.RamBuffer
import StdDaq.Replayer.Forwarded
import StdDaq.Replayer.HandBack
import StdDaq.Replayer.HandShake
import StdDaq.Replayer.Range
import StdDaq.Replayer.Replayer
import StdDaq.Replayer.Undisturbed
import StdDaq.Requests
import StdDaq.StreamSync.Accounting
import StdDaq.StreamSync.Entries
import StdDaq.StreamSync.Output
import StdDaq.StreamSync.Synchronizer
import StdDaq.StreamTransfer.Counting
import StdDaq.StreamTransfer.Delivery
import StdDaq.StreamTransfer.Intact
import StdDaq.StreamTransfer.Services
import StdDaq.UdpRecv.Bounds
import StdDaq.UdpRecv.Flush
import StdDaq.UdpRecv.Loops
import StdDaq.UdpRecv.Receiver
import StdDaq.UdpTools
