import Rkvdec.Basic
import Rkvdec.Lib.Bitmap
import Rkvdec.Lib.Region
import Rkvdec.Lib.Bumping
import Rkvdec.Lib.Prog
import Rkvdec.Iommu.Domain
import Rkvdec.Iommu.Table
import Rkvdec.Iommu.Alloc
import Rkvdec.Iommu.Refinement
import Rkvdec.Iommu.Reserved
import Rkvdec.Iommu.Complete
import Rkvdec.Dense.Bank
import Rkvdec.Dense.Submit
import Rkvdec.Dense.Isolation
import Rkvdec.Engine.Dpb
import Rkvdec.Engine.H264
import Rkvdec.Engine.Reorder
import Rkvdec.Engine.Session
import Rkvdec.Engine.Mirror
import Rkvdec.Engine.Exclusive
import Rkvdec.Engine.H265
import Rkvdec.Engine.H265Session
import Rkvdec.Engine.Retention
import Rkvdec.Engine.Display
import Rkvdec.Engine.SequenceOrder
import Rkvdec.Lib.Pool
import Rkvdec.Buf.Bufpool
import Rkvdec.Buf.Quota
import Rkvdec.Dispatch.Queue
import Rkvdec.Dispatch.Sections
import Rkvdec.Dispatch.System
import Rkvdec.Dispatch.Effects
import Rkvdec.Dispatch.Ledger
import Rkvdec.Dispatch.Promotion
import Rkvdec.Dispatch.Shape
import Rkvdec.Dispatch.Steps
import Rkvdec.Dispatch.Wakeup
import Rkvdec.Dispatch.Drive
import Rkvdec.Dispatch.Cores
import Rkvdec.Dispatch.Representation
import Rkvdec.Dispatch.Places
import Rkvdec.Dispatch.Admission
import Rkvdec.Dispatch.Nesting
import Rkvdec.Dispatch.Owners
import Rkvdec.Dispatch.Running
import Rkvdec.Dispatch.Accounting
import Rkvdec.Bitstream.BitReader
import Rkvdec.Bitstream.Nal
import Rkvdec.Bitstream.H264
import Rkvdec.Bitstream.H265
import Rkvdec.Bitstream.Truncation
import Rkvdec.Bitstream.Framing
import Rkvdec.Bitstream.Scanners
import Rkvdec.Bitstream.Avcc
import Rkvdec.Bitstream.AuIter
import Rkvdec.Bitstream.Footprint
import Rkvdec.Bitstream.Rejection
import Rkvdec.Bitstream.Activation
import Rkvdec.Bitstream.TwinRuns
import Rkvdec.Bitstream.MultiSlice
import Rkvdec.Bitstream.SegmentHeader
import Rkvdec.Lib.Golomb
import Rkvdec.Bitstream.Elements
import Rkvdec.Bitstream.Mirroring
import Rkvdec.Bitstream.MatrixSyntax
import Rkvdec.Bitstream.Segments
import Rkvdec.Engine.PackedTables
import Rkvdec.Engine.Packers
import Rkvdec.Engine.ScalingFactors
import Rkvdec.Engine.RpsTable
import Rkvdec.Engine.SlidingWindow
import Rkvdec.Engine.TableCache
import Rkvdec.Lib.Trace
import Rkvdec.Av1d.Submit
import Rkvdec.Av1d.Kick
import Rkvdec.Av1.Obu
import Rkvdec.Lib.Cuts
import Rkvdec.Av1.TileInfo
import Rkvdec.Av1.TileLayout
import Rkvdec.Av1.References
import Rkvdec.Av1.ShortSignaling
import Rkvdec.Av1.MotionField
import Rkvdec.Av1.SkipMode
import Rkvdec.Bitstream.HeaderBits
import Rkvdec.Engine.Repack
import Rkvdec.Engine.Nv15
import Rkvdec.Engine.ScalingLists
import Rkvdec.Vp9.Header
import Rkvdec.Vp9.Superframe
import Rkvdec.Vp9.BoolDecoder
import Rkvdec.Vp9.BoolEncoder
import Rkvdec.Vp9.Persistence
import Rkvdec.Vp9.BitReader
import Rkvdec.Vp9.HeaderSyntax
import Rkvdec.Vp9.HeaderRoundTrip
import Rkvdec.Vp9.Engine
import Rkvdec.Vp9.Custody
import Rkvdec.Vp9.Extents
import Rkvdec.Vp9.SegmentMap
import Rkvdec.Vp9.Firebreak
import Rkvdec.Vp9.ReferenceRegs
import Rkvdec.Vp9.Contexts
import Rkvdec.Av1.Extents
import Rkvdec.Av1.SequenceHeader
import Rkvdec.Av1.SequenceRoundTrip
import Rkvdec.Lib.LeastRecent
import Rkvdec.Dispatch.Rotation
import Rkvdec.Dispatch.Pins
import Rkvdec.Dispatch.Abandoned
import Rkvdec.Dispatch.Callbacks
import Rkvdec.Dispatch.Lifetime
import Rkvdec.Lib.Best
import Rkvdec.Lib.Fields
import Rkvdec.Power.Cluster
import Rkvdec.Power.Refcounts
import Rkvdec.Power.Resets
import Rkvdec.Power.Handshakes
import Rkvdec.Engine.ReferenceBound
import Rkvdec.Engine.Calls
import Rkvdec.Engine.FailedDecode
import Rkvdec.Engine.PicNum
import Rkvdec.Engine.LongTerm
import Rkvdec.Lib.StableSort
import Rkvdec.Engine.RefLists
import Rkvdec.Engine.FrameRps
import Rkvdec.Lib.Unwrap
import Rkvdec.Bitstream.PictureRuns
import Rkvdec.Bitstream.PicOrder
import Rkvdec.Bitstream.OrderResets
import Rkvdec.Engine.RpsPrediction
import Rkvdec.Engine.ParameterUnit
import Rkvdec.Engine.SliceArrays
import Rkvdec.Engine.MissingReferences
import Rkvdec.Lib.Subexp
import Rkvdec.Av1.VariableLength
import Rkvdec.Bitstream.PpsTrailer
import Rkvdec.Engine.RpsWriting
import Rkvdec.Bitstream.SliceSyntax
import Rkvdec.Bitstream.SliceReading
import Rkvdec.Bitstream.SliceRoundTrip
import Rkvdec.Bitstream.SegmentSyntax
import Rkvdec.Bitstream.SegmentReading
import Rkvdec.Bitstream.SegmentRoundTrip
import Rkvdec.Lib.History
import Rkvdec.Av1d.JobQueue
import Rkvdec.Av1d.JobEffects
import Rkvdec.Av1d.JobPlaces
import Rkvdec.Av1d.JobDrive
import Rkvdec.Av1d.JobOnce
import Rkvdec.Av1d.JobWakeup
import Rkvdec.Av1d.JobQuiesce
import Rkvdec.Av1d.JobFreed
import Rkvdec.Av1d.JobLifetime
import Rkvdec.Av1d.JobDrain
import Rkvdec.Av1d.JobOrder
import Rkvdec.Dense.Image
import Rkvdec.Dense.RegBuilders
