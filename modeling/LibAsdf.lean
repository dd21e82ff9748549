import LibAsdf.Base.Outcome
import LibAsdf.Base.Search
import LibAsdf.Stream.Basic
import LibAsdf.Stream.File
import LibAsdf.Stream.Mem
import LibAsdf.Stream.FileScan
import LibAsdf.Stream.FilePosition
import LibAsdf.Stream.MemPosition
import LibAsdf.Parser.Block
import LibAsdf.Parser.Basic
import LibAsdf.Parser.Handlers
import LibAsdf.Parser.Lawful
import LibAsdf.Parser.Steps
import LibAsdf.Base.Calls
import LibAsdf.Parser.BlockSteps
import LibAsdf.Parser.Grammar
import LibAsdf.Parser.BlockVectors
import LibAsdf.Base.Relate
import LibAsdf.Base.Endian
import LibAsdf.Base.RowMajor
import LibAsdf.Ndarray.Convert
import LibAsdf.Ndarray.Read
import LibAsdf.Ndarray.Tile
import LibAsdf.Ndarray.Bounds
import LibAsdf.Ndarray.TileData
import LibAsdf.Ndarray.Inline
import LibAsdf.Ndarray.Offset
import LibAsdf.Ndarray.InlineValues
import LibAsdf.Stream.Content
import LibAsdf.Stream.Write
import LibAsdf.Block.Record
import LibAsdf.Block.Read
import LibAsdf.Block.Write
import LibAsdf.Block.RoundTrip
import LibAsdf.Block.Session
import LibAsdf.Block.Ownership
import LibAsdf.Block.Agreement
import LibAsdf.Block.Emit
import LibAsdf.Compression.Lz4
import LibAsdf.Compression.Codecs
import LibAsdf.Compression.Lazy
import LibAsdf.Base.Best
import LibAsdf.Yaml.Tag
import LibAsdf.Base.Produce
import LibAsdf.Yaml.Node
import LibAsdf.Value.Find
import LibAsdf.Yaml.Scalar
import LibAsdf.Yaml.Decimal
import LibAsdf.Value.Scalar
import LibAsdf.Value.Access
import LibAsdf.Value.Integers
import LibAsdf.Value.History
import LibAsdf.Value.Build
import LibAsdf.Value.Mapping
import LibAsdf.Datatype.Parse
import LibAsdf.Datatype.Serialize
import LibAsdf.Datatype.RoundTrip
import LibAsdf.Ndarray.InlineParse
import LibAsdf.Ndarray.InlineTree
import LibAsdf.Ndarray.InlineArrays
import LibAsdf.Ndarray.Deserialize
import LibAsdf.Ndarray.MetadataRoundTrip
import LibAsdf.Core.Metadata
import LibAsdf.Core.RoundTrip
import LibAsdf.Core.Settled
import LibAsdf.Core.Merge
import LibAsdf.Ndarray.Buffers
import LibAsdf.Core.Handles
import LibAsdf.Compression.Lz4Memory
import LibAsdf.Compression.Complete
import LibAsdf.Compression.Open
import LibAsdf.Yaml.PathParse
import LibAsdf.Yaml.PathBehind
import LibAsdf.Base.Follow
import LibAsdf.Emitter.Basic
import LibAsdf.Emitter.Recorder
import LibAsdf.Emitter.Replace
import LibAsdf.Emitter.Failures
import LibAsdf.Emitter.Memory
import LibAsdf.Emitter.Front
import LibAsdf.Emitter.WriteMem
import LibAsdf.Emitter.Silent
import LibAsdf.Stream.Skip
import LibAsdf.Base.Slots
import LibAsdf.Stream.Mmap
import LibAsdf.Block.Access
import LibAsdf.Block.Checksum
import LibAsdf.Ndarray.ConvertIntegers
import LibAsdf.Base.Floats
import LibAsdf.Ndarray.ConvertFloats
import LibAsdf.Yaml.IntGrammar
import LibAsdf.Ndarray.InlineElements
import LibAsdf.Ndarray.InlineTypes
import LibAsdf.Value.Quoting
import LibAsdf.Value.Plain
import LibAsdf.Base.Expressions
import LibAsdf.Yaml.FloatGrammar
import LibAsdf.Value.Classes
import LibAsdf.Base.Calendar
import LibAsdf.Core.Julian
import LibAsdf.Parser.Directive
import LibAsdf.Parser.Bounds
import LibAsdf.Parser.Safety
import LibAsdf.Parser.BlockSafety
import LibAsdf.Parser.Termination
import LibAsdf.Yaml.ScalarReads
import LibAsdf.Value.AmbiguousReads
import LibAsdf.Parser.VersionLine
import LibAsdf.Datatype.Sizes
import LibAsdf.Base.Scanning
import LibAsdf.Core.IsoTime
import LibAsdf.Core.TimeRoundTrip
import LibAsdf.Stream.Whole
import LibAsdf.Parser.Layout
import LibAsdf.Parser.Reading
import LibAsdf.Parser.ReadingBlocks
import LibAsdf.Parser.WholeFile
import LibAsdf.Emitter.ReadBack
import LibAsdf.Emitter.Reopen
import LibAsdf.Base.Rounding
import LibAsdf.Base.FloatScale
import LibAsdf.Yaml.FloatText
import LibAsdf.Yaml.FloatFormat
import LibAsdf.Value.FloatRoundTrip
import LibAsdf.Ndarray.InlineNodes
import LibAsdf.Ndarray.InlineRoundTrip
import LibAsdf.Ndarray.ByteOrder
