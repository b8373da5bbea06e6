import Kcf.Library.LittleEndian
import Kcf.Library.Overwrite
import Kcf.Library.CallMachine
import Kcf.Library.Window
import Kcf.Library.Loop
import Kcf.Library.Xor
import Kcf.Memory.Basic
import Kcf.Memory.Bytepack
import Kcf.Memory.FieldList
import Kcf.Record.Crc32c
import Kcf.Record.Crc32cLinear
import Kcf.Record.Crc32cSoftware
import Kcf.Record.Crc32cHardware
import Kcf.Stream.Basic
import Kcf.Stream.Win32
import Kcf.Stream.Chunked
import Kcf.Record.Basic
import Kcf.Record.Layout
import Kcf.Handle.Basic
import Kcf.Writer.Basic
import Kcf.Writer.Cases
import Kcf.Writer.Streaming
import Kcf.Writer.Append
import Kcf.Writer.Counts
import Kcf.Writer.Session
import Kcf.Writer.Backpatch
import Kcf.Writer.OneShot
import Kcf.Writer.Bounds
import Kcf.Reader.Basic
import Kcf.Reader.Header
import Kcf.Reader.Cases
import Kcf.Reader.Sizes
import Kcf.Reader.Calls
import Kcf.Reader.Account
import Kcf.Reader.Past
import Kcf.Reader.States
import Kcf.Reader.Frame
import Kcf.Reader.Drain
import Kcf.Reader.Skip
import Kcf.Reader.Rounds
import Kcf.Reader.Exact
import Kcf.Reader.Short
import Kcf.Reader.Received
import Kcf.Reader.Stands
import Kcf.Archive.Basic
import Kcf.Archive.Files
import Kcf.Archive.Packing
import Kcf.Archive.Marker
import Kcf.Archive.Switch
import Kcf.Archive.RoundTrip
import Kcf.Archive.Declared
import Kcf.Archive.Stated
import Kcf.Archive.Metadata
import Kcf.Archive.Parsing
import Kcf.Archive.Reparsing
import Kcf.Archive.Beginning
import Kcf.Archive.Inserting
import Kcf.Archive.Extract
import Kcf.Archive.Unpacking
import Kcf.Archive.Extraction
import Kcf.Archive.Fragments
import Kcf.Archive.Skipping
import Kcf.Archive.Consuming
import Kcf.Archive.FileInfo
import Kcf.Archive.Version
import Kcf.Archive.Ending
import Kcf.Library.Simulation
import Kcf.Writer.Draft
import Kcf.Library.SelfDelimiting
import Kcf.Archive.Decoding
import Kcf.Archive.Playback
import Kcf.Archive.Written
import Kcf.Archive.Phases
import Kcf.Archive.Calls
import Kcf.Archive.Lifecycle
import Kcf.Archive.Turns
import Kcf.Archive.Safety
import Kcf.Archive.Damage
import Kcf.Record.Crc32cBig
import Kcf.Record.Crc32cBurst
import Kcf.Stream.ChunkedWrite
