import Fossil.Block
import Fossil.Lib.Replay
import Fossil.Lib.Sorted
import Fossil.Lib.Heap
import Fossil.Cache.Dependency
import Fossil.Cache.Flush
import Fossil.Cache.Blocks
import Fossil.NineP.Fcall
import Fossil.NineP.Proc
import Fossil.NineP.Excl
import Fossil.NineP.DirRead
import Fossil.Venti.Score
import Fossil.Source.Entry
import Fossil.Source.Gen
import Fossil.Source.Codec
import Fossil.Source.Tree
import Fossil.Lib.Bytes
import Fossil.Lib.BinSearch
import Fossil.Lib.Extent
import Fossil.Lib.DList
import Fossil.Lib.Wire
import Fossil.Vac.MetaBlock
import Fossil.Vac.Layout
import Fossil.Vac.Index
import Fossil.Vac.Search
import Fossil.Vac.Compact
import Fossil.Vac.Alloc
import Fossil.Vac.File
import Fossil.Vac.Flush
import Fossil.Vac.DirEntry
import Fossil.Venti.Client
import Fossil.NineP.User
import Fossil.Vac.Validate
import Fossil.Lib.Strip
import Fossil.Venti.Zero
import Fossil.Venti.Root
import Fossil.Venti.Reply
import Fossil.Cache.Label
import Fossil.NineP.Walk
import Fossil.NineP.Wstat
import Fossil.NineP.Mux
import Fossil.Disk.Partition
import Fossil.Console.Tokenize
import Fossil.Venti.Entry
import Fossil.Venti.ScoreText
import Fossil.Console.Config
import Fossil.NineP.Who
import Fossil.Source.Depth
import Fossil.Lib.Slots
import Fossil.Source.DirSize
import Fossil.Source.Shrink
import Fossil.Source.Read
import Fossil.Source.Archive
import Fossil.Source.Archived
import Fossil.Source.ArchiveProgress
import Fossil.Lib.Run
import Fossil.Fs.Super
import Fossil.Fs.Archiver
import Fossil.Lib.Decode
import Fossil.NineP.Bits
import Fossil.NineP.Wire
import Fossil.NineP.Stat
import Fossil.NineP.Message
