import IQuik.Ext2.FirstLoads
import IQuik.Ext2.Inodes
import IQuik.Ext2.ShortReads
import IQuik.Ext2.Transfers
import IQuik.Ext2.Symlinks
import IQuik.Ext2.Directories
import IQuik.Ext2.Resolution
import IQuik.Ext2.Geometry
import IQuik.Ext2.Bounds
import IQuik.Ext2.Readable
import IQuik.Ext2.Tree
import IQuik.Ext2.FindFile
import IQuik.Storage.Handles
import IQuik.Ext2.Mounts
import IQuik.Memory.Heap
import IQuik.PowerPC.Setjmp
import IQuik.Ext2.BlockMap
import IQuik.Installer.Inside
import IQuik.Config.Total
import IQuik.Config.RoundTrip
import IQuik.Loader.Specification
import IQuik.Loader.BootLine
import IQuik.Loader.LoadPaths
import IQuik.Loader.BootLoop
import IQuik.Loader.Granted
import IQuik.Loader.Relocation
import IQuik.Loader.Headers
import IQuik.Storage.Extents
import IQuik.Ext2.Sectors
import IQuik.Prom.Shim
import IQuik.Prom.DeviceTree
import IQuik.Data.Forests
import IQuik.Data.Buffers
import IQuik.Loader.FilePaths
import IQuik.Loader.LineEditor
import IQuik.Data.Conversion
import IQuik.Loader.Printing
import IQuik.Config.Quoting
import IQuik.Config.Sections
import IQuik.Loader.Lookups
import IQuik.Loader.KernelArguments
import IQuik.Loader.ShowFile
import IQuik.Loader.Handover
import IQuik.Memory.Reuse
import IQuik.PowerPC.SavedRegisters
import IQuik.PowerPC.StringCopies
import IQuik.PowerPC.CallFrames
import IQuik.Loader.Configured
import IQuik.Loader.LastTurn
import IQuik.Loader.BootedFile
import IQuik.Loader.ListFiles
import IQuik.Installer.BootChain
import IQuik.Loader.InPlace
