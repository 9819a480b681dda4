import LibretroUae.Cia.Runs
import LibretroUae.Cia.Lazy
import LibretroUae.Cia.SaveState
import LibretroUae.Disk.RoundTrip
import LibretroUae.Events.OnTime
import LibretroUae.Hardfile.RdbLayout
import LibretroUae.Hardfile.ScsiRange
import LibretroUae.Akiko.SaveState
import LibretroUae.Storage.Windows
import LibretroUae.Storage.VhdReads
import LibretroUae.Filesys.RecordLocks
import LibretroUae.Filesys.Notified
import LibretroUae.Filesys.LockAccounting
import LibretroUae.Filesys.DatabaseKept
import LibretroUae.Filesys.Scans
import LibretroUae.Filesys.Listings
import LibretroUae.Blitter.AreaBlits
import LibretroUae.Filesys.FileSize
import LibretroUae.DiskControl.Kept
import LibretroUae.Filesys.FilePositions
import LibretroUae.Filesys.ObjectsKept
import LibretroUae.Audio.SaveState
import LibretroUae.SaveState.ChunkStream
import LibretroUae.Flash.MicrowireCommands
import LibretroUae.Flash.I2cPersistence
import LibretroUae.Disk.ExeContents
import LibretroUae.Disk.RawTrack
import LibretroUae.Disk.TrackLegal
import LibretroUae.Flash.RomProtection
import LibretroUae.Flash.RomPersistence
import LibretroUae.Disk.PcdosRoundTrip
import LibretroUae.Cpu.DivTiming
import LibretroUae.Cpu.Divl
import LibretroUae.Cpu.Bitfield
import LibretroUae.Cia.TimeOfDay
import LibretroUae.Cia.Period
import LibretroUae.Cia.TimerReads
import LibretroUae.Flash.RomBounds
import LibretroUae.Keyboard.Fifo
import LibretroUae.Disk.TrackBounds
import LibretroUae.Disk.SwapEnds
import LibretroUae.Cdrom.Subchannel
import LibretroUae.Blitter.Fill
import LibretroUae.Akiko.Transpose
import LibretroUae.Hardfile.Geometry
import LibretroUae.Filesys.Prune
import LibretroUae.Storage.RdbArchive
import LibretroUae.Hardfile.ModeSense
import LibretroUae.Storage.MemoryFile
import LibretroUae.Archive.Lookup
import LibretroUae.Calc.Soundness
import LibretroUae.Memory.Conflicts
import LibretroUae.Rom.Checksum
import LibretroUae.Rom.RomList
import LibretroUae.Rom.Trumpcard
import LibretroUae.Threads.Deliveries
import LibretroUae.Disk.Crc
import LibretroUae.Disk.Drives
import LibretroUae.Disk.ReadDma
import LibretroUae.Blitter.Minterm
import LibretroUae.Blitter.Line
import LibretroUae.Cpu.StackPointers
import LibretroUae.Drawing.PlanarLine
import LibretroUae.Archive.Listing
import LibretroUae.Cdrom.Sector
