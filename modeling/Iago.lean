import Iago.AndroidFootprint
import Iago.Asking
import Iago.BiosParams
import Iago.Blocks
import Iago.BootsInstalled
import Iago.BusName
import Iago.Bytes
import Iago.Calls
import Iago.CopyFile
import Iago.CreatePartitions
import Iago.Decimal
import Iago.Dialogue
import Iago.DiskConfig
import Iago.DualBoot
import Iago.DualBootFrame
import Iago.DualBootSpace
import Iago.EntryCreate
import Iago.EntryTable
import Iago.Exec
import Iago.Execution
import Iago.FatFormats
import Iago.FatFresh
import Iago.FatInstalled
import Iago.FatRuns
import Iago.FatSectors
import Iago.FatSizes
import Iago.FatVolume
import Iago.FatWritten
import Iago.FreeSpace
import Iago.FsChecks
import Iago.Gaps
import Iago.Getopt
import Iago.GptCopies
import Iago.GptCrash
import Iago.GptEntries
import Iago.GptFormat
import Iago.GptLayout
import Iago.GptRead
import Iago.GptRoundTrip
import Iago.GptTypes
import Iago.GptWrite
import Iago.GuidText
import Iago.Gummiboot
import Iago.Histories
import Iago.Host
import Iago.ImagesLand
import Iago.InstallsWell
import Iago.LargestFree
import Iago.LayoutFits
import Iago.LayoutTwice
import Iago.LoadConfig
import Iago.MbrConfig
import Iago.MbrDecodes
import Iago.MbrReader
import Iago.MenuPrompts
import Iago.NameField
import Iago.NewfsMsdos
import Iago.NumberPrompts
import Iago.OneLoader
import Iago.Options
import Iago.Partitioner
import Iago.Paths
import Iago.Phases
import Iago.Platform
import Iago.Preinit
import Iago.Prompts
import Iago.PublishedOptions
import Iago.RawImage
import Iago.ReadEnds
import Iago.RobustWrite
import Iago.SectorSize
import Iago.Slots
import Iago.SpaceFound
import Iago.SpaceRequired
import Iago.Store
import Iago.Stretches
import Iago.StringLists
import Iago.Syslinux
import Iago.TableEdits
import Iago.TableKept
import Iago.Tiling
import Iago.Tokens
import Iago.WindowsScan
import Iago.WindowsSize
import Iago.WipeDisk
import Iago.WriteImages
