import TangPingOS.Devices.BulkCalls
import TangPingOS.Devices.Completions
import TangPingOS.DirectoryTree
import TangPingOS.Exfat.ByteStrings
import TangPingOS.Exfat.Lookup
import TangPingOS.Exfat.Marking
import TangPingOS.Exfat.Recovery
import TangPingOS.Exfat.Slots
import TangPingOS.Fat32.Sequences
import TangPingOS.Memory.HeapRuns
import TangPingOS.Memory.Teardown
import TangPingOS.Process.Appends
import TangPingOS.Process.Arguments
import TangPingOS.Process.Fairness
import TangPingOS.Process.FileResults
import TangPingOS.Process.Infos
import TangPingOS.Process.LoaderBounds
import TangPingOS.Process.RawWrites
import TangPingOS.Process.Slots
import TangPingOS.Process.UserHeap
import TangPingOS.Process.Wakeups
import TangPingOS.Vfs.Paths
