import ComputerMonitor.CPUMonitor.Kinds
import ComputerMonitor.CPUMonitor.Latest
import ComputerMonitor.CPUMonitor.Sampling
import ComputerMonitor.CPUMonitor.Usage
import ComputerMonitor.Common.Trimming
import ComputerMonitor.DiskMonitor.Columns
import ComputerMonitor.DiskMonitor.Publication
import ComputerMonitor.DiskMonitor.SecondReport
import ComputerMonitor.DiskMonitor.Succession
import ComputerMonitor.DiskMonitor.Tail
import ComputerMonitor.MemoryMonitor.Document
import ComputerMonitor.MemoryMonitor.Figures
import ComputerMonitor.Monitor.Builds
import ComputerMonitor.Monitor.Disks
import ComputerMonitor.Monitor.Loops
import ComputerMonitor.Monitor.Samplers
import ComputerMonitor.Monitor.Snapshot
import ComputerMonitor.Monitor.WindDown
import ComputerMonitor.Serializer.Documents
import ComputerMonitor.Server.Contents
import ComputerMonitor.Server.Encoding
import ComputerMonitor.Server.Figures
import ComputerMonitor.Server.Network
import ComputerMonitor.Server.Progress
import ComputerMonitor.Server.ReadBack
import ComputerMonitor.Server.Realisation
import ComputerMonitor.Server.Rounds
import ComputerMonitor.Support.ToChars
