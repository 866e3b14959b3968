import ComputerMonitor.CPUMonitor
import ComputerMonitor.DiskMonitor
import ComputerMonitor.MemoryMonitor
import ComputerMonitor.Support.Json

/-! `Monitor.cpp`: the JSON documents assembled from the monitors. -/

namespace ComputerMonitor

open Bytes Stdio

/-- What one request finds: the contents of the files and the output of `df` each time it asks for
them, and the figures that the sampling threads have left. -/
structure Readings where
  cpuinfo : Fin 2 → Stream
  cpuUsage : Double
  meminfo : Fin 3 → Stream
  df : Fin 2 → Stream
  diskIO : Double × Double

/-- Only the `CPUMonitor` keeps something from one request to the next. -/
structure Monitor where
  cpuMonitor : CPUMonitor

namespace Monitor

open Json

def create : Monitor := ⟨CPUMonitor.create⟩

def cpuEntry (modelName baseClock usage : Bytes) : Json :=
  ofInitList [pair (ascii "modelName") (.string modelName),
    pair (ascii "baseClock") (.string baseClock), pair (ascii "usage") (.string usage)]

def getCPU (m : Monitor) (r : Readings) : Option (Json × Monitor) := do
  let (modelName, cpu) ← m.cpuMonitor.getCPUModelName (r.cpuinfo 0)
  let (baseClock, cpu) ← cpu.getCpuBaseClock (r.cpuinfo 1)
  let cpuJson ← null.set (ascii "cpu")
    (cpuEntry modelName baseClock (CPUMonitor.getCpuUsage r.cpuUsage))
  return (cpuJson, ⟨cpu⟩)

def memoryEntry (total unused : UInt64) (usage : Bytes) : Json :=
  ofInitList [pair (ascii "total") (.numberUnsigned total.toNat),
    pair (ascii "unused") (.numberUnsigned unused.toNat), pair (ascii "usage") (.string usage)]

def getMemory (r : Readings) : Option Json := do
  let total ← MemoryMonitor.getMemoryTotal (r.meminfo 0)
  let unused ← MemoryMonitor.getMemoryUnused (r.meminfo 1)
  let usage ← MemoryMonitor.getMemoryUsage (r.meminfo 2)
  null.set (ascii "memory") (memoryEntry total unused usage)

/-- `const double GB = 1024 * 1024` -/
def GB : Double := .finite (1024 * 1024)

def diskEntry (it : DFStructInfo) : Json :=
  ofInitList [pair (ascii "name") (.string it.mounted.str),
    pair (ascii "total") (.numberFloat (it.blocks / GB)),
    pair (ascii "unused") (.numberFloat (it.available / GB)),
    pair (ascii "used") (.numberFloat (it.used / GB))]

def diskName (num : ℕ) : Bytes := ascii "disk" ++ decimal num

/-- The loop of `GetDisk` from the disk with the number `num` on. -/
def addDisks (diskJson : Json) (num : ℕ) : List DFStructInfo → Option Json
  | [] => some diskJson
  | it :: disks => do
    let diskJson ← diskJson.set (diskName num) (diskEntry it)
    addDisks diskJson (num + 1) disks

def getDisk (r : Readings) : Option Json := do
  let disks ← DiskMonitor.getDisksByDf (r.df 0)
  addDisks null 0 disks

/-- `GetDisk` without `USEDF_METHOD`: each of the three figures is from a `statfs` of its own. -/
def getDiskByStatfs (diskInfo : Fin 3 → DiskPrivate.Statfs) : Option Json :=
  null.set (ascii "disk0")
    (ofInitList [pair (ascii "total") (.numberFloat (DiskMonitor.getDiskTotal (diskInfo 0))),
      pair (ascii "unused") (.numberFloat (DiskMonitor.getDiskFree (diskInfo 1))),
      pair (ascii "used") (.numberFloat (DiskMonitor.getDiskUsed (diskInfo 2)))])

def getInfoByJson (m : Monitor) (r : Readings) : Option (Json × Monitor) := do
  let (cpu, m) ← m.getCPU r
  let result := mergePatch null cpu
  let memory ← getMemory r
  let result := mergePatch result memory
  let disk ← getDisk r
  let result := mergePatch result disk
  return (if result.isEmpty then null else result, m)

def overviewJson (lastCount useCount : Double) : Option Json :=
  null.set (ascii "data") (ofInitList [pair (ascii "lastCount") (.numberFloat lastCount),
    pair (ascii "useCount") (.numberFloat useCount)])

/-- `DiskTotalByDf` and `DiskUsedByDf` each run `df`. -/
def diskInfoOverview (r : Readings) : Option Json := do
  let lastCount ← DiskMonitor.diskTotalByDf (r.df 0)
  let useCount ← DiskMonitor.diskUsedByDf (r.df 1)
  overviewJson lastCount useCount

/-- `const double TB{1024 * 1024 * 1024}` -/
def TB : Double := .finite (1024 * 1024 * 1024)

def listEntry (it : DFStructInfo) : Option Json := do
  let data ← null.set (ascii "diskPosition") (.string it.mounted.str)
  let data ← data.set (ascii "diskCapacity") (.string (Double.toFixed 6 (it.blocks / TB)))
  let data ← data.set (ascii "diskSpace") (.string (Double.toFixed 6 (it.available / TB)))
  let data ← data.set (ascii "diskState") (.numberInteger 0)
  let data ← data.set (ascii "testProgress") (.numberInteger 1)
  let data ← data.set (ascii "testResult") (.numberInteger 1)
  data.set (ascii "enable") (.boolean true)

/-- The loop of `DisksInfo`. -/
def addEntries (diskListJson : Json) : List DFStructInfo → Option Json
  | [] => some diskListJson
  | it :: disks => do
    let data ← listEntry it
    let diskListJson ← diskListJson.modify (ascii "list") (pushBack data)
    addEntries diskListJson disks

def disksInfoJson (disks : List DFStructInfo) (total : Double) : Option Json := do
  let diskListJson ← addEntries null disks
  null.set (ascii "data") (ofInitList [diskListJson, pair (ascii "total") (.numberFloat total)])

/-- The list is from one run of `df` and the total from another. -/
def disksInfo (r : Readings) : Option Json := do
  let disks ← DiskMonitor.getDisksByDf (r.df 0)
  let total ← DiskMonitor.diskTotalByDf (r.df 1)
  disksInfoJson disks total

def disksIO (r : Readings) : Option Json :=
  null.set (ascii "data") (ofInitList [pair (ascii "writeIo") (.numberFloat r.diskIO.2),
    pair (ascii "readIo") (.numberFloat r.diskIO.1)])

end Monitor

end ComputerMonitor
