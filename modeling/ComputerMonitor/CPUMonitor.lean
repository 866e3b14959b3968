import ComputerMonitor.Common
import ComputerMonitor.Support.Loop
import ComputerMonitor.Support.Scan
import ComputerMonitor.Support.Stdio

/-! `CPUMonitor.cpp`: the usage computed from two snapshots of `/proc/stat`, and the two texts read
from `/proc/cpuinfo`. -/

namespace ComputerMonitor

open Bytes Scan Stdio

structure CPUInfo where
  name : CharArray 20
  user : UInt32
  nice : UInt32
  system : UInt32
  idle : UInt32
  iowait : UInt32
  irq : UInt32
  softirq : UInt32
  deriving DecidableEq

namespace CPUPrivate

/-- What `sscanf` stores into a zeroed `CPUInfo`; `none` when the name runs past its array. -/
def assign : List Item → Option CPUInfo
  | .word w :: us =>
    let field (i : ℕ) : UInt32 := match us[i]? with
      | some (.uint n) => n
      | _ => 0
    (CharArray.store 20 w).map fun name =>
      { name, user := field 0, nice := field 1, system := field 2, idle := field 3,
        iowait := field 4, irq := field 5, softirq := field 6 }
  | _ => (CharArray.store 20 []).map fun name =>
      { name, user := 0, nice := 0, system := 0, idle := 0, iowait := 0, irq := 0, softirq := 0 }

/-- `none` also stands for an empty `/proc/stat`, where the buffer is scanned without ever having
been written. -/
def getCPUInfo (fp : Stream) : Option CPUInfo :=
  let (ok, buf, _) := fgets 256 fp
  if ok then assign (sscanf buf [.word, .uint, .uint, .uint, .uint, .uint, .uint, .uint])
  else none

def calcCPUUsage (oldInfo newInfo : CPUInfo) : Double :=
  let od : Double := ((oldInfo.user + oldInfo.nice + oldInfo.system + oldInfo.idle +
    oldInfo.iowait + oldInfo.irq + oldInfo.softirq).toNat : Double)
  let nd : Double := ((newInfo.user + newInfo.nice + newInfo.system + newInfo.idle +
    newInfo.iowait + newInfo.irq + newInfo.softirq).toNat : Double)
  let sumTime := nd - od
  let freeTime : Double := ((newInfo.idle - oldInfo.idle).toNat : Double)
  let cpuUsageRate := 1 - freeTime / sumTime
  if Double.lt 0 cpuUsageRate then cpuUsageRate else 0

/-- The part of a string after its first colon; all of it when there is none, since
`npos + 1` is 0. -/
def afterColon (tmp : Bytes) : Bytes :=
  match tmp.idxOf? 0x3a with
  | some pos => tmp.drop (pos + 1)
  | none => tmp

structure CpuinfoState where
  fp : Stream
  modelName : Bytes
  cpuMhz : Bytes
  findNum : ℕ

/-- One round of the loop over `/proc/cpuinfo`.  The buffer is zeroed before each `fgets`, whose
result is not looked at. -/
def cpuinfoStep (s : CpuinfoState) : CpuinfoState ⊕ (Bytes × Bytes) :=
  if s.fp.feof then .inr (s.modelName, s.cpuMhz)
  else
    let (_, buff, fp) := fgets 1023 s.fp
    let s := { s with fp }
    let s :=
      if strncmpEq (ascii "model name") buff 10 then
        { s with modelName := stringTrimmed (afterColon (cstr buff)), findNum := s.findNum + 1 }
      else s
    let s :=
      if strncmpEq (ascii "cpu MHz") buff 7 then
        { s with cpuMhz := stringTrimmed (afterColon (cstr buff)), findNum := s.findNum + 1 }
      else s
    if s.findNum = 2 then .inr (s.modelName, s.cpuMhz) else .inl s

/-- `none` when the loop is still running after every byte has been read. -/
def getCPUModelNameAndBaseClock (fp : Stream) : Option (Bytes × Bytes) :=
  Loop.run cpuinfoStep (fp.rest.length + 2) ⟨fp, [], [], 0⟩

end CPUPrivate

/-- The two texts are read until they are not empty, and kept. -/
structure CPUMonitor where
  modelName : Bytes
  baseClock : Bytes
  deriving DecidableEq

namespace CPUMonitor

def create : CPUMonitor := ⟨[], []⟩

def getCPUModelName (m : CPUMonitor) (cpuinfo : Stream) : Option (Bytes × CPUMonitor) :=
  if m.modelName = [] then
    (CPUPrivate.getCPUModelNameAndBaseClock cpuinfo).map fun t =>
      (t.1, { m with modelName := t.1 })
  else some (m.modelName, m)

def getCpuBaseClock (m : CPUMonitor) (cpuinfo : Stream) : Option (Bytes × CPUMonitor) :=
  if m.baseClock = [] then
    (CPUPrivate.getCPUModelNameAndBaseClock cpuinfo).map fun t =>
      (t.2, { m with baseClock := t.2 })
  else some (m.baseClock, m)

/-- `" {:.2f}"` -/
def getCpuUsage (cpuUsage : Double) : Bytes := ascii " " ++ Double.toFixed 2 cpuUsage

end CPUMonitor

end ComputerMonitor
