import ComputerMonitor.Support.Loop
import ComputerMonitor.Support.Scan
import ComputerMonitor.Support.Stdio

/-! `MemoryMonitor.cpp`: the fields of `/proc/meminfo` and the figures derived from them. -/

namespace ComputerMonitor

open Bytes Scan Stdio

@[ext]
structure MemoryPacket where
  memTotal : UInt64
  memFree : UInt64
  memAvailable : UInt64
  buffers : UInt64
  cached : UInt64
  shmem : UInt64
  sReclaimable : UInt64
  deriving DecidableEq

def MemoryPacket.zero : MemoryPacket := ⟨0, 0, 0, 0, 0, 0, 0⟩

namespace MemoryPrivate

/-- `sscanf(buff, "%*s %lu", &field)`, which leaves the field alone when it does not convert. -/
def scanField (buff : Bytes) (field : UInt64) : UInt64 :=
  match sscanf buff [.skip, .ulong] with
  | [.ulong n] => n
  | _ => field

/-- The chain of prefix tests on one line. -/
def assign (buff : Bytes) (m : MemoryPacket) : MemoryPacket :=
  if strncmpEq buff (ascii "MemTotal:") 9 then
    { m with memTotal := scanField buff m.memTotal }
  else if strncmpEq buff (ascii "MemFree:") 8 then
    { m with memFree := scanField buff m.memFree }
  else if strncmpEq buff (ascii "Buffers:") 8 then
    { m with buffers := scanField buff m.buffers }
  else if strncmpEq buff (ascii "Cached:") 7 then
    { m with cached := scanField buff m.cached }
  else if strncmpEq buff (ascii "Shmem:") 6 then
    { m with shmem := scanField buff m.shmem }
  else if strncmpEq buff (ascii "SReclaimable:") 13 then
    { m with sReclaimable := scanField buff m.sReclaimable }
  else m

def meminfoStep (s : Stream × MemoryPacket) : (Stream × MemoryPacket) ⊕ MemoryPacket :=
  if s.1.feof then .inr s.2
  else
    let (ok, buff, fp) := fgets 255 s.1
    if ok then .inl (fp, assign buff s.2) else .inr s.2

def getMemoryInfo (fp : Stream) : Option MemoryPacket :=
  Loop.run meminfoStep (fp.rest.length + 1) (fp, .zero)

/-- The `used` of `GetMemoryUsage`, in `unsigned long` arithmetic. -/
def used (memInfo : MemoryPacket) : UInt64 :=
  memInfo.memTotal -
    (memInfo.memFree + memInfo.buffers + memInfo.cached + memInfo.sReclaimable - memInfo.shmem)

def getMemoryTotal (fp : Stream) : Option UInt64 := (getMemoryInfo fp).map (·.memTotal)

def getMemoryUnused (fp : Stream) : Option UInt64 := (getMemoryInfo fp).map (·.memAvailable)

/-- The ratio, `" {:.2f}"`-formatted. -/
def getMemoryUsage (fp : Stream) : Option Bytes :=
  (getMemoryInfo fp).map fun memInfo =>
    ascii " " ++ Double.toFixed 2
      (((used memInfo).toNat : Double) / (memInfo.memTotal.toNat : Double))

theorem length_meminfoStep_lt {s t : Stream × MemoryPacket} (h : meminfoStep s = .inl t) :
    t.1.rest.length < s.1.rest.length := by
  obtain ⟨fp, m⟩ := s
  simp only [meminfoStep] at h
  split at h
  · cases h
  · split at h
    · rename_i hok
      cases h
      exact fgets_ok_lt (by decide) hok
    · cases h

/-- The loop over the lines ends within as many rounds as there are bytes. -/
theorem getMemoryInfo_eq_some_iff (fp : Stream) (m : MemoryPacket) :
    getMemoryInfo fp = some m ↔ Loop.Returns meminfoStep (fp, .zero) m :=
  Loop.run_eq_some_iff (fun _ => True) (fun s => s.1.rest.length)
    (fun _ _ _ h => ⟨trivial, length_meminfoStep_lt h⟩) trivial (by simp)

theorem exists_getMemoryInfo (fp : Stream) : ∃ m, getMemoryInfo fp = some m :=
  Loop.exists_run_of_variant (fun _ => True) (fun s => s.1.rest.length)
    (fun _ _ _ h => ⟨trivial, length_meminfoStep_lt h⟩) trivial (by simp)

end MemoryPrivate

namespace MemoryMonitor

/-- `const int GB{1024*1024}`: the figures are in kB. -/
def GB : UInt64 := 1024 * 1024

def getMemoryTotal (fp : Stream) : Option UInt64 := (MemoryPrivate.getMemoryTotal fp).map (· / GB)

def getMemoryUnused (fp : Stream) : Option UInt64 := (MemoryPrivate.getMemoryUnused fp).map (· / GB)

def getMemoryUsage (fp : Stream) : Option Bytes := MemoryPrivate.getMemoryUsage fp

end MemoryMonitor

end ComputerMonitor
