import FragmentationGovernor.Model.Protocol

/-! # The reference worker

The process of `tools/fg_worker.cpp`: it registers, publishes its resource and then the layout
of it, and stays alive. It waits for each reply and ignores it. -/

namespace FragmentationGovernor.Worker

def mib : UInt64 := 1024 * 1024

def U : UInt64 := 256 * mib

def res (wid : UInt64) : Resource where
  id := ⟨wid⟩
  generation := ⟨1⟩
  pool := ⟨1⟩
  device := ⟨wid⟩
  node := ⟨1⟩
  domain := .cudaDeviceMemory
  capacity := ⟨2048 * mib⟩
  provenance := .derived

def block (id owner offset length : UInt64) (movability : Movability) : Allocation :=
  { id := ⟨id⟩, generation := ⟨1⟩, owner := ⟨owner⟩, offset := ⟨offset⟩, length := ⟨length⟩,
    movability := movability, provenance := .derived }

/-- Worker 1 has a fragmented resource, any other one four releaseable blocks. -/
def allocations (wid : UInt64) : List Allocation :=
  if wid = 1 then
    [block 101 (100 + wid) 0 U .immovable,
      block 102 (100 + wid) (2 * U) U .immovable,
      block 103 (100 + wid) (4 * U) U .immovable,
      block 104 (100 + wid) (6 * U) U .immovable,
      block 105 (100 + wid) (3 * U) (U / 4) .movableAfterQuiesce]
  else
    (List.range 4).map (fun i => block (201 + UInt64.ofNat i) (200 + wid)
      (2 * UInt64.ofNat i * U) U .releaseable)

end FragmentationGovernor.Worker
