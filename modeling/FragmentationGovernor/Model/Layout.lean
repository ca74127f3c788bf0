import FragmentationGovernor.Model.Enums
import FragmentationGovernor.Library.OrdMap
import Mathlib.Data.Multiset.Fold
import Mathlib.Data.Multiset.AddSub
import Mathlib.Order.Lattice

/-! # The canonical block layout of one resource

`resource/allocation.hpp` and `resource/layout.hpp`. A call returns the layout it
leaves behind together with `ok` or the error text; an outer error is a raised
`ValueError`. -/

namespace FragmentationGovernor

/-- A live allocation of a contiguous span within a resource. -/
structure Allocation where
  id : AllocationId := default
  generation : AllocationGeneration := default
  owner : AllocationOwnerId := default
  offset : Bytes := 0
  length : Bytes := 0
  movability : Movability := .unknown
  reservation : Option ReservationId := none
  policyProtected : Bool := false
  workload : Option WorkloadId := none
  provenance : Provenance := .unknown
deriving DecidableEq

/-- A contiguous region of the layout; free regions are free blocks. -/
structure Region where
  kind : RegionKind
  offset : Bytes
  length : Bytes
  allocId : Option AllocationId
deriving DecidableEq

structure ResourceLayout where
  capacity : Bytes := 0
  /-- interval map, keyed by offset -/
  regions : OrdMap Bytes Region := ∅
  /-- free block length index -/
  freeLengths : Multiset Bytes := 0
  allocOffsets : OrdMap AllocationId Bytes := ∅
  /-- authoritative metadata -/
  allocations : OrdMap AllocationId Allocation := ∅
  freeCapacity : Bytes := 0
  allocCount : Count := 0
deriving DecidableEq

/-- What a layout call answers: success, or the text left in `err`. -/
abbrev LayoutReply := Except String Unit

namespace ResourceLayout

/-- The constructor: one free region, or nothing at capacity zero. -/
def ofCapacity (capacity : Bytes) : ResourceLayout :=
  if capacity = 0 then { capacity := capacity }
  else
    { capacity := capacity
      regions := (∅ : OrdMap Bytes Region).emplace 0 ⟨.free, 0, capacity, none⟩
      freeLengths := {capacity}
      freeCapacity := capacity }

/-! ## Queries -/

def totalCapacity (l : ResourceLayout) : Bytes := l.capacity

def usedCapacity (l : ResourceLayout) : Except ValueError Bytes :=
  l.capacity.sub l.freeCapacity

/-- The last key of the length index, or zero. -/
def largestFreeBlock (l : ResourceLayout) : Bytes := l.freeLengths.fold max 0

def allocationCount (l : ResourceLayout) : Count := l.allocCount

def freeBlockCount (l : ResourceLayout) : Count := Quantity.ofNat (Multiset.card l.freeLengths)

def findAllocation (l : ResourceLayout) (id : AllocationId) : Option Allocation :=
  l.allocations.find? id

/-! ## Private helpers -/

def validateGeometry (l : ResourceLayout) (off len : Bytes) : LayoutReply :=
  if len.value = 0 then .error "zero-length allocation"
  -- the sum is the wrapping one of `uint64_t`
  else if off.value + len.value > l.capacity.value ∨ off.value > l.capacity.value then
    .error "allocation out of bounds"
  else if len.value > l.capacity.value - off.value then .error "allocation end overflow"
  else .ok ()

/-- Drops one occurrence of the length from the index, if there is one. -/
def consumeFree (l : ResourceLayout) (len : Bytes) : ResourceLayout :=
  { l with freeLengths := l.freeLengths.erase len }

/-- The region whose span holds `off`, with its key. -/
def regionContaining (l : ResourceLayout) (off : Bytes) :
    Except ValueError (Option (Bytes × Region)) :=
  match l.regions.findLE? off with
  | none => .ok none
  | some (key, r) =>
      if r.offset ≤ off then do
        let stop ← r.offset.add r.length
        .ok (if off < stop then some (key, r) else none)
      else .ok none

/-- Records a free region and its length. -/
def addFree (l : ResourceLayout) (offset length : Bytes) : ResourceLayout :=
  { l with
    regions := l.regions.emplace offset ⟨.free, offset, length, none⟩
    freeLengths := length ::ₘ l.freeLengths }

/-! ## Insertion -/

/-- The free remainder `[start, stop)` on one side of an inserted span, when nonempty. -/
def addRemainder (l : ResourceLayout) (start stop : Bytes) :
    Except ValueError ResourceLayout :=
  if start < stop then do
    let length ← stop.sub start
    .ok (l.addFree start length)
  else .ok l

/-- The edits of a granted insertion: the free region at `key` is replaced by its left
remainder, the allocated region and its right remainder. -/
def splitFree (l : ResourceLayout) (key : Bytes) (region : Region) (a : Allocation)
    (freeEnd aEnd : Bytes) : Except ValueError ResourceLayout := do
  let l := l.consumeFree region.length
  let l := { l with regions := l.regions.erase key }
  let l ← l.addRemainder region.offset a.offset
  let l := { l with
    regions := l.regions.emplace a.offset ⟨.allocated, a.offset, a.length, some a.id⟩ }
  l.addRemainder aEnd freeEnd

/-- The registry side of an insertion. -/
def registerAllocation (l : ResourceLayout) (a : Allocation) :
    Except ValueError ResourceLayout := do
  let freeCapacity ← l.freeCapacity.sub a.length
  let allocCount ← l.allocCount.add 1
  .ok { l with
    allocations := l.allocations.emplace a.id a
    allocOffsets := l.allocOffsets.insert a.id a.offset
    freeCapacity := freeCapacity
    allocCount := allocCount }

/-- The insertion once the region that holds its offset is found. -/
def insertInto (l : ResourceLayout) (key : Bytes) (region : Region) (a : Allocation) :
    Except ValueError (ResourceLayout × LayoutReply) :=
  if region.kind ≠ .free then .ok (l, .error "allocation overlaps an existing allocation")
  else do
    let freeEnd ← region.offset.add region.length
    let aEnd ← a.offset.add a.length
    if aEnd > freeEnd then .ok (l, .error "allocation exceeds free region")
    else do
      let l ← l.splitFree key region a freeEnd aEnd
      let l ← l.registerAllocation a
      .ok (l, .ok ())

/-- Inserts a freshly governed allocation. -/
def insertAllocation (l : ResourceLayout) (a : Allocation) :
    Except ValueError (ResourceLayout × LayoutReply) :=
  match l.validateGeometry a.offset a.length with
  | .error e => .ok (l, .error e)
  | .ok () =>
      if l.allocations.contains a.id then .ok (l, .error "duplicate allocation id")
      else do
        match ← l.regionContaining a.offset with
        | none => .ok (l, .error "no region contains allocation offset")
        | some (key, region) => l.insertInto key region a

/-! ## Metadata update -/

/-- Updates allocation metadata without changing its geometry. -/
def updateAllocation (l : ResourceLayout) (a : Allocation) : ResourceLayout × LayoutReply :=
  match l.allocations.find? a.id with
  | none => (l, .error "allocation not found")
  | some old =>
      if old.offset ≠ a.offset ∨ old.length ≠ a.length then
        (l, .error "geometry change requires remove+insert")
      else
        ({ l with
          allocations := l.allocations.insert a.id a
          allocOffsets := l.allocOffsets.insert a.id a.offset }, .ok ())

/-! ## Removal -/

/-- Absorbs the region before `off` when it is free: the new start and the layout
without it. -/
def mergeLeft (l : ResourceLayout) (off : Bytes) : Bytes × ResourceLayout :=
  match l.regions.findLT? off with
  | some (key, left) =>
      if left.kind = .free then
        let l := l.consumeFree left.length
        (left.offset, { l with regions := l.regions.erase key })
      else (off, l)
  | none => (off, l)

/-- Absorbs the region after `off` when it is free: the new end and the layout
without it. -/
def mergeRight (l : ResourceLayout) (off stop : Bytes) :
    Except ValueError (Bytes × ResourceLayout) :=
  match l.regions.findGT? off with
  | some (key, right) =>
      if right.kind = .free then do
        let stop ← right.offset.add right.length
        let l := l.consumeFree right.length
        .ok (stop, { l with regions := l.regions.erase key })
      else .ok (stop, l)
  | none => .ok (stop, l)

/-- The edits of a granted removal: the allocated region at `off` and its free
neighbours become one free region. -/
def mergeFreed (l : ResourceLayout) (off len : Bytes) : Except ValueError ResourceLayout := do
  let stop ← off.add len
  let (newStart, l) := l.mergeLeft off
  let (newEnd, l) ← l.mergeRight off stop
  let l := { l with regions := l.regions.erase off }
  let merged ← newEnd.sub newStart
  .ok (l.addFree newStart merged)

/-- The registry side of a removal. -/
def unregisterAllocation (l : ResourceLayout) (id : AllocationId) (len : Bytes) :
    Except ValueError ResourceLayout := do
  let freeCapacity ← l.freeCapacity.add len
  let allocCount ← l.allocCount.sub 1
  .ok { l with
    freeCapacity := freeCapacity
    allocCount := allocCount
    allocations := l.allocations.erase id
    allocOffsets := l.allocOffsets.erase id }

/-- Removes an allocation by id and merges the freed span with free neighbours. -/
def removeAllocation (l : ResourceLayout) (id : AllocationId) :
    Except ValueError (ResourceLayout × LayoutReply) :=
  match l.allocations.find? id with
  | none => .ok (l, .error "allocation not found")
  | some a =>
      -- `alloc_offsets_[id]` creates a zero entry when there is none
      let off := (l.allocOffsets.find? id).getD 0
      let l := { l with allocOffsets := l.allocOffsets.emplace id 0 }
      match l.regions.find? off with
      | none => .ok (l, .error "layout inconsistent with allocation registry")
      | some region =>
          if region.kind ≠ .allocated ∨ region.allocId ≠ some id then
            .ok (l, .error "layout inconsistent with allocation registry")
          else do
            let l ← l.mergeFreed off a.length
            let l ← l.unregisterAllocation id a.length
            .ok (l, .ok ())

/-! ## Sequences of calls -/

/-- A call on a layout, with any arguments. -/
inductive Call
  | insert (a : Allocation)
  | update (a : Allocation)
  | remove (id : AllocationId)

/-- The layout after one call, accepted or rejected. -/
def call (l : ResourceLayout) : Call → Except ValueError ResourceLayout
  | .insert a => do
      let (l, _) ← l.insertAllocation a
      .ok l
  | .update a => .ok (l.updateAllocation a).1
  | .remove id => do
      let (l, _) ← l.removeAllocation id
      .ok l

/-- The layout after a sequence of calls. -/
def calls (l : ResourceLayout) : List Call → Except ValueError ResourceLayout
  | [] => .ok l
  | c :: rest => do
      let l ← l.call c
      l.calls rest

/-- The layouts a program can hold: some sequence of calls on a fresh one gives it. -/
def Reachable (l : ResourceLayout) : Prop :=
  ∃ capacity cs, (ofCapacity capacity).calls cs = .ok l

end ResourceLayout

end FragmentationGovernor
