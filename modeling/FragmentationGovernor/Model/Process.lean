import FragmentationGovernor.Library.Disk
import FragmentationGovernor.Model.Coordinator

/-! # The coordinator process and its files

What `save_state` and `load_state` of `persistence/codec.cpp` do to the disk, and the process of
`tools/fg_coordinator.cpp`, which reads its state file when it starts and can be killed at any
moment. Renaming a file is one operation of the file system. -/

namespace FragmentationGovernor

namespace Codec

def tempPath (path : Text) : Text := ⟨path.bytes ++ (Text.ofString ".tmp").bytes⟩

/-- The operations of a save that encodes to `buf`. The bytes that `fwrite` takes and `fclose`
does not get to the disk are missing in the file. -/
def saveOps (fs : SaveOutcome) (path : Text) (buf : List UInt8) : List (DiskOp Text UInt8) :=
  let bytes := (buf.take fs.written).take fs.flushed
  if !fs.opened then []
  else if fs.written ≠ buf.length then Disk.writeOps (tempPath path) bytes
  else if !fs.renamed then Disk.writeOps (tempPath path) bytes
  else Disk.replaceOps (tempPath path) path bytes

/-- What the file system does with a load. -/
structure LoadOutcome where
  opened : Bool
  sized : Bool
  read : ℕ

def loadState (fs : LoadOutcome) (disk : Disk Text UInt8) (path : Text) :
    Except String PersistedState :=
  match disk path with
  | none => .error "cannot open file"
  | some bytes =>
      if !fs.opened then .error "cannot open file"
      else if !fs.sized then .error "cannot determine size"
      else if fs.read ≠ bytes.length then .error "short read"
      else decodeState bytes

end Codec

/-! ## Saving on request -/

/-- Where a SAVE writes. -/
def savePath (m : Message) : Text :=
  if m.detail.bytes.isEmpty then "fg_state.bin" else m.detail

namespace Coordinator

/-- What handling a message does to the disk. -/
def diskOps (fs : Codec.SaveOutcome) (c : Coordinator) (m : Message) :
    List (DiskOp Text UInt8) :=
  match m.type with
  | .save =>
      match Codec.encodeState c.persist with
      | .ok buf => Codec.saveOps fs (savePath m) buf
      | .error _ => []
  | _ => []

/-! ## The process -/

/-- The start of `main`: a state file that cannot be loaded is passed over, a `ValueError`
ends the process. -/
def boot (fs : Codec.LoadOutcome) (epoch : CoordinatorEpoch) (file : Text)
    (disk : Disk Text UInt8) : Coordinator × Except ValueError Unit :=
  if file.bytes.isEmpty ∨ disk file = none then (new epoch, .ok ())
  else
    match Codec.loadState fs disk file with
    | .ok st => (new epoch).recover st
    | .error _ => (new epoch, .ok ())

end Coordinator

/-- A disk and, while the process runs, its coordinator. -/
structure Process where
  disk : Disk Text UInt8
  coord : Option Coordinator := none

inductive ProcessEvent
  | message (fs : Codec.SaveOutcome) (m : Message)
  | workerDead (w : WorkerId)
  /-- the process is killed after `n` disk operations of a message -/
  | kill (fs : Codec.SaveOutcome) (m : Message) (n : ℕ)
  | start (fs : Codec.LoadOutcome) (epoch : CoordinatorEpoch)

namespace Process

def runOps (p : Process) (ops : List (DiskOp Text UInt8)) : Disk Text UInt8 :=
  runFrom Disk.apply p.disk ops

/-- Nothing happens to a process that does not run but its start. -/
def step (file : Text) (p : Process) (e : ProcessEvent) : Process :=
  match p.coord with
  | some c =>
      match e with
      | .message fs m =>
          { disk := p.runOps (c.diskOps fs m)
            coord := match Coordinator.handle fs c m with
              | (c, .ok _) => some c
              | (_, .error _) => none }
      | .workerDead w => { p with coord := some (c.markWorkerDead w) }
      | .kill fs m n => { disk := p.runOps ((c.diskOps fs m).take n), coord := none }
      | .start _ _ => p
  | none =>
      match e with
      | .start fs epoch =>
          { p with
            coord := match Coordinator.boot fs epoch file p.disk with
              | (c, .ok _) => some c
              | (_, .error _) => none }
      | _ => p

end Process

end FragmentationGovernor
