import FragmentationGovernor.Model.Process
import FragmentationGovernor.Verification.Persistence.Extent
import FragmentationGovernor.Verification.Persistence.Restart

/-! # Saves are durable

Whenever the process is killed, in the middle of a save or elsewhere, its state file holds the
complete encoding of a state the coordinator was in, and no save that was acknowledged is lost
to an older one, as long as `fclose` gets the bytes of the saves to the disk. A save does not look
at what `fclose` returns: where bytes are lost there, it is acknowledged all the same, and the
file is cut off. -/

namespace FragmentationGovernor

/-! ## One save -/

namespace Codec

theorem tempPath_ne (path : Text) : tempPath path ≠ path := by
  intro h
  have hlen := congrArg (fun t : Text => t.bytes.length) h
  simp only [tempPath, List.length_append] at hlen
  have hsuffix : (Text.ofString ".tmp").bytes.length = 4 := by decide
  omega

theorem saveState_eq_ok_iff {fs : SaveOutcome} {s : PersistedState} :
    saveState fs s = .ok () ↔
      ∃ buf, encodeState s = .ok buf ∧ fs.opened = true ∧ fs.written = buf.length ∧
        fs.renamed = true := by
  unfold saveState
  rw [bind_eq_ok]
  refine exists_congr fun buf => and_congr_right fun _ => ?_
  by_cases hopened : fs.opened = true
  · by_cases hwritten : fs.written = buf.length
    · by_cases hrenamed : fs.renamed = true
      · simp [hopened, hwritten, hrenamed]
      · simp [hopened, hwritten, hrenamed]
    · simp [hopened, hwritten]
  · simp [hopened]

/-- A save that succeeds has replaced the file with what was flushed. -/
theorem saveOps_of_ok {fs : SaveOutcome} {path : Text} {buf : List UInt8}
    (hopened : fs.opened = true) (hwritten : fs.written = buf.length)
    (hrenamed : fs.renamed = true) :
    saveOps fs path buf = Disk.replaceOps (tempPath path) path (buf.take fs.flushed) := by
  simp [saveOps, hopened, hwritten, hrenamed]

/-- Wherever a save stops, a file that is not its temporary one is as it was, or replaced with
what was flushed. -/
theorem run_take_saveOps {fs : SaveOutcome} {path file : Text} {buf : List UInt8}
    {disk : Disk Text UInt8} (hclear : tempPath path ≠ file) (n : ℕ) :
    runFrom Disk.apply disk ((saveOps fs path buf).take n) file = disk file ∨
      path = file ∧ runFrom Disk.apply disk ((saveOps fs path buf).take n) file =
        some (buf.take fs.flushed) := by
  have hwrite : ∀ bs, runFrom Disk.apply disk ((Disk.writeOps (tempPath path) bs).take n) file =
      disk file := by
    intro bs
    refine Disk.run_of_not_touches ?_
    intro op hop
    exact Disk.not_touches_writeOps hclear op (List.mem_of_mem_take hop)
  unfold saveOps
  dsimp only
  split_ifs with hopened hwritten
  · rw [List.take_nil]
    exact Or.inl rfl
  · exact Or.inl (hwrite _)
  · exact Or.inl (hwrite _)
  · rw [not_not] at hwritten
    rw [hwritten, List.take_length]
    by_cases hfile : path = file
    · rw [← hfile]
      rcases Disk.run_take_replaceOps (tempPath_ne path) n with hold | hall
      · exact Or.inl hold
      · rw [hall]
        exact Or.inr ⟨rfl, Disk.run_replaceOps⟩
    · left
      refine Disk.run_of_not_touches ?_
      intro op hop
      rcases List.mem_append.mp (List.mem_of_mem_take hop) with hop | hop
      · exact Disk.not_touches_writeOps hclear op hop
      · rw [List.mem_singleton.mp hop]
        simp [DiskOp.Touches, hclear, hfile]

theorem loadState_eq_ok {fs : LoadOutcome} {disk : Disk Text UInt8} {path : Text}
    {st : PersistedState} (h : loadState fs disk path = .ok st) :
    ∃ bytes, disk path = some bytes ∧ decodeState bytes = .ok st := by
  unfold loadState at h
  cases hfile : disk path with
  | none =>
      rw [hfile] at h
      cases h
  | some bytes =>
      rw [hfile] at h
      dsimp only at h
      split_ifs at h
      exact ⟨bytes, rfl, h⟩

end Codec

namespace Process

open Coordinator

/-! ## Acknowledged saves -/

/-- The event is a save to the file that is answered positively. -/
def Acknowledged (file : Text) (p : Process) : ProcessEvent → Prop
  | .message fs m => m.type = .save ∧ savePath m = file ∧
      ∃ c, p.coord = some c ∧ Accepted (handle fs c m)
  | _ => False

/-- No save writes its temporary file over the state file. -/
def Clear (file : Text) : ProcessEvent → Prop
  | .message _ m => m.type = .save → Codec.tempPath (savePath m) ≠ file
  | .kill _ m _ => m.type = .save → Codec.tempPath (savePath m) ≠ file
  | _ => True

/-- What a save of the running coordinator to the file has written is in it once it is closed. -/
def FlushedBy (file : Text) (p : Process) (fs : Codec.SaveOutcome) (m : Message) : Prop :=
  m.type = .save → savePath m = file →
    ∀ c buf, p.coord = some c → Codec.encodeState c.persist = .ok buf → buf.length ≤ fs.flushed

/-- `fclose` does not fail on a save to the file. -/
def Flushes (file : Text) (p : Process) : ProcessEvent → Prop
  | .message fs m => FlushedBy file p fs m
  | .kill fs m _ => FlushedBy file p fs m
  | _ => True

variable {file : Text}

/-- What a save stopped anywhere leaves in the file. -/
theorem run_take_diskOps {p : Process} {fs : Codec.SaveOutcome} {c : Coordinator}
    {m : Message} (hc : p.coord = some c)
    (hclear : m.type = .save → Codec.tempPath (savePath m) ≠ file)
    (hflush : FlushedBy file p fs m) (n : ℕ) :
    p.runOps ((c.diskOps fs m).take n) file = p.disk file ∨
      ∃ buf, Codec.encodeState c.persist = .ok buf ∧
        p.runOps ((c.diskOps fs m).take n) file = some buf := by
  by_cases htype : m.type = .save
  · cases hbuf : Codec.encodeState c.persist with
    | error e =>
        left
        simp [runOps, diskOps, htype, hbuf]
    | ok buf =>
        have hops : c.diskOps fs m = Codec.saveOps fs (savePath m) buf := by
          simp [diskOps, htype, hbuf]
        rw [hops]
        rcases Codec.run_take_saveOps (hclear htype) n with hold | ⟨hpath, hnew⟩
        · exact Or.inl hold
        · rw [List.take_of_length_le (hflush htype hpath c buf hc hbuf)] at hnew
          exact Or.inr ⟨buf, rfl, hnew⟩
  · left
    have hops : c.diskOps fs m = [] := by
      unfold diskOps
      cases hty : m.type with
      | save => exact (htype hty).elim
      | _ => rfl
    rw [hops, List.take_nil, runOps, runFrom_nil]

theorem accepted_save {fs : Codec.SaveOutcome} {c : Coordinator} {m : Message}
    (htype : m.type = .save) (h : Accepted (handle fs c m)) :
    Codec.saveState fs c.persist = .ok () := by
  have hsave : handle fs c m = handleSave fs c := by simp only [handle, htype]
  rw [hsave, handleSave] at h
  cases hstate : Codec.saveState fs c.persist with
  | ok u => rfl
  | error e =>
      rw [hstate] at h
      exact (not_accepted_reject _ _ h).elim

/-- An acknowledged save has replaced the file with what was flushed. -/
theorem Acknowledged.run {p : Process} {fs : Codec.SaveOutcome} {m : Message} {c : Coordinator}
    (h : Acknowledged file p (.message fs m)) (hc : p.coord = some c) :
    ∃ buf, Codec.encodeState c.persist = .ok buf ∧
      p.runOps (c.diskOps fs m) file = some (buf.take fs.flushed) := by
  obtain ⟨htype, rfl, c', hc', hacc⟩ := h
  rw [hc] at hc'
  cases hc'
  obtain ⟨buf, henc, hopened, hwritten, hrenamed⟩ :=
    Codec.saveState_eq_ok_iff.mp (accepted_save htype hacc)
  refine ⟨buf, henc, ?_⟩
  have hops : c.diskOps fs m = Codec.saveOps fs (savePath m) buf := by
    simp [diskOps, htype, henc]
  rw [runOps, hops, Codec.saveOps_of_ok hopened hwritten hrenamed]
  exact Disk.run_replaceOps

/-- With all of the encoding, if it was flushed. -/
theorem Acknowledged.run_of_flushed {p : Process} {fs : Codec.SaveOutcome} {m : Message}
    {c : Coordinator} (h : Acknowledged file p (.message fs m)) (hc : p.coord = some c)
    (hflush : FlushedBy file p fs m) :
    ∃ buf, Codec.encodeState c.persist = .ok buf ∧
      p.runOps (c.diskOps fs m) file = some buf := by
  obtain ⟨buf, henc, hfile⟩ := h.run hc
  rw [List.take_of_length_le (hflush h.1 h.2.1 c buf hc henc)] at hfile
  exact ⟨buf, henc, hfile⟩

/-! ## Runs of the process -/

/-- A coordinator whose plans can be saved and resumed. -/
structure Sound (c : Coordinator) : Prop where
  consistent : c.Consistent
  kept : c.Kept

theorem Sound.step {c : Coordinator} (h : Sound c) {e : Event} (he : ∀ st, e ≠ .recover st) :
    Sound (c.step e) := ⟨h.consistent.step e, h.kept.step h.consistent he⟩

/-- No event of the run is an acknowledged save to the file. -/
def Silent (file : Text) (p : Process) (events : List ProcessEvent) : Prop :=
  AllSteps (step file) (fun p e => ¬ Acknowledged file p e) p events

/-- The file holds what the coordinator would have written before one of the events, and no
save after that event was acknowledged. -/
structure Holding (file : Text) (p : Process) (events front : List ProcessEvent)
    (e : ProcessEvent) (back : List ProcessEvent) (c : Coordinator) : Prop where
  split : events = front ++ e :: back
  coord : (runFrom (step file) p front).coord = some c
  sound : Sound c
  content : ∃ bytes, Codec.encodeState c.persist = .ok bytes ∧
    (runFrom (step file) p events).disk file = some bytes
  silent : Silent file (runFrom (step file) p (front ++ [e])) back

/-- The file is as it was in the beginning, or it holds a saved state. -/
def Recorded (file : Text) (p : Process) (events : List ProcessEvent) : Prop :=
  ((runFrom (step file) p events).disk file = none ∧ Silent file p events) ∨
    ∃ front e back c, Holding file p events front e back c

variable {p : Process} {events : List ProcessEvent} {e : ProcessEvent}

theorem silent_snoc (h : Silent file p events)
    (he : ¬ Acknowledged file (runFrom (step file) p events) e) :
    Silent file p (events ++ [e]) := allSteps_append.mpr ⟨h, he, trivial⟩

/-- An event that leaves the file alone and is no acknowledged save. -/
theorem Recorded.keep (h : Recorded file p events)
    (hsame : ((runFrom (step file) p events).step file e).disk file =
      (runFrom (step file) p events).disk file)
    (he : ¬ Acknowledged file (runFrom (step file) p events) e) :
    Recorded file p (events ++ [e]) := by
  rcases h with ⟨hnone, hsilent⟩ | ⟨front, e', back, c, hhold⟩
  · left
    rw [runFrom_snoc, hsame]
    exact ⟨hnone, silent_snoc hsilent he⟩
  · right
    obtain ⟨bytes, henc, hfile⟩ := hhold.content
    refine ⟨front, e', back ++ [e], c, ?_, hhold.coord, hhold.sound, ⟨bytes, henc, ?_⟩, ?_⟩
    · rw [hhold.split, List.append_assoc, List.cons_append]
    · rw [runFrom_snoc, hsame, hfile]
    · refine silent_snoc hhold.silent ?_
      rw [← runFrom_append, List.append_assoc, List.singleton_append, ← hhold.split]
      exact he

/-- An event that writes the state of the coordinator to the file. -/
theorem Recorded.write {c : Coordinator} (hc : (runFrom (step file) p events).coord = some c)
    (hsound : Sound c) {bytes : List UInt8} (henc : Codec.encodeState c.persist = .ok bytes)
    (hfile : ((runFrom (step file) p events).step file e).disk file = some bytes) :
    Recorded file p (events ++ [e]) := by
  refine Or.inr ⟨events, e, [], c, rfl, hc, hsound, ⟨bytes, henc, ?_⟩, trivial⟩
  rw [runFrom_snoc, hfile]

theorem Recorded.snoc (h : Recorded file p events)
    (hsound : ∀ c, (runFrom (step file) p events).coord = some c → Sound c)
    (hclear : Clear file e) (hflush : Flushes file (runFrom (step file) p events) e) :
    Recorded file p (events ++ [e]) := by
  cases hc : (runFrom (step file) p events).coord with
  | none =>
      refine h.keep ?_ ?_
      · cases e <;> simp [step, hc]
      · intro hack
        cases e with
        | message fs m =>
            obtain ⟨-, -, c, hc', -⟩ := hack
            rw [hc] at hc'
            cases hc'
        | workerDead w => exact hack
        | kill fs m n => exact hack
        | start fs epoch => exact hack
  | some c =>
      have hwrite := @Recorded.write file p events e c hc (hsound c hc)
      cases e with
      | message fs m =>
          have hdisk : ((runFrom (step file) p events).step file (.message fs m)).disk =
              (runFrom (step file) p events).runOps (c.diskOps fs m) := by simp [step, hc]
          by_cases hack : Acknowledged file (runFrom (step file) p events) (.message fs m)
          · obtain ⟨buf, henc, hfile⟩ := hack.run_of_flushed hc hflush
            exact hwrite henc (by rw [hdisk, hfile])
          · have hrun := run_take_diskOps hc hclear hflush (c.diskOps fs m).length
            rw [List.take_length] at hrun
            rcases hrun with hold | ⟨buf, henc, hnew⟩
            · exact h.keep (by rw [hdisk]; exact hold) hack
            · exact hwrite henc (by rw [hdisk]; exact hnew)
      | workerDead w => exact h.keep (by simp [step, hc]) id
      | kill fs m n =>
          have hdisk : ((runFrom (step file) p events).step file (.kill fs m n)).disk =
              (runFrom (step file) p events).runOps ((c.diskOps fs m).take n) := by
            simp [step, hc]
          rcases run_take_diskOps hc hclear hflush n with hold | ⟨buf, henc, hnew⟩
          · exact h.keep (by rw [hdisk]; exact hold) id
          · exact hwrite henc (by rw [hdisk]; exact hnew)
      | start fs epoch => exact h.keep (by simp [step, hc]) id

end Process

end FragmentationGovernor
