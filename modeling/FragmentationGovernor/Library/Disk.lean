import FragmentationGovernor.Library.Run
import Mathlib.Logic.Function.Basic

/-! # Files and their replacement

A disk maps paths to contents. A file is replaced by writing a temporary file and renaming it:
wherever the operations stop, the target has its old contents or all of the new ones. -/

namespace FragmentationGovernor

section Disk

variable {κ β : Type*}

/-- The files of a disk; none where there is no file. -/
abbrev Disk (κ β : Type*) := κ → Option (List β)

inductive DiskOp (κ β : Type*)
  /-- creates the file or empties it -/
  | create (p : κ)
  | append (p : κ) (b : β)
  | rename (source target : κ)

/-- The operation may change the file at the path. -/
def DiskOp.Touches (q : κ) : DiskOp κ β → Prop
  | .create p => p = q
  | .append p _ => p = q
  | .rename source target => source = q ∨ target = q

namespace Disk

/-- The operations that write a file from its start. -/
def writeOps (p : κ) (bs : List β) : List (DiskOp κ β) := .create p :: bs.map (.append p)

/-- The operations that replace a file. -/
def replaceOps (temp target : κ) (bs : List β) : List (DiskOp κ β) :=
  writeOps temp bs ++ [.rename temp target]

theorem not_touches_writeOps {p q : κ} {bs : List β} (h : p ≠ q) :
    ∀ op ∈ writeOps p bs, ¬ op.Touches q := by
  intro op hop
  rcases List.mem_cons.mp hop with rfl | hop
  · exact h
  · obtain ⟨b, -, rfl⟩ := List.mem_map.mp hop
    exact h

variable [DecidableEq κ]

def apply (d : Disk κ β) : DiskOp κ β → Disk κ β
  | .create p => Function.update d p (some [])
  | .append p b => Function.update d p ((d p).map (fun bs => bs ++ [b]))
  | .rename source target =>
      match d source with
      | some bs => Function.update (Function.update d source none) target (some bs)
      | none => d

variable {d : Disk κ β} {p q temp target : κ} {bs : List β}

theorem apply_of_not_touches {op : DiskOp κ β} (h : ¬ op.Touches q) : d.apply op q = d q := by
  cases op with
  | create p => exact Function.update_of_ne (Ne.symm h) _ _
  | append p b => exact Function.update_of_ne (Ne.symm h) _ _
  | rename source target =>
      simp only [DiskOp.Touches, not_or] at h
      simp only [apply]
      cases d source with
      | none => rfl
      | some bs =>
          dsimp only
          rw [Function.update_of_ne (Ne.symm h.2), Function.update_of_ne (Ne.symm h.1)]

theorem run_of_not_touches {ops : List (DiskOp κ β)} (h : ∀ op ∈ ops, ¬ op.Touches q) :
    runFrom apply d ops q = d q := by
  induction ops generalizing d with
  | nil => rfl
  | cons op ops ih =>
      rw [runFrom_cons, ih (fun op' hop => h op' (by simp [hop])),
        apply_of_not_touches (h op (by simp))]

theorem run_append (h : d p = some bs) (more : List β) :
    runFrom apply d (more.map (.append p)) p = some (bs ++ more) := by
  induction more generalizing d bs with
  | nil => simpa using h
  | cons b more ih =>
      have hb : d.apply (.append p b) p = some (bs ++ [b]) := by
        simp [apply, h]
      rw [List.map_cons, runFrom_cons, ih hb, List.append_assoc]
      rfl

theorem run_writeOps (p : κ) (bs : List β) : runFrom apply d (writeOps p bs) p = some bs := by
  have hempty : d.apply (.create p) p = some [] := by simp [apply]
  rw [writeOps, runFrom_cons, run_append hempty]
  rfl

/-- Once all operations are done, the target has the new contents. -/
theorem run_replaceOps : runFrom apply d (replaceOps temp target bs) target = some bs := by
  rw [replaceOps, runFrom_append, runFrom_cons, runFrom_nil]
  simp [apply, run_writeOps temp bs]

/-- Wherever the operations stop, the target is as it was or they are all done. -/
theorem run_take_replaceOps (hne : temp ≠ target) (n : ℕ) :
    runFrom apply d ((replaceOps temp target bs).take n) target = d target ∨
      (replaceOps temp target bs).take n = replaceOps temp target bs := by
  by_cases hn : n ≤ (writeOps temp bs).length
  · left
    rw [replaceOps, List.take_append_of_le_length hn]
    refine run_of_not_touches ?_
    intro op hop
    exact not_touches_writeOps hne op (List.mem_of_mem_take hop)
  · right
    refine List.take_of_length_le ?_
    rw [replaceOps, List.length_append, List.length_singleton]
    omega

end Disk

end Disk

end FragmentationGovernor
