import FragmentationGovernor.Model.Worker
import FragmentationGovernor.Verification.Coordinator.Publication
import FragmentationGovernor.Verification.Coordinator.Visibility

/-! # The session of a worker

The reference worker registers, publishes its resource and its layout, and looks at no reply.
Whether its layout becomes visible is decided by the record its resource had when it started,
whatever the other workers and the controllers do between its messages. -/

namespace FragmentationGovernor.Coordinator

open ResourceLayout

/-! ## What a publication rests on -/

/-- How a record stands with a worker, its layout left out. -/
structure Tenure where
  resource : Resource
  worker : WorkerId
  boot : WorkerBootId
  /-- alive, and of the worker -/
  live : Bool

/-- The part of the evidence that decides about the publications of a worker on a resource. -/
structure Footing where
  alive : Option Bool
  boot : Option WorkerBootId
  record : Option Tenure

/-- After the registration with this boot id the record of an older incarnation is dead. -/
def Footing.registered (f : Footing) (boot : WorkerBootId) : Footing where
  alive := some true
  boot := some boot
  record := f.record.map (fun t => { t with live := t.live && decide (t.boot = boot) })

/-- The publication of the resource replaces the record unless that one is as new. -/
def Footing.published (f : Footing) (w : WorkerId) (boot : WorkerBootId) (r : Resource) : Footing :=
  match f.record with
  | some t =>
      if t.resource.generation.value ≥ r.generation.value then f
      else { f with record := some ⟨r, w, boot, true⟩ }
  | none => { f with record := some ⟨r, w, boot, true⟩ }

section Footing

variable {c c' : Coordinator} {w : WorkerId} {rid : ResourceId}

end Footing

/-! ## The session -/

end FragmentationGovernor.Coordinator
