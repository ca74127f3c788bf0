import FragmentationGovernor.Library.OrdMap
import FragmentationGovernor.Library.Tiling
import FragmentationGovernor.Library.Run
import FragmentationGovernor.Library.Interleaving
import FragmentationGovernor.Library.Disk
import FragmentationGovernor.Library.Wire
import FragmentationGovernor.Library.Crc
import FragmentationGovernor.Library.Sweep
import FragmentationGovernor.Library.Rounding
import FragmentationGovernor.Model.Units
import FragmentationGovernor.Model.Enums
import FragmentationGovernor.Model.Layout
import FragmentationGovernor.Model.Snapshot
import FragmentationGovernor.Model.Metrics
import FragmentationGovernor.Model.Fit
import FragmentationGovernor.Model.Planner
import FragmentationGovernor.Model.Verify
import FragmentationGovernor.Model.Persistence
import FragmentationGovernor.Model.Protocol
import FragmentationGovernor.Model.Coordinator
import FragmentationGovernor.Model.Process
import FragmentationGovernor.Model.Transport
import FragmentationGovernor.Model.Service
import FragmentationGovernor.Model.Worker
import FragmentationGovernor.Verification.Layout.Invariant
import FragmentationGovernor.Verification.Layout.Insert
import FragmentationGovernor.Verification.Layout.Remove
import FragmentationGovernor.Verification.Layout.Correctness
import FragmentationGovernor.Verification.Layout.Registry
import FragmentationGovernor.Verification.Layout.Reclaim
import FragmentationGovernor.Verification.Layout.Fencing
import FragmentationGovernor.Verification.Fit.Temporal
import FragmentationGovernor.Verification.Fit.Metrics
import FragmentationGovernor.Verification.Fit.Correctness
import FragmentationGovernor.Verification.Fit.Conservation
import FragmentationGovernor.Verification.Fit.Simulation
import FragmentationGovernor.Verification.Fit.Verdict
import FragmentationGovernor.Verification.Planner.Actions
import FragmentationGovernor.Verification.Planner.Displacement
import FragmentationGovernor.Verification.Planner.Scores
import FragmentationGovernor.Verification.Planner.Order
import FragmentationGovernor.Verification.Planner.Totals
import FragmentationGovernor.Verification.Verify.Correctness
import FragmentationGovernor.Verification.Fit.Monotone
import FragmentationGovernor.Verification.Verify.Judgement
import FragmentationGovernor.Verification.Verify.Depletion
import FragmentationGovernor.Verification.Fit.Outcomes
import FragmentationGovernor.Verification.Planner.Completeness
import FragmentationGovernor.Verification.Planner.Remedies
import FragmentationGovernor.Verification.Coordinator.Effect
import FragmentationGovernor.Verification.Coordinator.Consistency
import FragmentationGovernor.Verification.Coordinator.Evidence
import FragmentationGovernor.Verification.Coordinator.Frame
import FragmentationGovernor.Verification.Coordinator.Lifecycle
import FragmentationGovernor.Verification.Coordinator.Capture
import FragmentationGovernor.Verification.Coordinator.Generations
import FragmentationGovernor.Verification.Coordinator.Protection
import FragmentationGovernor.Verification.Transport.Liveness
import FragmentationGovernor.Verification.Transport.Service
import FragmentationGovernor.Verification.Coordinator.Authority
import FragmentationGovernor.Verification.Coordinator.Policy
import FragmentationGovernor.Verification.Coordinator.Execution
import FragmentationGovernor.Verification.Coordinator.History
import FragmentationGovernor.Verification.Coordinator.Consumption
import FragmentationGovernor.Verification.Coordinator.Visibility
import FragmentationGovernor.Verification.Coordinator.Invalidation
import FragmentationGovernor.Verification.Coordinator.Interleaving
import FragmentationGovernor.Verification.Coordinator.Ledger
import FragmentationGovernor.Verification.Coordinator.Publication
import FragmentationGovernor.Verification.Coordinator.Session
import FragmentationGovernor.Verification.Planner.Comparison
import FragmentationGovernor.Verification.Coordinator.Remediation
import FragmentationGovernor.Verification.Persistence.RoundTrip
import FragmentationGovernor.Verification.Persistence.Extent
import FragmentationGovernor.Verification.Persistence.Reload
import FragmentationGovernor.Verification.Persistence.Overlong
import FragmentationGovernor.Verification.Persistence.Recovery
import FragmentationGovernor.Verification.Persistence.Restart
import FragmentationGovernor.Verification.Persistence.Durability
import FragmentationGovernor.Verification.Persistence.Survival
import FragmentationGovernor.Verification.Protocol.RoundTrip
import FragmentationGovernor.Verification.Protocol.Extent
import FragmentationGovernor.Verification.Protocol.Rejection
import FragmentationGovernor.Verification.Protocol.Corruption
import FragmentationGovernor.Verification.Transport.Framing
import FragmentationGovernor.Verification.Transport.Delivery
import FragmentationGovernor.Verification.Transport.Linearizability
import FragmentationGovernor.Verification.Coordinator.Overflow
