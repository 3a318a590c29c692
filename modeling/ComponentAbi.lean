import ComponentAbi.Document.Printer
import ComponentAbi.HandleTable
import ComponentAbi.Json.Value
import ComponentAbi.Main
import ComponentAbi.Marshal.Call
import ComponentAbi.Proofs.Memory.Growth
import ComponentAbi.Proofs.Memory.Release
import ComponentAbi.Proofs.Except
import ComponentAbi.Proofs.Shape.Placement
import ComponentAbi.Proofs.Shape.Joining
import ComponentAbi.Proofs.Marshal.Confinement
import ComponentAbi.Proofs.Marshal.Freeing
import ComponentAbi.Proofs.Marshal.Landing
import ComponentAbi.Proofs.Marshal.Ownership
import ComponentAbi.Proofs.Marshal.Handles
import ComponentAbi.Proofs.Marshal.Transparency
import ComponentAbi.Proofs.Marshal.Weightless
import ComponentAbi.Proofs.Marshal.Agreement
import ComponentAbi.Proofs.Marshal.Conservation
import ComponentAbi.Proofs.Marshal.Undoing
import ComponentAbi.Proofs.Marshal.Interleaving
import ComponentAbi.Proofs.Memory.Linear
import ComponentAbi.Proofs.Marshal.Ownerless
import ComponentAbi.Proofs.Marshal.Addresses
import ComponentAbi.Proofs.Marshal.Framing
import ComponentAbi.Proofs.Plan.Generation
import ComponentAbi.Proofs.Plan.Parts
import ComponentAbi.Proofs.Plan.Passable
import ComponentAbi.Proofs.Plan.Acceptance
import ComponentAbi.Proofs.Plan.Semantics
import ComponentAbi.Proofs.Plan.Refinement
import ComponentAbi.Proofs.Plan.Assignment
import ComponentAbi.Proofs.Plan.Accesses
import ComponentAbi.Proofs.Resolve.Spelling
import ComponentAbi.Proofs.Names.Hashing
import ComponentAbi.Proofs.Worlds.Expansion
import ComponentAbi.Proofs.Worlds.Inline
import ComponentAbi.Proofs.LoadOrder.Apart
import ComponentAbi.Proofs.LoadOrder.Renumbering
import ComponentAbi.Proofs.LoadOrder.Invariance
import ComponentAbi.Proofs.LoadOrder.Insertions
import ComponentAbi.Proofs.Loading.WellFounded
import ComponentAbi.Proofs.Report.Closure
import ComponentAbi.Proofs.Document.RoundTrip
import ComponentAbi.Proofs.Structure.Results
import ComponentAbi.Proofs.Resolve.FixedPoint
import ComponentAbi.Proofs.Resolve.Interfaces
import ComponentAbi.Proofs.Marshal.Stability
import ComponentAbi.Proofs.Names.RoundTrip
import ComponentAbi.Proofs.Worlds.Choice
import ComponentAbi.Proofs.Handles
import ComponentAbi.LinearMemory
