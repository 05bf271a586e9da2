import ArrayGraph.Report.Render
import ArrayGraph.Sample
import ArrayGraph.Workspace
import ArrayGraph.Proofs.Run.Session
import ArrayGraph.Proofs.Run.Validated
import ArrayGraph.Proofs.Alias.Contracts
import ArrayGraph.Proofs.Elementwise
import ArrayGraph.Proofs.Alias.Valid
import ArrayGraph.Proofs.Dataflow.Invariant
import ArrayGraph.Proofs.Dataflow.Sourced
import ArrayGraph.Proofs.Optimize.Engine
import ArrayGraph.Proofs.Optimize.Rules
import ArrayGraph.Proofs.Optimize.Merge
import ArrayGraph.Proofs.Optimize.Completes
import ArrayGraph.Proofs.Optimize.Meaning
import ArrayGraph.Proofs.Function.Protected
import ArrayGraph.Proofs.Function.Failed
import ArrayGraph.Proofs.Function.Constants
import ArrayGraph.Proofs.Run.Sharing
import ArrayGraph.Proofs.Run.Slots
import ArrayGraph.Proofs.Function.Owners
import ArrayGraph.Proofs.Function.Isolated
import ArrayGraph.Proofs.Function.TypeSafe
import ArrayGraph.Proofs.Dataflow.Replace
import ArrayGraph.Proofs.Alias.InPlace
import ArrayGraph.Proofs.Optimize.InPlace
import ArrayGraph.Proofs.Alias.Wrapped
import ArrayGraph.Proofs.Function.Interchange
import ArrayGraph.Proofs.Optimize.BitExact
import ArrayGraph.Proofs.Optimize.Leftover
import ArrayGraph.Proofs.Optimize.Settles
import ArrayGraph.Proofs.Dataflow.Accepted
import ArrayGraph.Proofs.Inference
import ArrayGraph.Proofs.Run.Aliasing
import ArrayGraph.Proofs.Dataflow.Traversal
import ArrayGraph.Proofs.Dataflow.Atomic
import ArrayGraph.Proofs.Run.Desk
