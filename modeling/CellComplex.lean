import CellComplex.Handler
import CellComplex.Main
import CellComplex.Proofs.DisjointSets.Classes
import CellComplex.Proofs.Search.Reach
import CellComplex.Proofs.Boundary.Connected
import CellComplex.Proofs.Cell.Below
import CellComplex.Proofs.Outcome
import CellComplex.Proofs.Boundary.Minimal
import CellComplex.Proofs.Boundary.Make
import CellComplex.Proofs.Store.Consistent
import CellComplex.Proofs.Space.Change
import CellComplex.Proofs.Rewrite.Staging
import CellComplex.Proofs.Store.Operation
import CellComplex.Proofs.Store.Freshness
import CellComplex.Proofs.Rewrite.Transaction
import CellComplex.Proofs.Store.Create
import CellComplex.Proofs.Evidence.Inference
import CellComplex.Proofs.Rewrite.Product
import CellComplex.Proofs.Space.Request
import CellComplex.Proofs.Space.Apply
import CellComplex.Proofs.Evidence.Resolution
import CellComplex.Proofs.Rewrite.Transitive
import CellComplex.Proofs.Knowledge.Asking
import CellComplex.Proofs.Space.Failing
import CellComplex.Proofs.Space.Link
import CellComplex.Proofs.Space.Sessions
import CellComplex.Proofs.Rule.Later
import CellComplex.Proofs.Rewrite.Premises
import CellComplex.Proofs.Rewrite.Keeping
import CellComplex.Proofs.Rule.Product
import CellComplex.Proofs.Knowledge.Rewriting
import CellComplex.Proofs.Evidence.Dangling
import CellComplex.Proofs.Knowledge.Repeating
import CellComplex.Proofs.Evidence.Rounds
import CellComplex.Proofs.Evidence.Choosing
import CellComplex.Proofs.Evidence.Preorder
import CellComplex.Proofs.Evidence.Relatedness
import CellComplex.Proofs.Evidence.Scan
import CellComplex.Proofs.Evidence.Pair
import CellComplex.Proofs.Rewrite.Order
import CellComplex.Proofs.Rewrite.Founded
import CellComplex.Proofs.Rule.Scaffolds
import CellComplex.Proofs.Rewrite.Selfmatch
import CellComplex.Proofs.DisjointSets.Calls
import CellComplex.Proofs.DisjointSets.Depth
import CellComplex.Proofs.Space.Appending
import CellComplex.Proofs.Boundary.Culprit
import CellComplex.Proofs.Evidence.Revision
import CellComplex.Proofs.Boundary.Halting
import CellComplex.Proofs.Space.Atop
