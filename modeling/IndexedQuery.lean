import IndexedQuery.Context.Tree
import IndexedQuery.Expr.Digest
import IndexedQuery.Expr.Meaning
import IndexedQuery.Proofs.Context.History
import IndexedQuery.Proofs.Runner.Transparency
import IndexedQuery.Runner.NestedLoop
import IndexedQuery.Source.Fault
import IndexedQuery.Proofs.Runner.Lockstep
import IndexedQuery.Proofs.Source.Faults
import IndexedQuery.Proofs.Runner.Reachable
import IndexedQuery.Proofs.Runner.Recovery
import IndexedQuery.Proofs.Runner.Pruning
import IndexedQuery.Proofs.Runner.Reference
import IndexedQuery.Proofs.Evaluator.Meaning
import IndexedQuery.Proofs.Value.TotalOrder
import IndexedQuery.Proofs.Expr.Digest
import IndexedQuery.Proofs.Runner.Accounts
import IndexedQuery.Proofs.Index.Reentrancy
import IndexedQuery.Proofs.Runner.Failures
import IndexedQuery.Proofs.Runner.Flattening
import IndexedQuery.Proofs.Runner.Reordering
import IndexedQuery.Proofs.Context.Flattening
import IndexedQuery.Proofs.Index.Partition
import IndexedQuery.Proofs.Context.Growth
import IndexedQuery.Proofs.Context.Walk
import IndexedQuery.Proofs.Context.Eligibility
import IndexedQuery.Proofs.Session.Accrual
import IndexedQuery.Proofs.Context.Ownership
import IndexedQuery.Proofs.Context.Idempotence
import IndexedQuery.Proofs.Evaluator.Acceptance
import IndexedQuery.Proofs.Evaluator.Dependencies
import IndexedQuery.Proofs.Evaluator.Traps
import IndexedQuery.Proofs.Evaluator.Ranges
import IndexedQuery.Proofs.Evaluator.Comparisons
import IndexedQuery.Proofs.Evaluator.Arithmetic
import IndexedQuery.Proofs.Expr.Rewriting
import IndexedQuery.Proofs.Context.WithoutBindings
import IndexedQuery.Proofs.Context.RootSlots
import IndexedQuery.Proofs.Index.Handles
import IndexedQuery.Proofs.Runner.Calls
