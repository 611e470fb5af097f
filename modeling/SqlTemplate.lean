import SqlTemplate.Expander.Log
import SqlTemplate.Main
import SqlTemplate.Proofs.Batch.Asked
import SqlTemplate.Proofs.Batch.Copy
import SqlTemplate.Proofs.Batch.Destinations
import SqlTemplate.Proofs.Batch.Showing
import SqlTemplate.Proofs.Expander.Arguments
import SqlTemplate.Proofs.Expander.Blanks
import SqlTemplate.Proofs.Expander.Concatenation
import SqlTemplate.Proofs.Expander.Failures
import SqlTemplate.Proofs.Expander.Lenient
import SqlTemplate.Proofs.Expander.Limit
import SqlTemplate.Proofs.Expander.Meaning
import SqlTemplate.Proofs.Expander.Outlines
import SqlTemplate.Proofs.Expander.Renaming
import SqlTemplate.Proofs.Expander.TruthTable
import SqlTemplate.Proofs.Expander.TwoRuns
import SqlTemplate.Proofs.Node.Acceptance
import SqlTemplate.Proofs.Node.CallDepth
import SqlTemplate.Proofs.Node.Grouping
import SqlTemplate.Proofs.Node.Idempotence
import SqlTemplate.Proofs.Node.Stopping
import SqlTemplate.Proofs.Scope.Repair
import SqlTemplate.Proofs.Scope.RoundTrip
import SqlTemplate.Proofs.Scope.Strict
