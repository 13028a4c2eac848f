import NodeTagging.Main
import NodeTagging.Host.Sandbox
import NodeTagging.Proofs.Sorted
import NodeTagging.Proofs.Fitness
import NodeTagging.Proofs.Conflicts
import NodeTagging.Proofs.Tables
import NodeTagging.Proofs.Indices
import NodeTagging.Proofs.Walks
import NodeTagging.Proofs.Descent
import NodeTagging.Proofs.WellFormed
import NodeTagging.Proofs.Rooted
import NodeTagging.Proofs.Specificity
import NodeTagging.Proofs.DeepestFirst
import NodeTagging.Proofs.Classification
import NodeTagging.Proofs.Agreement
import NodeTagging.Proofs.TagLists
import NodeTagging.Proofs.Branching
import NodeTagging.Proofs.Locality
import NodeTagging.Proofs.Dependence
import NodeTagging.Proofs.Reordering
import NodeTagging.Proofs.Conditional
import NodeTagging.Proofs.GatedLines
import NodeTagging.Proofs.Gating
import NodeTagging.Proofs.Outcome
import NodeTagging.Proofs.Places
import NodeTagging.Proofs.Rollback
import NodeTagging.Proofs.Atomicity
import NodeTagging.Proofs.Accounting
import NodeTagging.Proofs.Counts
import NodeTagging.Proofs.NameMatch
import NodeTagging.Proofs.Preparation
import NodeTagging.Proofs.Undisturbed
import NodeTagging.Proofs.WholeRun
import NodeTagging.Proofs.StaleEntries
import NodeTagging.Proofs.WiderExclusions
import NodeTagging.Proofs.Footprint
import NodeTagging.Proofs.Leftovers
import NodeTagging.Proofs.Preliminaries
import NodeTagging.Proofs.Unhindered
import NodeTagging.Proofs.SecondRun
import NodeTagging.Proofs.DumpOrigin
import NodeTagging.Proofs.WriteFailures
import NodeTagging.Proofs.Conformance
import NodeTagging.Proofs.Admission
import NodeTagging.Proofs.DumpShape
import NodeTagging.Proofs.FunctionNames
import NodeTagging.Proofs.LineBreaks
import NodeTagging.Proofs.ReadingMatch
import NodeTagging.Proofs.ReadingScript
import NodeTagging.Proofs.FileLines
import NodeTagging.Proofs.ReadingBack
import NodeTagging.Proofs.Attempts
import NodeTagging.Proofs.Arguments
import NodeTagging.Proofs.Ascent
import NodeTagging.Proofs.ReadingFunctions
import NodeTagging.Proofs.ReadingProbes
import NodeTagging.Proofs.Consistency
import NodeTagging.Proofs.Inventory
import NodeTagging.Proofs.TypeNames
