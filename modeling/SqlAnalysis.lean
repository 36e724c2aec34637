import SqlAnalysis.Proofs.Plan.WellFormed
import SqlAnalysis.Proofs.Binding.Parameters
import SqlAnalysis.Proofs.Plan.Agreement
import SqlAnalysis.Proofs.Plan.FilterScopes
import SqlAnalysis.Proofs.Binding.OutputColumns
import SqlAnalysis.Proofs.Plan.FromJoins
import SqlAnalysis.Proofs.Plan.SortKeys
import SqlAnalysis.Proofs.Plan.ClosedPlans
import SqlAnalysis.Proofs.Catalog.Rollback
import SqlAnalysis.Proofs.Catalog.Relations
import SqlAnalysis.Proofs.Plan.EntryColumns
import SqlAnalysis.Proofs.Plan.InsertValues
import SqlAnalysis.Proofs.Binding.InsertColumns
import SqlAnalysis.Proofs.Plan.Conjunctions
import SqlAnalysis.Proofs.Binding.UnionChains
import SqlAnalysis.Proofs.Binding.CaseTypes
import SqlAnalysis.Proofs.Value.Numbers
import SqlAnalysis.Proofs.Catalog.Routines
import SqlAnalysis.Proofs.Plan.OpenReferences
import SqlAnalysis.Proofs.Expr.LeastDepths
