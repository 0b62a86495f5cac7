import MappingGraph.Main
import MappingGraph.Document.Edit
import MappingGraph.Files.Store
import MappingGraph.Proofs.Build.Arrangement
import MappingGraph.Proofs.Build.Complete
import MappingGraph.Proofs.Build.Positions
import MappingGraph.Proofs.Build.Reasons
import MappingGraph.Proofs.Build.Shape
import MappingGraph.Proofs.Build.Switch
import MappingGraph.Proofs.Checksum
import MappingGraph.Proofs.Citations
import MappingGraph.Proofs.Expr.Substitution
import MappingGraph.Proofs.Graph.Agreement
import MappingGraph.Proofs.Hint
import MappingGraph.Proofs.Marks
import MappingGraph.Proofs.Paths
import MappingGraph.Proofs.Reordering
import MappingGraph.Proofs.Requests
import MappingGraph.Proofs.RoundTrip
import MappingGraph.Proofs.Schema.Budget
import MappingGraph.Proofs.Schema.Declared
import MappingGraph.Proofs.Schema.Grammar
import MappingGraph.Proofs.Schema.Resolve
import MappingGraph.Proofs.Sharing.Cost
import MappingGraph.Proofs.Sharing.Selection
import MappingGraph.Proofs.Template.Parts
