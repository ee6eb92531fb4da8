import TensorGraph.Main
import TensorGraph.Proofs.Outcome
import TensorGraph.Proofs.Registration
import TensorGraph.Proofs.Building
import TensorGraph.Proofs.Acceptance
import TensorGraph.Proofs.SingleAssignment
import TensorGraph.Proofs.ShapeRules
import TensorGraph.Proofs.ShapeInference
import TensorGraph.Proofs.Directory
import TensorGraph.Proofs.Dictionary
import TensorGraph.Proofs.Positional.Compile
import TensorGraph.Proofs.Positional.Inference
import TensorGraph.Proofs.Positional.Safety
import TensorGraph.Proofs.RankCheck
import TensorGraph.Proofs.Reordering
import TensorGraph.Proofs.Readings
import TensorGraph.Proofs.Faults
import TensorGraph.Proofs.Blame
import TensorGraph.Proofs.Records
import TensorGraph.Proofs.WeightValues
import TensorGraph.Proofs.GraphShapes
import TensorGraph.Proofs.Listing
import TensorGraph.Proofs.ImportCommand
import TensorGraph.Proofs.Unfolding
import TensorGraph.Proofs.ExactSize
import TensorGraph.Proofs.IgnoredFlag
import TensorGraph.Proofs.MismatchCounts
import TensorGraph.Proofs.Permutations
import TensorGraph.Proofs.ComposedTransposes
import TensorGraph.Proofs.Placeholders
import TensorGraph.Proofs.Renaming.Inference
import TensorGraph.Proofs.Rewriting.Descriptions
import TensorGraph.Proofs.TypeLabels
import TensorGraph.Proofs.KindLabels
import TensorGraph.Proofs.Rounding
import TensorGraph.Proofs.Magnitudes
import TensorGraph.Proofs.ProductAttributes
import TensorGraph.Proofs.Literals
import TensorGraph.Proofs.AttributeForms
import TensorGraph.Proofs.RoundTrip
import TensorGraph.Proofs.Places
import TensorGraph.Proofs.Parameters
import TensorGraph.Proofs.AcceptedValues
import TensorGraph.Proofs.AttributeQueries
