import AvroSchemata.Catalogue
import AvroSchemata.Command.Arguments
import AvroSchemata.Command.Place
import AvroSchemata.Command.Run
import AvroSchemata.Derivation.Basic
import AvroSchemata.Derivation.Outcome
import AvroSchemata.Derivation.Run
import AvroSchemata.Derivation.Walk
import AvroSchemata.Json
import AvroSchemata.Json.Reader
import AvroSchemata.Json.RoundTrip
import AvroSchemata.Main
import AvroSchemata.Proofs.Bindings
import AvroSchemata.Proofs.ByteOrder
import AvroSchemata.Proofs.Commands
import AvroSchemata.Proofs.DefinedNames
import AvroSchemata.Proofs.Definitions
import AvroSchemata.Proofs.Description
import AvroSchemata.Proofs.EqualTexts
import AvroSchemata.Proofs.Erasure
import AvroSchemata.Proofs.FirstFailure
import AvroSchemata.Proofs.FirstOccurrence
import AvroSchemata.Proofs.FullNames
import AvroSchemata.Proofs.Growth
import AvroSchemata.Proofs.Handles
import AvroSchemata.Proofs.Layouts
import AvroSchemata.Proofs.Limits
import AvroSchemata.Proofs.Mending
import AvroSchemata.Proofs.Namespaces
import AvroSchemata.Proofs.NestedTexts
import AvroSchemata.Proofs.Noninterference
import AvroSchemata.Proofs.OrderOfCalls
import AvroSchemata.Proofs.Pruning
import AvroSchemata.Proofs.Reachability
import AvroSchemata.Proofs.References
import AvroSchemata.Proofs.Refusals
import AvroSchemata.Proofs.Rules
import AvroSchemata.Proofs.Runs
import AvroSchemata.Proofs.SharedCatalogue
import AvroSchemata.Proofs.Simulation
import AvroSchemata.Proofs.Termination
import AvroSchemata.Proofs.TypePaths
import AvroSchemata.Schema.Basic
import AvroSchemata.Schema.Outline
import AvroSchemata.Shape
import AvroSchemata.Shape.Label
import AvroSchemata.TypeExpr
import AvroSchemata.TypePath
