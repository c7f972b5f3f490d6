import Apidoc.Main
import Apidoc.Manifest
import Apidoc.Run
import Apidoc.Proofs.DeclarationOrder
import Apidoc.Proofs.Trimming
import Apidoc.Proofs.CommaParts
import Apidoc.Proofs.WrittenTypes
import Apidoc.Proofs.LineLayout
import Apidoc.Proofs.WrittenItems
import Apidoc.Proofs.Layout
import Apidoc.Proofs.SectionOrder
import Apidoc.Proofs.LogicalLines
import Apidoc.Proofs.Renumbering
import Apidoc.Proofs.RepeatedHeaders
import Apidoc.Proofs.PathOperations
import Apidoc.Proofs.Spacing
import Apidoc.Proofs.CatalogEntries
import Apidoc.Proofs.Parameters
import Apidoc.Proofs.SchemaParts
import Apidoc.Proofs.ManifestRoundTrip
import Apidoc.Proofs.RequiredProperties
import Apidoc.Proofs.PathParameters
import Apidoc.Proofs.RegistrationOrder
import Apidoc.Proofs.WrittenAnnotations
import Apidoc.Proofs.FileContents
import Apidoc.Proofs.RunOutcome
import Apidoc.Proofs.ValueOrder
import Apidoc.Proofs.SchemaEntries
import Apidoc.Proofs.NullKeywords
import Apidoc.Proofs.SchemaRoundTrip
import Apidoc.Proofs.SchemaFrame
import Apidoc.Proofs.RequestBodies
import Apidoc.Proofs.LineGrammar
import Apidoc.Proofs.LineReading
import Apidoc.Proofs.WrittenRoutes
import Apidoc.Proofs.Responses
import Apidoc.Proofs.HeaderVocabulary
import Apidoc.Proofs.ManifestProblems
import Apidoc.Proofs.MethodNames
import Apidoc.Proofs.UnclosedTypes
import Apidoc.Proofs.LiteralRoutes
import Apidoc.Proofs.LineBlocks
import Apidoc.Proofs.TransitionTable
import Apidoc.Proofs.BodyCounts
