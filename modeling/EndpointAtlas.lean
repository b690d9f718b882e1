import EndpointAtlas.Program
import EndpointAtlas.Proofs.SortedMap
import EndpointAtlas.Proofs.Catalog
import EndpointAtlas.Proofs.Roster
import EndpointAtlas.Proofs.Analysis
import EndpointAtlas.Proofs.Statistics
import EndpointAtlas.Proofs.TraversalOrder
import EndpointAtlas.Proofs.Irrelevance
import EndpointAtlas.Proofs.Utf8
import EndpointAtlas.Proofs.FileTree
import EndpointAtlas.Proofs.JsonText
import EndpointAtlas.Proofs.Report
import EndpointAtlas.Proofs.Scan
import EndpointAtlas.Proofs.Comments
import EndpointAtlas.Proofs.Qualification
import EndpointAtlas.Proofs.Discovery
import EndpointAtlas.Proofs.Ranking
import EndpointAtlas.Proofs.Rerun
import EndpointAtlas.Proofs.Doubling
import EndpointAtlas.Proofs.Leniency
import EndpointAtlas.Proofs.Isolation
import EndpointAtlas.Proofs.Rules
import EndpointAtlas.Proofs.TypeReference
import EndpointAtlas.Proofs.TypeText
import EndpointAtlas.Proofs.SoundTrees
import EndpointAtlas.Proofs.SoundReadings
import EndpointAtlas.Proofs.SoundParser
import EndpointAtlas.Proofs.SoundRepairs
import EndpointAtlas.Proofs.SoundRounds
import EndpointAtlas.Proofs.FirmSymbols
import EndpointAtlas.Proofs.DerivedNodes
import EndpointAtlas.Proofs.WellFormedUnits
import EndpointAtlas.Proofs.Ambiguity
import EndpointAtlas.Proofs.NormalText
import EndpointAtlas.Proofs.TypeLayout
import EndpointAtlas.Proofs.Erasure
import EndpointAtlas.Proofs.Classification
import EndpointAtlas.Proofs.LossyText
import EndpointAtlas.Proofs.NamedReference
import EndpointAtlas.Proofs.TypeBrackets
import EndpointAtlas.Proofs.TypeNames
import EndpointAtlas.Proofs.Implemented
import EndpointAtlas.Proofs.Extensions
import EndpointAtlas.Proofs.CommandLine
import EndpointAtlas.Proofs.Effects
import EndpointAtlas.Proofs.TypeEnds
import EndpointAtlas.Proofs.Dimensions
import EndpointAtlas.Proofs.FirstFlaw
import EndpointAtlas.Proofs.BlankedComments
