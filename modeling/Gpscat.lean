import Gpscat.Csv.Proofs.ThreadsProofs
import Gpscat.Csv.Proofs.FragmentsProofs
import Gpscat.Csv.Proofs.FileProofs
import Gpscat.Csv.Proofs.FieldProofs
import Gpscat.Csv.Proofs.RowProofs
import Gpscat.Csv.Proofs.ReaderProofs
import Gpscat.CostModelFile
import Gpscat.Proofs.CostModelFileProofs
import Gpscat.CostFiles
import Gpscat.Messages
import Gpscat.Proofs.MessagesProofs
import Gpscat.Proofs.CostFilesProofs
import Gpscat.Csv.Threads
import Gpscat.Csv.Fragments
import Gpscat.Csv.File
import Gpscat.Csv.Field
import Gpscat.Csv.Reader
import Gpscat.Csv.Views
import Gpscat.Csv.Proofs.ViewsProofs
import Gpscat.Lib.CppString
import Gpscat.Lib.Proofs.CppStringProofs
import Gpscat.Lib.UnorderedMap
import Gpscat.Lib.MachineInt
import Gpscat.Lib.ListSum
import Gpscat.Lib.ListEdit
import Gpscat.Lib.MapAccum
import Gpscat.Lib.IStream
import Gpscat.Lib.Proofs.IStreamProofs
import Gpscat.Lib.Brackets
import Gpscat.Lib.Proofs.BracketsProofs
import Gpscat.Lib.Simulation
import Gpscat.Lib.Proofs.SimulationProofs
import Gpscat.Lib.WorkQueue
import Gpscat.Lib.Proofs.WorkQueueProofs
import Gpscat.Lib.BoxMean
import Gpscat.Lib.IteratedIntegral
import Gpscat.LLVM.IR
import Gpscat.LLVM.Proofs.IRProofs
import Gpscat.LLVM.SymbolTable
import Gpscat.LLVM.Proofs.SymbolTableProofs
import Gpscat.LLVM.Semantics
import Gpscat.LLVM.DebugErasure
import Gpscat.LLVM.Proofs.DebugErasureProofs
import Gpscat.LLVM.Metadata
import Gpscat.LLVM.BlockShape
import Gpscat.LLVM.Proofs.BlockShapeProofs
import Gpscat.LLVM.Proofs.BlockErasureProofs
import Gpscat.AssemblyCostModel
import Gpscat.Debugify
import Gpscat.Proofs.DebugifyProofs
import Gpscat.IRLocator
import Gpscat.Proofs.IRLocatorProofs
import Gpscat.Proofs.LocationProofs
import Gpscat.Repetition
import Gpscat.Proofs.RepetitionProofs
import Gpscat.Proofs.DebugifyShapeProofs
import Gpscat.MappingExtractor
import Gpscat.Proofs.MappingExtractorProofs
import Gpscat.IRCostCalculator
import Gpscat.Proofs.IRCostCalculatorProofs
import Gpscat.Visits
import Gpscat.Proofs.VisitsProofs
import Gpscat.Attribution
import Gpscat.Proofs.AttributionProofs
import Gpscat.Grouping
import Gpscat.Proofs.GroupingProofs
import Gpscat.Sections
import Gpscat.Proofs.SectionsProofs
import Gpscat.CoFloCo.Tick
import Gpscat.CoFloCo.Proofs.TickProofs
import Gpscat.CoFloCo.Proofs.TickShapeProofs
import Gpscat.CoFloCo.Proofs.TickSimulationProofs
import Gpscat.CostRange
import Gpscat.Proofs.CostRangeProofs
import Gpscat.CostMetadata
import Gpscat.Proofs.CostMetadataProofs
import Gpscat.CoFloCo.Llvm2kittel
import Gpscat.CoFloCo.Proofs.Llvm2kittelProofs
import Gpscat.CoFloCo.NatRewriting
import Gpscat.CoFloCo.Proofs.NatRewritingProofs
import Gpscat.CoFloCo.NatRemoval
import Gpscat.CoFloCo.Proofs.NatRemovalProofs
import Gpscat.CoFloCo.Proofs.RepeatedNatProofs
import Gpscat.CoFloCo.BoundLanguage
import Gpscat.CoFloCo.BoundParser
import Gpscat.CoFloCo.Proofs.BoundParserProofs
import Gpscat.CoFloCo.Proofs.BoundLanguageProofs
import Gpscat.CoFloCo.Proofs.BoundRemovalProofs
import Gpscat.DebugValues
import Gpscat.Proofs.DebugValuesProofs
import Gpscat.Cost
import Gpscat.Proofs.CostProofs
import Gpscat.Proofs.CostBoundProofs
import Gpscat.CoFloCo.Applications
import Gpscat.CoFloCo.Proofs.ApplicationsProofs
import Gpscat.CoFloCo.Output
import Gpscat.CoFloCo.Proofs.OutputProofs
import Gpscat.Score.Bounds
import Gpscat.Score.Proofs.BoundsProofs
import Gpscat.Score.SymEngine
import Gpscat.Score.Integration
import Gpscat.Score.Pairing
import Gpscat.Score.Proofs.PairingProofs
import Gpscat.Score.Proofs.IntegrationProofs
import Gpscat.Score.Integrand
import Gpscat.Score.Proofs.SymEngineProofs
import Gpscat.Score.Proofs.IntegrandProofs
import Gpscat.Score.Widths
import Gpscat.Score.Proofs.WidthsProofs
