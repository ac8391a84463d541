import DialectBridge.Main
import DialectBridge.Compiler.Recorded
import DialectBridge.Validation.Loop
import DialectBridge.Workspace.Features
import DialectBridge.Proofs.Course
import DialectBridge.Proofs.LineBookkeeping
import DialectBridge.Proofs.Entries
import DialectBridge.Proofs.Residues
import DialectBridge.Proofs.Narrowing
import DialectBridge.Proofs.RoundTrip
import DialectBridge.Proofs.Identifiers
import DialectBridge.Proofs.LineOrder
import DialectBridge.Proofs.KeptMappings
import DialectBridge.Proofs.DiagnosticPlaces
import DialectBridge.Proofs.LoneReceivers
import DialectBridge.Proofs.DanglingDots
import DialectBridge.Proofs.Unmarked
import DialectBridge.Proofs.Overruns
import DialectBridge.Proofs.SketchedLines
import DialectBridge.Proofs.CacheHistory
import DialectBridge.Proofs.WorkspaceHistory
import DialectBridge.Proofs.VirtualFiles
import DialectBridge.Proofs.Deliveries
import DialectBridge.Proofs.Independence
import DialectBridge.Proofs.MarkedBlocks
import DialectBridge.Proofs.MovedDeclarations
import DialectBridge.Proofs.KeptColumns
import DialectBridge.Proofs.ReturnedLines
import DialectBridge.Proofs.SharedDots
import DialectBridge.Proofs.CarriageReturns
import DialectBridge.Proofs.GroupedMappings
import DialectBridge.Proofs.WordTargets
import DialectBridge.Proofs.UntouchedLines
import DialectBridge.Proofs.RestoredLines
import DialectBridge.Proofs.ChosenTargets
import DialectBridge.Proofs.MonotoneMaps
import DialectBridge.Proofs.SketchedByLine
import DialectBridge.Proofs.SketchedColumns
import DialectBridge.Proofs.Addressing
import DialectBridge.Proofs.CanonicalMaps
import DialectBridge.Proofs.Geometry
import DialectBridge.Proofs.ReunitedResidues
import DialectBridge.Proofs.SharedContents
import DialectBridge.Proofs.TriggerDots
import DialectBridge.Proofs.ReportedDiagnostics
import DialectBridge.Proofs.NumberRange
import DialectBridge.Proofs.SettledSettings
import DialectBridge.Proofs.TouchedWords
