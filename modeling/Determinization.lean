import Determinization.Main
import Determinization.Proofs.FirstOccurrences
import Determinization.Proofs.OrderedMap
import Determinization.Proofs.Path
import Determinization.Proofs.Moves
import Determinization.Proofs.InsertionOrder
import Determinization.Proofs.Exploration
import Determinization.Proofs.Accessible
import Determinization.Proofs.Language
import Determinization.Proofs.Text.Lines
import Determinization.Proofs.Text.Literal
import Determinization.Proofs.Build
import Determinization.Proofs.Reading
import Determinization.Proofs.FileText
import Determinization.Proofs.FileLanguage
import Determinization.Proofs.AccessWord
import Determinization.Proofs.DiscoveryOrder
import Determinization.Proofs.Text.IntegerToken
import Determinization.Proofs.Describing
import Determinization.Proofs.Grammar
import Determinization.Proofs.Program
import Determinization.Proofs.Progress
import Determinization.Proofs.Simulation
import Determinization.Proofs.Traces
import Determinization.Proofs.ReachablePart
import Determinization.Proofs.Renaming
import Determinization.Proofs.Renumbering
import Determinization.Proofs.TransitionLines
import Determinization.Proofs.Reports
import Determinization.Proofs.ReportingOptions
import Determinization.Proofs.FirstFault
import Determinization.Proofs.Text.ByteSequence
import Determinization.Proofs.Respelling
import Determinization.Proofs.LineEndings
import Determinization.Proofs.TransitionTable
import Determinization.Proofs.Options.Argument
import Determinization.Proofs.Options.Groups
import Determinization.Proofs.PrefixStability
import Determinization.Proofs.LineNumbers
import Determinization.Proofs.EdgeEncoding
import Determinization.Proofs.SetTexts
import Determinization.Proofs.Edges
import Determinization.Proofs.TableLayout
import Determinization.Proofs.PrintedTables
