import Unroll.Main
import Unroll.Text.Template
import Unroll.Tree.Equality
import Unroll.Proofs.ScanPartition
import Unroll.Proofs.TextReading
import Unroll.Proofs.LayoutReading
import Unroll.Proofs.PrintableStreams
import Unroll.Proofs.ExpansionReading
import Unroll.Proofs.LoopGrammar
import Unroll.Proofs.RepeatedSections
import Unroll.Proofs.NestedLoops
import Unroll.Proofs.SplicingRuns
import Unroll.Proofs.DepthLimits
import Unroll.Proofs.Seams
import Unroll.Proofs.TwinCopies
import Unroll.Proofs.Placement
import Unroll.Proofs.Provenance
import Unroll.Proofs.BlankedComments
import Unroll.Proofs.Lexicon
import Unroll.Proofs.LoopForms
import Unroll.Proofs.SpacingHints
import Unroll.Proofs.AlikeLoops
import Unroll.Proofs.Descriptions
import Unroll.Proofs.HeaderText
import Unroll.Proofs.Segments
import Unroll.Proofs.PastedCopies
import Unroll.Proofs.IntegerValues
import Unroll.Proofs.Counting
import Unroll.Proofs.AssemblyFaults
import Unroll.Proofs.HeaderFaults
import Unroll.Proofs.TouchingMarks
import Unroll.Proofs.CallSites
import Unroll.Proofs.Terminators
import Unroll.Proofs.SpelledOutputs
import Unroll.Proofs.Forests
import Unroll.Proofs.Hulls
import Unroll.Proofs.MacroNames
import Unroll.Proofs.Outlines
import Unroll.Proofs.Characters
import Unroll.Proofs.Positions
