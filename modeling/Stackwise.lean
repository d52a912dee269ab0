import Stackwise.Text.Blank
import Stackwise.Text.Numeral
import Stackwise.Text.Offset
import Stackwise.Text.Pieces
import Stackwise.Text.Printable
import Stackwise.Text.Quoted
import Stackwise.Token
import Stackwise.Token.Scan
import Stackwise.Term
import Stackwise.Term.Symbols
import Stackwise.Diagnostic
import Stackwise.Grammar.Mismatch
import Stackwise.Grammar.Cursor
import Stackwise.Grammar.Tier
import Stackwise.Grammar.Productions
import Stackwise.Grammar.Program
import Stackwise.Assembly.Operand
import Stackwise.Assembly.Instruction
import Stackwise.Assembly.Listing
import Stackwise.Assembly.Reader
import Stackwise.Assembly.Reserved
import Stackwise.Lowering.Defect
import Stackwise.Lowering.Emission
import Stackwise.Lowering.Term
import Stackwise.Lowering.Frame
import Stackwise.Lowering.Program
import Stackwise.Machine.Fault
import Stackwise.Machine.Store
import Stackwise.Machine.Program
import Stackwise.Machine.State
import Stackwise.Machine.Step
import Stackwise.Machine.Run
import Stackwise.Compile
import Stackwise.CommandLine
import Stackwise.Main
import Stackwise.Proofs.Derivations
import Stackwise.Proofs.GrammarSoundness
import Stackwise.Proofs.GrammarCompleteness
import Stackwise.Proofs.ListingText
import Stackwise.Proofs.SourceTerms
import Stackwise.Proofs.EmittedCode
import Stackwise.Proofs.Loading
import Stackwise.Proofs.StackRoom
import Stackwise.Proofs.EmittedListing
import Stackwise.Proofs.Frames
import Stackwise.Proofs.Reference
import Stackwise.Proofs.CodeLogic
import Stackwise.Proofs.CodeFragments
import Stackwise.Proofs.Activations
import Stackwise.Proofs.Requirements
import Stackwise.Proofs.BodyRuns
import Stackwise.Proofs.SafeRuns
import Stackwise.Proofs.ListingSafety
import Stackwise.Proofs.CallDiscipline
import Stackwise.Proofs.CompilerCorrectness
import Stackwise.Proofs.Formation
import Stackwise.Proofs.Printing
import Stackwise.Proofs.EmissionSuccess
import Stackwise.Proofs.LoweringVerdicts
import Stackwise.Proofs.ParsedLowering
import Stackwise.Proofs.ActivationRuns
import Stackwise.Proofs.ExecutedStatements
import Stackwise.Proofs.ActivationResults
import Stackwise.Proofs.ParallelReadings
import Stackwise.Proofs.Layout
import Stackwise.Proofs.Scanning
import Stackwise.Proofs.AnchoredDiagnostics
import Stackwise.Proofs.BracedPrograms
import Stackwise.Proofs.CodeViews
import Stackwise.Proofs.AgreeingStates
import Stackwise.Proofs.ModestListings
import Stackwise.Proofs.StaleRegisters
import Stackwise.Proofs.Lexemes
import Stackwise.Proofs.Tilings
import Stackwise.Proofs.ScanVerdicts
import Stackwise.Proofs.Sections
import Stackwise.Proofs.LabelDiscipline
import Stackwise.Proofs.FrameSlots
import Stackwise.Proofs.SeparatedSources
import Stackwise.Proofs.DisplayedTokens
import Stackwise.Proofs.Lookahead
import Stackwise.Proofs.ProgramParts
import Stackwise.Proofs.Signatures
import Stackwise.Proofs.UnreachedStatements
import Stackwise.Proofs.RenamedLowering
import Stackwise.Proofs.RenamedListings
import Stackwise.Proofs.CaretColumns
import Stackwise.Proofs.ReservedNames
import Stackwise.Proofs.DepthAccounting
import Stackwise.Proofs.TokenCursor
import Stackwise.Proofs.CursorProgress
