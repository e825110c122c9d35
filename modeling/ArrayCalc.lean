import ArrayCalc.Host.Desk
import ArrayCalc.Main
import ArrayCalc.Value.Checked
import ArrayCalc.Proofs.BulkRoutes
import ArrayCalc.Proofs.Lexemes
import ArrayCalc.Proofs.Outcome
import ArrayCalc.Proofs.Reads
import ArrayCalc.Proofs.ReadingScope
import ArrayCalc.Proofs.Definitions
import ArrayCalc.Proofs.Lines
import ArrayCalc.Proofs.Agreement
import ArrayCalc.Proofs.Reachable
import ArrayCalc.Proofs.LineEnds
import ArrayCalc.Proofs.Vocabularies
import ArrayCalc.Proofs.Copies
import ArrayCalc.Proofs.Mirrors
import ArrayCalc.Proofs.CopiedLines
import ArrayCalc.Proofs.PrintedLines
import ArrayCalc.Proofs.Reload
import ArrayCalc.Proofs.LineGrammar
import ArrayCalc.Proofs.ReadingTrees
import ArrayCalc.Proofs.Resumption
import ArrayCalc.Proofs.PrintedStatements
import ArrayCalc.Proofs.PrintedLiterals
import ArrayCalc.Proofs.Presence
import ArrayCalc.Proofs.Reports
import ArrayCalc.Proofs.FailedDefinitions
import ArrayCalc.Proofs.CanonicalSessions
import ArrayCalc.Proofs.Pieces
import ArrayCalc.Proofs.ReadingEnds
import ArrayCalc.Proofs.Products
import ArrayCalc.Proofs.DoubleOrder
import ArrayCalc.Proofs.Scans
import ArrayCalc.Proofs.IntegerOperators
import ArrayCalc.Proofs.RationalOperators
import ArrayCalc.Proofs.NumeralTexts
import ArrayCalc.Proofs.PrintedNumbers
import ArrayCalc.Proofs.LiteralSigns
import ArrayCalc.Proofs.ElementAssignment
import ArrayCalc.Proofs.QuotedTexts
import ArrayCalc.Proofs.OperatorCalls
