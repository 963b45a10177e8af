import SqlGrammar.Parse
import SqlGrammar.Build.InsertBuilder
import SqlGrammar.Build.SelectBuilder
import SqlGrammar.Proofs.Parsed.Statement
import SqlGrammar.Proofs.Canonical
import SqlGrammar.Proofs.CanonicalPayload
import SqlGrammar.Proofs.CanonicalDepth
import SqlGrammar.Proofs.Misreading
import SqlGrammar.Proofs.Writing.Named
import SqlGrammar.Proofs.Lexer.Skipped
import SqlGrammar.Proofs.Lexer.Tiling
import SqlGrammar.Proofs.Lexer.Reformat
import SqlGrammar.Proofs.SameSymbols
import SqlGrammar.Proofs.CursorContract
import SqlGrammar.Proofs.Commitment
import SqlGrammar.Proofs.Depth
import SqlGrammar.Proofs.Refusal
import SqlGrammar.Proofs.Creation
import SqlGrammar.Proofs.Parser.Within
import SqlGrammar.Proofs.Reading.Placeholders
import SqlGrammar.Proofs.Build.Insertion
import SqlGrammar.Proofs.Build.Selection
import SqlGrammar.Proofs.OperatorChain
import SqlGrammar.Proofs.ViablePrefix
import SqlGrammar.Proofs.ExpectedTerminals
import SqlGrammar.Proofs.NameQuoting
import SqlGrammar.Proofs.NumberGrammar
import SqlGrammar.Proofs.LiteralCodec
import SqlGrammar.Proofs.InlineValues
import SqlGrammar.Proofs.OrderedChoice
import SqlGrammar.Proofs.ListGrowth
import SqlGrammar.Proofs.TerminalSequence
import SqlGrammar.Proofs.InfixNegation
import SqlGrammar.Proofs.Writing.Composed
