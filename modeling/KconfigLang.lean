import KconfigLang.Main
import KconfigLang.Golden.Run
import KconfigLang.Proofs.Grammar.Printing
import KconfigLang.Proofs.Grammar.BlockStructure
import KconfigLang.Proofs.Grammar.LineBreaks
import KconfigLang.Proofs.Grammar.Nesting
import KconfigLang.Proofs.Grammar.Rendering
import KconfigLang.Proofs.Token.MaximalMunch
import KconfigLang.Proofs.Token.Concatenation
import KconfigLang.Proofs.Token.Printing
import KconfigLang.Proofs.Token.Reencoding
import KconfigLang.Proofs.Token.HelpIndent
import KconfigLang.Proofs.Token.HelpLines
import KconfigLang.Proofs.Eval.Strictness
import KconfigLang.Proofs.Eval.Symbols
import KconfigLang.Proofs.Golden.Comparison
import KconfigLang.Proofs.Inclusion.Textual
import KconfigLang.Proofs.Inclusion.Cycle
import KconfigLang.Proofs.Inclusion.Cache
import KconfigLang.Proofs.Inclusion.Provenance
import KconfigLang.Proofs.Inclusion.EntryPoints
import KconfigLang.Proofs.Inclusion.Interruption
import KconfigLang.Proofs.Inclusion.Resolved
import KconfigLang.Proofs.Inclusion.Depth
import KconfigLang.Proofs.Inclusion.Stack
import KconfigLang.Proofs.Inclusion.ErrorFile
import KconfigLang.Proofs.Token.HelpColumns
import KconfigLang.Proofs.Eval.NumberLiterals
import KconfigLang.Proofs.Grammar.Declarations
import KconfigLang.Proofs.Golden.Independence
import KconfigLang.Proofs.Files.Insertions
import KconfigLang.Proofs.Command.PathVariables
import KconfigLang.Proofs.Grammar.ReportHeader
import KconfigLang.Proofs.Eval.Assignments
import KconfigLang.Proofs.Eval.Visibility
import KconfigLang.Proofs.Text.PositionOrder
import KconfigLang.Proofs.Files.Registrations
