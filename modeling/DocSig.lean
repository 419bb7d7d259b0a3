import DocSig.Main
import DocSig.Proofs.DocType.Words
import DocSig.Proofs.DocType.Printable
import DocSig.Proofs.DocType.Readers
import DocSig.Proofs.DocType.Bracketed
import DocSig.Proofs.DocType.RoundTrip
import DocSig.Proofs.DocType.Progress
import DocSig.Proofs.DocType.Shape
import DocSig.Proofs.Docblock.Tags
import DocSig.Proofs.Docblock.RoundTrip
import DocSig.Proofs.Extraction.Outcomes
import DocSig.Proofs.Extraction.Independence
import DocSig.Proofs.Outline.Places
import DocSig.Proofs.Outline.Scoping
import DocSig.Proofs.Outline.Names
import DocSig.Proofs.Signature.Line
import DocSig.Proofs.Outline.Growth
import DocSig.Proofs.Extraction.OlderTables
import DocSig.Proofs.Extraction.Qualified
import DocSig.Proofs.Extraction.Hints
import DocSig.Proofs.Outline.Numbering
import DocSig.Proofs.Php.Outline
import DocSig.Proofs.Php.WellFormed
import DocSig.Proofs.DocType.Cuts
import DocSig.Proofs.DocType.Locality
import DocSig.Proofs.DocType.Regrouping
import DocSig.Proofs.Php.Lexer
import DocSig.Proofs.Php.Syntax
import DocSig.Proofs.Php.Grammar.Basic
import DocSig.Proofs.Php.Grammar.Functions
import DocSig.Proofs.Php.Grammar.Classes
import DocSig.Proofs.Php.Grammar.Expressions
import DocSig.Proofs.Php.Grammar.Statements
import DocSig.Proofs.Php.Parser
import DocSig.Proofs.Report.Lines
import DocSig.Proofs.Outline.Warnings
import DocSig.Proofs.Outline.Ancestry
import DocSig.Proofs.Docblock.Segments
import DocSig.Proofs.Docblock.Starts
import DocSig.Proofs.DocType.Depth
import DocSig.Proofs.DocType.Nesting
import DocSig.Proofs.DocType.Keyless
import DocSig.Proofs.Docblock.Layout
import DocSig.Proofs.Docblock.Result
import DocSig.Proofs.DocType.Groupings
import DocSig.Proofs.Docblock.OtherTags
import DocSig.Proofs.Bisection
import DocSig.Proofs.Php.Comments
import DocSig.Proofs.DocType.Parts
import DocSig.Proofs.DocType.Allowance
import DocSig.Proofs.DocType.Spacing
import DocSig.Proofs.DocType.Respacing
import DocSig.Proofs.Outline.LetterCase
import DocSig.Proofs.Outline.Imported
import DocSig.Proofs.Docblock.ByReference
import DocSig.Proofs.Php.DocComments
import DocSig.Proofs.DocType.Termination
import DocSig.Proofs.Report.Json
import DocSig.Proofs.CommandLine.Run
import DocSig.Proofs.Files.Folder
import DocSig.Proofs.Text.Bytes
import DocSig.Proofs.Text.LineIndex
