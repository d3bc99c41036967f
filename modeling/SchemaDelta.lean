import SchemaDelta.Host.Tree
import SchemaDelta.Main
import SchemaDelta.Proofs.Equivalence
import SchemaDelta.Proofs.IndexCreation
import SchemaDelta.Proofs.LetterCase
import SchemaDelta.Proofs.RoundTrip
import SchemaDelta.Proofs.Framing
import SchemaDelta.Proofs.NameSpan
import SchemaDelta.Proofs.FailurePlace
import SchemaDelta.Proofs.Joining
import SchemaDelta.Proofs.Splitting
import SchemaDelta.Proofs.Reversal
import SchemaDelta.Proofs.Minimality
import SchemaDelta.Proofs.Rearrangement
import SchemaDelta.Proofs.Execution
import SchemaDelta.Proofs.Progress
import SchemaDelta.Proofs.QuotedName
import SchemaDelta.Proofs.ImpliedIndex
import SchemaDelta.Proofs.IndexRemoval
import SchemaDelta.Proofs.Marks
import SchemaDelta.Proofs.Restoration
import SchemaDelta.Proofs.Respacing
import SchemaDelta.Proofs.Decorated.Column
import SchemaDelta.Proofs.Decorated.Table
import SchemaDelta.Proofs.Legibility
import SchemaDelta.Proofs.Decoration
import SchemaDelta.Proofs.Tiling
import SchemaDelta.Proofs.DefaultPlace
import SchemaDelta.Proofs.Decorated.Index
import SchemaDelta.Proofs.DeclaredKeys
import SchemaDelta.Proofs.LineColumn
import SchemaDelta.Proofs.StringUnit
import SchemaDelta.Proofs.Lookup
import SchemaDelta.Proofs.Unambiguous
