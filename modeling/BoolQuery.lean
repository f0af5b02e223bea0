import BoolQuery.Main
import BoolQuery.Files.Tree
import BoolQuery.Proofs.Query.RoundTrip
import BoolQuery.Proofs.Query.Faithful
import BoolQuery.Proofs.Query.Alike
import BoolQuery.Proofs.Query.Opaque
import BoolQuery.Proofs.Query.Composed
import BoolQuery.Proofs.Query.Renamed
import BoolQuery.Proofs.Query.Evaluation
import BoolQuery.Proofs.Query.Polarity
import BoolQuery.Proofs.Postfix.Nesting
import BoolQuery.Proofs.Token.Swapped
import BoolQuery.Proofs.Token.QuotedPart
import BoolQuery.Proofs.Token.FieldGrammar
import BoolQuery.Proofs.Token.Spacing
import BoolQuery.Proofs.Filter.Files
import BoolQuery.Proofs.Filter.Bytewise
import BoolQuery.Proofs.Filter.Piped
import BoolQuery.Proofs.Dialect.Renamed
import BoolQuery.Proofs.Config.Discovery
import BoolQuery.Proofs.Config.Document
import BoolQuery.Proofs.Config.Overlay
import BoolQuery.Proofs.Query.Forest
import BoolQuery.Proofs.Query.Balanced
import BoolQuery.Proofs.Postfix.Viable
import BoolQuery.Proofs.Dialect.Faults
import BoolQuery.Proofs.Query.Json
import BoolQuery.Proofs.Query.Outline
import BoolQuery.Proofs.Token.Indexed
import BoolQuery.Proofs.Token.Mirror
import BoolQuery.Proofs.Token.Progress
