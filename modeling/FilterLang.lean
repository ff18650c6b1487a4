import FilterLang.Binary64.Text
import FilterLang.Command.Event
import FilterLang.Json.Reader
import FilterLang.Main
import FilterLang.Proofs.Source.RoundTrip
import FilterLang.Proofs.Token.Munch
import FilterLang.Proofs.Expr.Decoding
import FilterLang.Proofs.Grammar.Failure
import FilterLang.Proofs.Grammar.LexicalErrors
import FilterLang.Proofs.Json.RoundTrip
import FilterLang.Proofs.Token.Layout
import FilterLang.Proofs.Descent.Agreement
import FilterLang.Proofs.Expr.Items
import FilterLang.Proofs.Descent.Counter
import FilterLang.Proofs.Descent.Outline
import FilterLang.Proofs.Descent.Nesting
import FilterLang.Proofs.Descent.Lockstep
import FilterLang.Proofs.Token.Gap
import FilterLang.Proofs.Token.Seam
import FilterLang.Proofs.Grammar.Graft
import FilterLang.Proofs.Grammar.ErrorLocation
import FilterLang.Proofs.Token.Session
import FilterLang.Proofs.Grammar.Truncated
import FilterLang.Proofs.Json.Pieces
import FilterLang.Proofs.Json.Strict
import FilterLang.Proofs.Expr.Format
import FilterLang.Proofs.Expr.Variation
import FilterLang.Proofs.Grammar.Prefix
import FilterLang.Proofs.Descent.OnePass
import FilterLang.Proofs.Grammar.TrailingInput
import FilterLang.Proofs.Descent.Guards
import FilterLang.Proofs.Command.Run
import FilterLang.Proofs.Grammar.Enclosed
import FilterLang.Proofs.Grammar.NumberLiteral
import FilterLang.Proofs.Token.Concatenation
import FilterLang.Proofs.Json.Minified
import FilterLang.Proofs.Token.RoundTrip
import FilterLang.Proofs.Command.LineEnds
