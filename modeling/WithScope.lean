import WithScope.Number.Numeral
import WithScope.Proofs.Grammar.FittingStatement
import WithScope.Proofs.Grammar.Nested
import WithScope.Proofs.Grammar.Relaxed
import WithScope.Proofs.Grammar.ShallowStatement
import WithScope.Proofs.Grammar.Termination
import WithScope.Proofs.Scope.FreeOccurrences
import WithScope.Proofs.Token.Delimiters
import WithScope.Proofs.Token.Stability
import WithScope.Proofs.Tree.Reread
import WithScope.Proofs.Wrapper.Failure
import WithScope.Proofs.Grammar.LeavingStatement
import WithScope.Proofs.Text.Replaced
import WithScope.Proofs.Wrapper.Unwrapped
import WithScope.Proofs.Scope.Table
import WithScope.Proofs.Grammar.NameStatement
import WithScope.Proofs.Text.Utf8Order
import WithScope.Proofs.Wrapper.UnusedName
import WithScope.Proofs.Wrapper.Wrapped
import WithScope.Proofs.Grammar.Precedence
import WithScope.Proofs.Scope.Misplaced
import WithScope.Proofs.Scope.Ordered
import WithScope.Proofs.Text.CodePoint
import WithScope.Proofs.Text.Spelling
import WithScope.Proofs.Text.IllegalEscape
import WithScope.Proofs.Scope.CoverTrace
import WithScope.Proofs.Scope.Items
import WithScope.Proofs.Scope.Visits
import WithScope.Proofs.Scope.Addresses
import WithScope.Proofs.Scope.ValueReference
import WithScope.Proofs.Scope.Holds
import WithScope.Proofs.Text.Between
import WithScope.Proofs.Token.Quoted
import WithScope.Proofs.Token.Spelled
import WithScope.Proofs.Token.CookedName
import WithScope.Proofs.Token.Adjoining
import WithScope.Proofs.Token.RegExp
import WithScope.Proofs.Token.Numerals
import WithScope.Proofs.Tree.Spelled
import WithScope.Proofs.Grammar.Tells
import WithScope.Proofs.Grammar.OrdinaryStatement
import WithScope.Proofs.Grammar.TightSteps
import WithScope.Proofs.Grammar.SpelledPrimary
import WithScope.Proofs.Grammar.SpelledOperation
import WithScope.Proofs.Grammar.SpelledStatement
import WithScope.Proofs.Grammar.Written
import WithScope.Proofs.Token.Copies
import WithScope.Proofs.Token.Footing
import WithScope.Proofs.Tree.Placeless
import WithScope.Proofs.Tree.HandedOn
import WithScope.Proofs.Grammar.Stretch
import WithScope.Proofs.Grammar.Follows
import WithScope.Proofs.Grammar.FollowsEnd
import WithScope.Proofs.Grammar.Alike
import WithScope.Proofs.Grammar.AlikePrimary
import WithScope.Proofs.Grammar.AlikeOperation
import WithScope.Proofs.Grammar.AlikeStatement
import WithScope.Proofs.Grammar.Bracketed
import WithScope.Proofs.Wrapper.Upto
import WithScope.Proofs.Wrapper.Hands
import WithScope.Proofs.Wrapper.Argument
import WithScope.Proofs.Wrapper.Object
import WithScope.Proofs.Wrapper.Handing
import WithScope.Proofs.Wrapper.HandsStatement
import WithScope.Proofs.Wrapper.Reparsed
