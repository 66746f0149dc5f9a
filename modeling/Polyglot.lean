import Polyglot.Main
import Polyglot.Target.Smt.StandIn
import Polyglot.Proofs.OpenScopes
import Polyglot.Proofs.Flags
import Polyglot.Proofs.ImportOrder
import Polyglot.Proofs.SorterSteps
import Polyglot.Proofs.Evaluation
import Polyglot.Proofs.Division
import Polyglot.Proofs.Widening
import Polyglot.Proofs.Repetition
import Polyglot.Proofs.TextLiterals
import Polyglot.Proofs.WorkingFolder
import Polyglot.Proofs.Publishing
import Polyglot.Proofs.Widthless
import Polyglot.Proofs.Spellings
import Polyglot.Proofs.Destructured
import Polyglot.Proofs.Ignored
import Polyglot.Proofs.Chained
import Polyglot.Proofs.Docstrings
import Polyglot.Proofs.JoinedText
import Polyglot.Proofs.JuliaTerms
import Polyglot.Proofs.Unions
import Polyglot.Proofs.FaultPlaces
import Polyglot.Proofs.FunctionLists
