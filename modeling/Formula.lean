import Formula.Batch
import Formula.Catalogue
import Formula.Grammar
import Formula.Journal
import Formula.Session
import Formula.Tree
import Formula.Proofs.Completion
import Formula.Proofs.Phrase
import Formula.Proofs.Acceptance
import Formula.Proofs.Binding
import Formula.Proofs.Denotation
import Formula.Proofs.Arrangement
import Formula.Proofs.Compiling
import Formula.Proofs.Evaluation
import Formula.Proofs.Encoding
import Formula.Proofs.Cutting
import Formula.Proofs.Lexing
import Formula.Proofs.Tiling
import Formula.Proofs.Composition
import Formula.Proofs.Numeral
import Formula.Proofs.Viability
import Formula.Proofs.Spelling
import Formula.Proofs.Malformed
import Formula.Proofs.Valuation
import Formula.Proofs.Placing
import Formula.Proofs.Substitution
import Formula.Proofs.Reuse
import Formula.Proofs.Conservation
import Formula.Proofs.Unbound
import Formula.Proofs.Variables
import Formula.Proofs.Peak
import Formula.Proofs.Nesting
import Formula.Proofs.Tally
import Formula.Proofs.Greedy
import Formula.Proofs.Nearest
import Formula.Proofs.ExactValue
import Formula.Proofs.Literal
import Formula.Proofs.Equality
import Formula.Proofs.Wording
import Formula.Proofs.Pending
import Formula.Proofs.Window
import Formula.Proofs.Descent
import Formula.Proofs.Progress
import Formula.Proofs.Sessions
import Formula.Proofs.Telling
