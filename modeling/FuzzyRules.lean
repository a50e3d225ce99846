import FuzzyRules.Atom
import FuzzyRules.Connective.Apply
import FuzzyRules.Connective.Basic
import FuzzyRules.Cursor
import FuzzyRules.Document.Basic
import FuzzyRules.Document.Lexeme
import FuzzyRules.Double.Basic
import FuzzyRules.Double.Decimal
import FuzzyRules.Double.Magnitude
import FuzzyRules.Evaluation
import FuzzyRules.Fault
import FuzzyRules.FuzzySet
import FuzzyRules.Host.Binding
import FuzzyRules.Host.Construct
import FuzzyRules.Host.Decoded
import FuzzyRules.Host.Error
import FuzzyRules.Host.Object
import FuzzyRules.Journal
import FuzzyRules.Literal
import FuzzyRules.Logger
import FuzzyRules.OrderedMap
import FuzzyRules.Proofs.Adequacy
import FuzzyRules.Proofs.Advance
import FuzzyRules.Proofs.Balance
import FuzzyRules.Proofs.Bounds
import FuzzyRules.Proofs.Congruence
import FuzzyRules.Proofs.Connective
import FuzzyRules.Proofs.Context
import FuzzyRules.Proofs.Cursor
import FuzzyRules.Proofs.Decoding
import FuzzyRules.Proofs.Demand
import FuzzyRules.Proofs.Derivation
import FuzzyRules.Proofs.Dictionary
import FuzzyRules.Proofs.Duality
import FuzzyRules.Proofs.Extremum
import FuzzyRules.Proofs.Form
import FuzzyRules.Proofs.History
import FuzzyRules.Proofs.Inference
import FuzzyRules.Proofs.Insertion
import FuzzyRules.Proofs.IntegerLiteral
import FuzzyRules.Proofs.Keys
import FuzzyRules.Proofs.Lexing
import FuzzyRules.Proofs.Likeness
import FuzzyRules.Proofs.LiteralText
import FuzzyRules.Proofs.Locality
import FuzzyRules.Proofs.Membership
import FuzzyRules.Proofs.Monotone
import FuzzyRules.Proofs.Nearest
import FuzzyRules.Proofs.Negation
import FuzzyRules.Proofs.Nesting
import FuzzyRules.Proofs.Normalization
import FuzzyRules.Proofs.Numeral
import FuzzyRules.Proofs.Offset
import FuzzyRules.Proofs.Overflow
import FuzzyRules.Proofs.Position
import FuzzyRules.Proofs.Provenance
import FuzzyRules.Proofs.Range
import FuzzyRules.Proofs.Recursion
import FuzzyRules.Proofs.Refusal
import FuzzyRules.Proofs.Registration
import FuzzyRules.Proofs.Regrouping
import FuzzyRules.Proofs.RoundTrip
import FuzzyRules.Proofs.Rounding
import FuzzyRules.Proofs.Segmentation
import FuzzyRules.Proofs.Showing
import FuzzyRules.Proofs.Spelling
import FuzzyRules.Proofs.Tree
import FuzzyRules.Proofs.Walk
import FuzzyRules.Proofs.Wrapping
import FuzzyRules.Session
import FuzzyRules.Settings
import FuzzyRules.Table
import FuzzyRules.Text.Blank
import FuzzyRules.Text.DecimalDigit
import FuzzyRules.Text.Printable
import FuzzyRules.Text.Quoted
import FuzzyRules.Text.UpperCase
import FuzzyRules.Token
import FuzzyRules.Value.Basic
import FuzzyRules.Value.DecEq
import FuzzyRules.Value.Depth
import FuzzyRules.Value.Equality
import FuzzyRules.Value.Text
