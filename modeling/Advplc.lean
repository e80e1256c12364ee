import Advplc.CommandLine.Run
import Advplc.File.Tree
import Advplc.Main
import Advplc.Script.Foreign
import Advplc.Proofs.Grammar.Agreement
import Advplc.Proofs.Grammar.Unrolled
import Advplc.Proofs.Grammar.Written
import Advplc.Proofs.Script.Bare
import Advplc.Proofs.Grammar.Completeness.Expression
import Advplc.Proofs.Grammar.Completeness.Statement
import Advplc.Proofs.Grammar.RoundTrip
import Advplc.Proofs.Grammar.Soundness.Expression
import Advplc.Proofs.Grammar.Soundness.Statement
import Advplc.Proofs.Token.Match.Length
import Advplc.Proofs.Token.Layout
import Advplc.Proofs.Grammar.Forms
import Advplc.Proofs.Grammar.Apart
import Advplc.Proofs.Grammar.Places
import Advplc.Proofs.Lowering.Bare
import Advplc.Proofs.Layout
import Advplc.Proofs.Lowering.Wording
import Advplc.Proofs.Flow.Listing
import Advplc.Proofs.Flow.Source
import Advplc.Proofs.Flow.Simulation
import Advplc.Proofs.Grammar.Comments.Removal
import Advplc.Proofs.Grammar.Braces
import Advplc.Proofs.Grammar.Comments.Displacement
import Advplc.Proofs.Comments
import Advplc.Proofs.Text.Escape
import Advplc.Proofs.Target.Reading
import Advplc.Proofs.Lowering.Session
import Advplc.Proofs.Strings
import Advplc.Proofs.Token.Joining
import Advplc.Proofs.Grammar.Division
import Advplc.Proofs.Joining
import Advplc.Proofs.Grammar.Tracking.Basic
import Advplc.Proofs.Grammar.Tracking.Expression
import Advplc.Proofs.Grammar.Tracking.Statement
import Advplc.Proofs.Grammar.Faults
import Advplc.Proofs.Script.Parts
import Advplc.Proofs.Lowering.Refusal
import Advplc.Proofs.Grammar.Regular
import Advplc.Proofs.Failures
import Advplc.Proofs.Grammar.Inside
import Advplc.Proofs.Target.Value
import Advplc.Proofs.Flow.Counting
import Advplc.Proofs.Token.Delimited
import Advplc.Proofs.Grouping
import Advplc.Proofs.Script.Frame
import Advplc.Proofs.Target.Pattern
import Advplc.Proofs.Lowering.Contribution
import Advplc.Proofs.Effects
import Advplc.Proofs.Text.Units
import Advplc.Proofs.Token.Content
import Advplc.Proofs.Grammar.Balance
import Advplc.Proofs.Grammar.Interpolation
import Advplc.Proofs.Templates
import Advplc.Proofs.Token.Coverage
import Advplc.Proofs.File.Tree
import Advplc.Proofs.File.Output
import Advplc.Proofs.File.Directory
import Advplc.Proofs.Lines
import Advplc.Proofs.Token.Continued
import Advplc.Proofs.Quotient
import Advplc.Proofs.Nesting
import Advplc.Proofs.Grammar.Items
import Advplc.Proofs.Positions
import Advplc.Proofs.Text.Blanks
import Advplc.Proofs.Reports
import Advplc.Proofs.Token.Longest
import Advplc.Proofs.Lowering.Comment
import Advplc.Proofs.Target.Concatenation
import Advplc.Proofs.Lowering.Closed
import Advplc.Proofs.Concatenation
import Advplc.Proofs.Text.Numeral
import Advplc.Proofs.Target.Arithmetic
import Advplc.Proofs.Folding
import Advplc.Proofs.Grammar.Progress
