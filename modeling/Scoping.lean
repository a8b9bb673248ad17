import Scoping.Command.Log
import Scoping.Main
import Scoping.Proofs.Analysis.Block
import Scoping.Proofs.Analysis.Chain
import Scoping.Proofs.Analysis.Error
import Scoping.Proofs.Analysis.Highlight
import Scoping.Proofs.Analysis.Innermost
import Scoping.Proofs.Analysis.Lexical
import Scoping.Proofs.Analysis.Lookup
import Scoping.Proofs.Analysis.Placement
import Scoping.Proofs.Analysis.Property
import Scoping.Proofs.Analysis.Report
import Scoping.Proofs.Analysis.Slash
import Scoping.Proofs.Build.Account
import Scoping.Proofs.Build.Balance
import Scoping.Proofs.Build.Depth
import Scoping.Proofs.Build.Limit
import Scoping.Proofs.Build.Matching
import Scoping.Proofs.Build.Reach
import Scoping.Proofs.Build.Regex
import Scoping.Proofs.Build.Rename
import Scoping.Proofs.Build.Table
import Scoping.Proofs.Command.Render
import Scoping.Proofs.Text.LineEnd
import Scoping.Proofs.Token.Cut
import Scoping.Proofs.Token.Delimiter
import Scoping.Proofs.Token.Layout
import Scoping.Proofs.Token.Lexeme
import Scoping.Proofs.Token.Limit
import Scoping.Proofs.Token.LineBreak
import Scoping.Proofs.Token.Substitution
