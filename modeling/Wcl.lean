import Wcl.Bindings
import Wcl.Cli.Options
import Wcl.Cli.Run
import Wcl.Command
import Wcl.Document.Basic
import Wcl.Document.Json
import Wcl.Document.Path
import Wcl.Document.Search
import Wcl.Document.Update
import Wcl.Document.Writer
import Wcl.Document.Yaml
import Wcl.Document.Yaml.Scalar
import Wcl.Document.Yaml.Typed
import Wcl.Environment
import Wcl.Error
import Wcl.Files
import Wcl.Host
import Wcl.Main
import Wcl.Markup.Reader
import Wcl.Markup.Sections
import Wcl.Markup.Source
import Wcl.Markup.Statement
import Wcl.Proofs.Document.Layers
import Wcl.Proofs.Document.Merge
import Wcl.Proofs.Document.Operations
import Wcl.Proofs.Document.Overlay
import Wcl.Proofs.Document.Paths
import Wcl.Proofs.Document.Scalars
import Wcl.Proofs.Document.Successive
import Wcl.Proofs.Markup.Access
import Wcl.Proofs.Markup.Body
import Wcl.Proofs.Markup.Grammar
import Wcl.Proofs.Markup.Include
import Wcl.Proofs.Markup.Parts
import Wcl.Proofs.Markup.Reachable
import Wcl.Proofs.Markup.Rewrite
import Wcl.Proofs.Markup.RoundTrip
import Wcl.Proofs.Markup.Run
import Wcl.Proofs.Markup.Written
import Wcl.Proofs.Template.Combinations
import Wcl.Proofs.Template.Evaluation
import Wcl.Proofs.Template.Expansion
import Wcl.Proofs.Template.LoopTemplate
import Wcl.Proofs.Template.References
import Wcl.Proofs.Template.Spelling
import Wcl.Proofs.Template.Stages
import Wcl.Proofs.Template.Substitution
import Wcl.Proofs.Template.ValueList
import Wcl.Proofs.Text.LowerCase
import Wcl.Proofs.Text.Scan
import Wcl.Registry
import Wcl.Template.Context
import Wcl.Template.Loop
import Wcl.Template.Resolve
import Wcl.Template.Token
import Wcl.Template.Values
import Wcl.Template.Variables
import Wcl.Text.Basic
import Wcl.Text.Decimal
import Wcl.Text.Digit
import Wcl.Text.LowerCase
import Wcl.Text.LowerCase.Table
import Wcl.Text.Quoted
import Wcl.Text.Quoted.Table
import Wcl.Text.Ranges
import Wcl.Traced
import Wcl.Proofs.Template.Circles
import Wcl.Proofs.Template.Confluence
import Wcl.Proofs.Markup.Case
import Wcl.Proofs.Markup.NestedFiles
import Wcl.Proofs.Markup.Sorted
import Wcl.Proofs.Command.CommandLine
import Wcl.Proofs.Template.VariableScan
import Wcl.Proofs.Template.LoopBudget
import Wcl.Proofs.Template.ActiveNames
import Wcl.Proofs.Template.Padding
import Wcl.Proofs.Document.Setting
import Wcl.Proofs.Markup.Continued
import Wcl.Proofs.Markup.Trailing
import Wcl.Proofs.Template.Recorded
import Wcl.Proofs.Template.ZeroPadding
import Wcl.Proofs.Template.Counts
import Wcl.Proofs.Markup.IncludePath
import Wcl.Proofs.Markup.Selection
