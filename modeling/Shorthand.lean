import Shorthand.Command
import Shorthand.Command.Given
import Shorthand.Command.Outcome
import Shorthand.Command.Run
import Shorthand.Diagnostic
import Shorthand.Document
import Shorthand.Document.Decode
import Shorthand.Document.Fault
import Shorthand.Document.Format
import Shorthand.Document.Load
import Shorthand.Expansion.Render
import Shorthand.Expansion.Session
import Shorthand.Expansion.Source
import Shorthand.Expansion.State
import Shorthand.Expansion.Unroll
import Shorthand.Expansion.Watched
import Shorthand.Hindrance
import Shorthand.Json.Number
import Shorthand.Json.Reader
import Shorthand.Json.Token
import Shorthand.Json.Writer
import Shorthand.Lint
import Shorthand.Log
import Shorthand.Main
import Shorthand.Moment
import Shorthand.Node
import Shorthand.Node.Record
import Shorthand.Number.Binary64
import Shorthand.Number.Digits
import Shorthand.Number.Padded
import Shorthand.Number.Shortest
import Shorthand.Number.Spelled
import Shorthand.Position
import Shorthand.Proofs.Command.Agreement
import Shorthand.Proofs.Command.InForce
import Shorthand.Proofs.Command.Troubles
import Shorthand.Proofs.Command.Verdict
import Shorthand.Proofs.Diagnostic.Order
import Shorthand.Proofs.Document.Below
import Shorthand.Proofs.Document.ByField
import Shorthand.Proofs.Document.Checked
import Shorthand.Proofs.Document.Counts
import Shorthand.Proofs.Document.Declared
import Shorthand.Proofs.Document.Faults
import Shorthand.Proofs.Document.Grammar
import Shorthand.Proofs.Document.Hindered
import Shorthand.Proofs.Document.Keys
import Shorthand.Proofs.Document.Located
import Shorthand.Proofs.Document.Reports
import Shorthand.Proofs.Document.Spelling
import Shorthand.Proofs.Expansion.Acts
import Shorthand.Proofs.Expansion.Adequate
import Shorthand.Proofs.Expansion.Around
import Shorthand.Proofs.Expansion.Attempt
import Shorthand.Proofs.Expansion.Balance
import Shorthand.Proofs.Expansion.Builds
import Shorthand.Proofs.Expansion.Delimited
import Shorthand.Proofs.Expansion.Displayed
import Shorthand.Proofs.Expansion.Environment
import Shorthand.Proofs.Expansion.FixedPoint
import Shorthand.Proofs.Expansion.InRange
import Shorthand.Proofs.Expansion.Numbering
import Shorthand.Proofs.Expansion.Postorder
import Shorthand.Proofs.Expansion.Regrouping
import Shorthand.Proofs.Expansion.Rendered
import Shorthand.Proofs.Expansion.Run
import Shorthand.Proofs.Expansion.SameText
import Shorthand.Proofs.Expansion.Siblings
import Shorthand.Proofs.Expansion.Text
import Shorthand.Proofs.Expansion.Threaded
import Shorthand.Proofs.Expansion.Totals
import Shorthand.Proofs.Expansion.Watched
import Shorthand.Proofs.Insertion.Address
import Shorthand.Proofs.Insertion.Announced
import Shorthand.Proofs.Insertion.Deepest
import Shorthand.Proofs.Insertion.FirstMark
import Shorthand.Proofs.Insertion.Insertions
import Shorthand.Proofs.Insertion.Marks
import Shorthand.Proofs.Insertion.Moments
import Shorthand.Proofs.Insertion.Place
import Shorthand.Proofs.Insertion.Receipt
import Shorthand.Proofs.Insertion.Values
import Shorthand.Proofs.Lint.Delimiters
import Shorthand.Proofs.Lint.Distinct
import Shorthand.Proofs.Lint.Findings
import Shorthand.Proofs.Lint.LaterImplicit
import Shorthand.Proofs.Lint.Positions
import Shorthand.Proofs.Lint.Variables
import Shorthand.Proofs.Node.Formed
import Shorthand.Proofs.Node.Recorded
import Shorthand.Proofs.Number.Padded
import Shorthand.Proofs.Position.Reading
import Shorthand.Proofs.Position.Region
import Shorthand.Proofs.Settings.Assignments
import Shorthand.Proofs.Settings.Override
import Shorthand.Proofs.Settings.Spelled
import Shorthand.Proofs.Show.Escaped
import Shorthand.Proofs.Show.Label
import Shorthand.Proofs.Show.Part
import Shorthand.Proofs.Show.Pieces
import Shorthand.Proofs.Show.Quoted
import Shorthand.Proofs.Statement.Preorder
import Shorthand.Proofs.Statement.Walk
import Shorthand.Settings
import Shorthand.Settings.Load
import Shorthand.Show.Drawing
import Shorthand.Show.Label
import Shorthand.Show.Markup
import Shorthand.Statement
import Shorthand.Statement.Walk
import Shorthand.Store
import Shorthand.Store.Path
import Shorthand.Text.Base64
import Shorthand.Text.Blank
import Shorthand.Text.Digit
import Shorthand.Text.Escapes
import Shorthand.Text.Lines
import Shorthand.Text.Printable
import Shorthand.Text.Quoted
import Shorthand.Text.Width
import Shorthand.Token
import Shorthand.Value
import Shorthand.Yaml.Block
import Shorthand.Yaml.Built
import Shorthand.Yaml.Cursor
import Shorthand.Yaml.Implicit
import Shorthand.Yaml.Layout
import Shorthand.Yaml.Mark
import Shorthand.Yaml.Meaning
import Shorthand.Yaml.Node
import Shorthand.Yaml.Plain
import Shorthand.Yaml.Quoted
import Shorthand.Yaml.Reader
import Shorthand.Yaml.Scalar
import Shorthand.Yaml.Token
import Shorthand.Yaml.Writer
