import CodeAudit.Text.Basic
import CodeAudit.Text.Rune
import CodeAudit.Text.Blank
import CodeAudit.Text.Case
import CodeAudit.Text.Quoted
import CodeAudit.Pattern.Replace
import CodeAudit.Document
import CodeAudit.Score
import CodeAudit.Code.Expression
import CodeAudit.Rule.Basic
import CodeAudit.Rule.Catalog
import CodeAudit.Fix.Call
import CodeAudit.Fix.Secret
import CodeAudit.Fix.Query
import CodeAudit.Markup.Token
import CodeAudit.Markup.Page
import CodeAudit.Engine
import CodeAudit.Json.Reader
import CodeAudit.Json.Writer
import CodeAudit.Report.Json
import CodeAudit.Report.Comparison
import CodeAudit.Report.Sarif
import CodeAudit.Report.Text
import CodeAudit.Log
import CodeAudit.Duration
import CodeAudit.Settings.Reader
import CodeAudit.Service.Course
import CodeAudit.CommandLine
import CodeAudit.Main
import CodeAudit.Proofs.Except
import CodeAudit.Proofs.Catalog
import CodeAudit.Proofs.FindingOrder
import CodeAudit.Proofs.Text.Lines
import CodeAudit.Proofs.Text.Encoding
import CodeAudit.Proofs.Edit.Script
import CodeAudit.Proofs.Pattern.Search
import CodeAudit.Proofs.Remediation.Blocks
import CodeAudit.Proofs.Remediation.Parts
import CodeAudit.Proofs.Scan.Hits
import CodeAudit.Proofs.Scan.Ranges
import CodeAudit.Proofs.Scan.Overruns
import CodeAudit.Proofs.Scan.Independence
import CodeAudit.Proofs.Comparison.Sections
import CodeAudit.Proofs.Comparison.Chunks
import CodeAudit.Proofs.Live.Reports
import CodeAudit.Proofs.Live.Freshness
import CodeAudit.Proofs.Engine.Concatenation
import CodeAudit.Proofs.Live.Channels
import CodeAudit.Proofs.Scan.Guard
import CodeAudit.Proofs.History
import CodeAudit.Proofs.Service.Identifiers
import CodeAudit.Proofs.Service.Record
import CodeAudit.Proofs.Service.Comparison
import CodeAudit.Proofs.Live.Provenance
import CodeAudit.Proofs.Remediation.Order
import CodeAudit.Proofs.Live.Independence
import CodeAudit.Proofs.Fix.Notes
import CodeAudit.Proofs.Score
import CodeAudit.Proofs.Classifier
import CodeAudit.Proofs.CommandLine.Language
import CodeAudit.Proofs.Comparison.Bounds
import CodeAudit.Proofs.Summary
import CodeAudit.Proofs.Comparison.Places
import CodeAudit.Proofs.Comparison.Union
import CodeAudit.Proofs.Code.Literal
import CodeAudit.Proofs.Fix.Joining
import CodeAudit.Proofs.Json.Reader
import CodeAudit.Proofs.Json.Tokens
import CodeAudit.Proofs.Json.RoundTrip
import CodeAudit.Proofs.Report.Json
import CodeAudit.Proofs.Service.Limits
import CodeAudit.Proofs.Text.Runes
import CodeAudit.Proofs.Pattern.Piece
import CodeAudit.Proofs.Pattern.Completeness
import CodeAudit.Proofs.Pattern.Shape
import CodeAudit.Proofs.Pattern.Cut
import CodeAudit.Proofs.Pattern.Replacement
import CodeAudit.Proofs.Code.Escape
import CodeAudit.Proofs.Fix.Quoting
import CodeAudit.Proofs.Fix.OneLine
import CodeAudit.Proofs.Fix.Keys
import CodeAudit.Proofs.Code.Parts
import CodeAudit.Proofs.Fix.Redaction
import CodeAudit.Proofs.Pattern.Closed
import CodeAudit.Proofs.Fix.SensitiveLogging
import CodeAudit.Proofs.Pattern.Words
import CodeAudit.Proofs.Fix.Flip
import CodeAudit.Proofs.Fix.Settings
import CodeAudit.Proofs.Fix.Inversion
import CodeAudit.Proofs.Fix.Switches
import CodeAudit.Proofs.Catalog.Registration
import CodeAudit.Proofs.Report.Sarif
import CodeAudit.Proofs.History.Window
import CodeAudit.Proofs.History.Overtaking
import CodeAudit.Proofs.Remediation.Tiling
import CodeAudit.Proofs.Classifier.Choice
import CodeAudit.Proofs.Fix.Stitching
import CodeAudit.Proofs.Markup.Reading
import CodeAudit.Proofs.Markup.Steps
import CodeAudit.Proofs.Markup.Closed
import CodeAudit.Proofs.Markup.Locality
import CodeAudit.Proofs.Markup.Placement
import CodeAudit.Proofs.Markup.Hidden
import CodeAudit.Proofs.Fix.Policy
import CodeAudit.Proofs.Comparison.Correspondence
import CodeAudit.Proofs.Text.Trimming
import CodeAudit.Proofs.Code.Arguments
import CodeAudit.Proofs.Text.Validity
import CodeAudit.Proofs.Fix.FirstArgument
import CodeAudit.Proofs.Pattern.Runs
import CodeAudit.Proofs.Fix.EnvironmentName
