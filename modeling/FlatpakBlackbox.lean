import FlatpakBlackbox.Basic.Dict
import FlatpakBlackbox.Basic.Checked
import FlatpakBlackbox.Basic.Text
import FlatpakBlackbox.Errors
import FlatpakBlackbox.Json.Value
import FlatpakBlackbox.Json.Typed
import FlatpakBlackbox.Schema.Fixture
import FlatpakBlackbox.Schema.Catalogue
import FlatpakBlackbox.Schema.Report
import FlatpakBlackbox.Coverage.Suite
import FlatpakBlackbox.Coverage.Model
import FlatpakBlackbox.Coverage.Entries
import FlatpakBlackbox.Coverage.Verification
import FlatpakBlackbox.Coverage.Metric
import FlatpakBlackbox.Coverage.Credit
import FlatpakBlackbox.Coverage.Summary
import FlatpakBlackbox.Coverage.Accounting
import FlatpakBlackbox.Coverage.Reports
import FlatpakBlackbox.Coverage.Options
import FlatpakBlackbox.Coverage.Demotion
import FlatpakBlackbox.Coverage.Order
import FlatpakBlackbox.Basic.Best
import FlatpakBlackbox.Basic.Effects
import FlatpakBlackbox.Web.Comparison
import FlatpakBlackbox.Basic.Lines
import FlatpakBlackbox.Basic.Overlay
import FlatpakBlackbox.Basic.PurePath
import FlatpakBlackbox.Namespace.Mounts
import FlatpakBlackbox.Namespace.Visible
import FlatpakBlackbox.Runner.Process
import FlatpakBlackbox.Runner.Trace
import FlatpakBlackbox.Basic.Agree
import FlatpakBlackbox.Basic.Reorder
import FlatpakBlackbox.Basic.Steps
import FlatpakBlackbox.Coverage.Includes
import FlatpakBlackbox.Coverage.Layout
import FlatpakBlackbox.Coverage.Redistribution
import FlatpakBlackbox.SystemHelper.Machine
import FlatpakBlackbox.SystemHelper.Recorded
import FlatpakBlackbox.SystemHelper.Retry
import FlatpakBlackbox.Json.Judgement
import FlatpakBlackbox.Json.Decoder
import FlatpakBlackbox.Schema.Groups
import FlatpakBlackbox.Schema.Lossless
import FlatpakBlackbox.Schema.Reparse
import FlatpakBlackbox.Web.Diagnostics
import FlatpakBlackbox.Basic.Regex
import FlatpakBlackbox.Basic.Words
import FlatpakBlackbox.Console.SafeText
import FlatpakBlackbox.Console.Summary
import FlatpakBlackbox.Runner.Remotes
import FlatpakBlackbox.Basic.Entities
import FlatpakBlackbox.Basic.Fuel
import FlatpakBlackbox.Basic.Script
import FlatpakBlackbox.Catalogue.Comments
import FlatpakBlackbox.Catalogue.Nesting
import FlatpakBlackbox.Catalogue.Sources
import FlatpakBlackbox.Catalogue.Tables
import FlatpakBlackbox.Console.Markdown
import FlatpakBlackbox.Coverage.Invocation
import FlatpakBlackbox.Manual.ClosedForm
import FlatpakBlackbox.Manual.Expansion
import FlatpakBlackbox.Basic.Outline
import FlatpakBlackbox.Manual.Meaning
import FlatpakBlackbox.Manual.Runs
import FlatpakBlackbox.Manual.Substitution
import FlatpakBlackbox.Manual.Termination
import FlatpakBlackbox.Manual.Faithful
import FlatpakBlackbox.Runner.Artifacts
import FlatpakBlackbox.Scenario.Client
import FlatpakBlackbox.Scenario.Contracts
import FlatpakBlackbox.Scenario.Transactions
import FlatpakBlackbox.Basic.Compare
import FlatpakBlackbox.Basic.Framing
import FlatpakBlackbox.Catalogue.Uncomment
import FlatpakBlackbox.Scenario.Fetching
import FlatpakBlackbox.Scenario.Wayland
import FlatpakBlackbox.Web.Budget
import FlatpakBlackbox.Web.Charts
import FlatpakBlackbox.Web.Inventory
import FlatpakBlackbox.Web.Ranking
import FlatpakBlackbox.Web.RunHealth
import FlatpakBlackbox.Basic.Update
import FlatpakBlackbox.Runner.Block
import FlatpakBlackbox.Runner.Exit
import FlatpakBlackbox.Runner.Guarantees
import FlatpakBlackbox.Catalogue.Loads
