import Preflight.Agents.Batch
import Preflight.Agents.Schema
import Preflight.Command.Invocation
import Preflight.Command.Words
import Preflight.CommandLine.Arguments
import Preflight.CommandLine.Lookups
import Preflight.CommandLine.Run
import Preflight.Config.Basic
import Preflight.Config.Printer
import Preflight.Config.Reader
import Preflight.Diagnostic.Basic
import Preflight.Diagnostic.Json
import Preflight.Diagnostic.Outcome
import Preflight.FileTree.Lookup
import Preflight.FileTree.Node
import Preflight.Header.Document
import Preflight.Header.Field
import Preflight.Header.InlineList
import Preflight.Header.Line
import Preflight.Header.Printer
import Preflight.Header.Quoted
import Preflight.Hooks.Action
import Preflight.Hooks.Matcher
import Preflight.Hooks.Settings
import Preflight.Hooks.Source
import Preflight.Hooks.Timeout
import Preflight.Json.Literal
import Preflight.Json.Printer
import Preflight.Json.Reader
import Preflight.Json.Value
import Preflight.Log.Basic
import Preflight.Log.Records
import Preflight.Main
import Preflight.Manifest.Basic
import Preflight.Manifest.CrossCheck
import Preflight.Manifest.Inventory
import Preflight.Number.Binary64
import Preflight.Number.Power
import Preflight.Number.Shortest
import Preflight.Path.Basic
import Preflight.Path.Placeholder
import Preflight.Path.Resolver
import Preflight.Proofs.Text.LineFeeds
import Preflight.Proofs.Text.Replacement
import Preflight.Proofs.Text.Trimming
import Preflight.Report.Basic
import Preflight.Report.Json
import Preflight.Report.Render
import Preflight.RunError
import Preflight.Table
import Preflight.Terminal
import Preflight.Text.Ascii
import Preflight.Text.Blank
import Preflight.Text.Compact
import Preflight.Text.Hex
import Preflight.Text.Lines
import Preflight.Text.Substring
import Preflight.Toml.DateTime
import Preflight.Toml.Document
import Preflight.Toml.Draft
import Preflight.Toml.Layout
import Preflight.Toml.Printer
import Preflight.Toml.Quoted
import Preflight.Toml.Reader
import Preflight.Toml.Scalar
import Preflight.Toml.Value
import Preflight.Proofs.Header.Quoting
import Preflight.Proofs.Header.LineClasses
import Preflight.Proofs.Header.ValueShapes
import Preflight.Proofs.Bindings
import Preflight.Proofs.Header.LastKeyLine
import Preflight.Proofs.Header.Reading
import Preflight.Proofs.Header.RoundTrip
import Preflight.Proofs.Diagnostic.Errors
import Preflight.Proofs.Hooks.Acceptance
import Preflight.Proofs.Diagnostic.Places
import Preflight.Proofs.Hooks.Isolation
import Preflight.Proofs.FileTree.Names
import Preflight.Proofs.Manifest.Scanning
import Preflight.Proofs.Manifest.EntryKeys
import Preflight.Proofs.Manifest.Remarks
import Preflight.Proofs.Manifest.PerfectManifest
import Preflight.Proofs.Manifest.Repetitions
import Preflight.Proofs.Manifest.AcceptedEntries
import Preflight.Proofs.Agents.Labels
import Preflight.Proofs.FileTree.Texts
import Preflight.Proofs.Agents.Batches
import Preflight.Proofs.CommandLine.Lines
import Preflight.Proofs.CommandLine.Warnings
import Preflight.Proofs.CommandLine.Verdict
import Preflight.Proofs.Report.Joins
import Preflight.Proofs.CommandLine.Options
import Preflight.Proofs.CommandLine.Composition
import Preflight.Proofs.Command.OnePass
import Preflight.Proofs.Command.Quoting
import Preflight.Proofs.Hooks.Locations
import Preflight.Proofs.Diagnostic.Blocks
import Preflight.Proofs.Report.Headings
import Preflight.Proofs.CommandLine.Sections
import Preflight.Proofs.CommandLine.Headings
import Preflight.Proofs.Report.Advice
import Preflight.Proofs.Hooks.Complaints
import Preflight.Proofs.Agents.Complaints
import Preflight.Proofs.FileTree.Reading
import Preflight.Proofs.CommandLine.Advice
import Preflight.Proofs.Text.Digits
import Preflight.Proofs.Path.Expansion
import Preflight.Proofs.Path.Resolving
import Preflight.Proofs.Json.RoundTrip
import Preflight.Proofs.Report.Lossless
import Preflight.Proofs.Toml.Strings
import Preflight.Proofs.Toml.Values
import Preflight.Proofs.Toml.Document
import Preflight.Proofs.Failing
import Preflight.Proofs.Config.KnownFields
import Preflight.Proofs.Config.RoundTrip
import Preflight.Proofs.Config.Overriding
import Preflight.Proofs.Path.Climbing
import Preflight.Proofs.FileTree.CleanedPaths
import Preflight.Proofs.Path.Pieces
import Preflight.Proofs.Hooks.Timeouts
import Preflight.Proofs.Hooks.Matchers
import Preflight.Proofs.Header.Cutting
import Preflight.Proofs.Header.LineEndings
import Preflight.Proofs.Header.InlinePieces
import Preflight.Proofs.Header.ListSpellings
import Preflight.Proofs.Header.InlineLists
import Preflight.Proofs.Agents.SchemaRules
import Preflight.Proofs.Agents.SchemaErrors
import Preflight.Proofs.Manifest.EntryOrder
import Preflight.Proofs.Text.OneLine
import Preflight.Proofs.Diagnostic.Shown
import Preflight.Proofs.Report.OneLine
import Preflight.Proofs.CommandLine.ShownTexts
import Preflight.Proofs.CommandLine.OneLine
import Preflight.Proofs.Command.Assignments
import Preflight.Proofs.Header.Unescaping
import Preflight.Proofs.Report.ScopeRuns
import Preflight.Proofs.Header.ReadableFields
import Preflight.Proofs.Text.Spacing
