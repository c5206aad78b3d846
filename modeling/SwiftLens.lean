import SwiftLens.Action
import SwiftLens.Backend
import SwiftLens.Calendar
import SwiftLens.Command.Options
import SwiftLens.Command.Run
import SwiftLens.Entries
import SwiftLens.Fault
import SwiftLens.Helper.Ask
import SwiftLens.Helper.Attached
import SwiftLens.Helper.Channel
import SwiftLens.Helper.Launch
import SwiftLens.Helper.Lines
import SwiftLens.Helper.Link
import SwiftLens.Helper.Reply
import SwiftLens.Helper.Timer
import SwiftLens.Inspection
import SwiftLens.Journal
import SwiftLens.Json.Basic
import SwiftLens.Json.Reader
import SwiftLens.Json.Writer
import SwiftLens.Labelling
import SwiftLens.Machine.FileTree
import SwiftLens.Main
import SwiftLens.NameCache
import SwiftLens.Number.Arithmetic
import SwiftLens.Number.Double
import SwiftLens.Number.Layout
import SwiftLens.Number.Shortest
import SwiftLens.Path
import SwiftLens.Request
import SwiftLens.Settings
import SwiftLens.Source
import SwiftLens.SourceReader
import SwiftLens.SystemError
import SwiftLens.Text
import SwiftLens.Text.Base64
import SwiftLens.Text.Blank
import SwiftLens.Text.Literal
import SwiftLens.Text.Stream
import SwiftLens.Text.Utf8
import SwiftLens.Text.Words
import SwiftLens.Token.Basic
import SwiftLens.Token.Documented
import SwiftLens.Token.Named
import SwiftLens.Tree.Document
import SwiftLens.Tree.Location
import SwiftLens.Tree.Value
import SwiftLens.Tree.Vocabulary
import SwiftLens.Tree.Wire
import SwiftLens.Proofs.Link.Dialogue
import SwiftLens.Proofs.Link.Settling
import SwiftLens.Proofs.Link.Stations
import SwiftLens.Proofs.Link.Telling
import SwiftLens.Proofs.Link.Outcome
import SwiftLens.Proofs.Link.Table
import SwiftLens.Proofs.Text.Base64
import SwiftLens.Proofs.Text.Decimal
import SwiftLens.Proofs.Text.Utf8
import SwiftLens.Proofs.Text.LineFeeds
import SwiftLens.Proofs.Token.Documented
import SwiftLens.Proofs.Tree.WireRoundTrip
import SwiftLens.Proofs.Tree.WireGrammar
import SwiftLens.Proofs.Tree.WireRecognition
import SwiftLens.Proofs.Json.Strings
import SwiftLens.Proofs.Json.Values
import SwiftLens.Proofs.Json.Numerals
import SwiftLens.Proofs.Number.Rounding
import SwiftLens.Proofs.Number.Shortest
import SwiftLens.Proofs.Number.ReadBack
import SwiftLens.Proofs.Tree.DocumentReadBack
import SwiftLens.Proofs.Labelling.Renaming
import SwiftLens.Proofs.Labelling.Unnamed
import SwiftLens.Proofs.Labelling.Discipline
import SwiftLens.Proofs.Inspection.Recording
import SwiftLens.Proofs.Inspection.Transparency
import SwiftLens.Proofs.Inspection.Discipline
import SwiftLens.Proofs.Link.Lifecycle
import SwiftLens.Proofs.Inspection.Session
import SwiftLens.Proofs.Labelling.Interruption
import SwiftLens.Proofs.Labelling.Queries
import SwiftLens.Proofs.Link.Faults
import SwiftLens.Proofs.Json.Compact
import SwiftLens.Proofs.Link.Lines
import SwiftLens.Proofs.Number.Whole
import SwiftLens.Proofs.Inspection.Requests
import SwiftLens.Proofs.Link.Attached
import SwiftLens.Proofs.Inspection.OnTheWire
import SwiftLens.Proofs.Inspection.DocumentedOffsets
import SwiftLens.Proofs.Tree.DistinctKeys
import SwiftLens.Proofs.Link.Trail
import SwiftLens.Proofs.Command.Contract
import SwiftLens.Proofs.Token.Reading
import SwiftLens.Proofs.Inspection.IdentifierTokens
import SwiftLens.Proofs.Token.DocumentedLines
import SwiftLens.Proofs.Tree.WireCanonical
import SwiftLens.Proofs.Tree.WirePayload
import SwiftLens.Proofs.Source.Ranges
import SwiftLens.Proofs.Labelling.Merging
import SwiftLens.Proofs.Tree.Paths
import SwiftLens.Proofs.Tree.DocumentRefusal
import SwiftLens.Proofs.Json.Layout
import SwiftLens.Proofs.Tree.DocumentLayout
import SwiftLens.Proofs.Names.History
import SwiftLens.Proofs.Labelling.Rounds
import SwiftLens.Proofs.Labelling.Declarations
import SwiftLens.Proofs.Command.Composition
import SwiftLens.Proofs.Command.Timeout
import SwiftLens.Proofs.Text.Words
import SwiftLens.Proofs.Journal.Contents
import SwiftLens.Proofs.Calendar.Days
import SwiftLens.Proofs.Calendar.Stamps
import SwiftLens.Proofs.Journal.Files
