import Regen.Command.Arguments
import Regen.Command.Basic
import Regen.Command.Cleanup
import Regen.Command.Init
import Regen.Command.Lock
import Regen.Command.Message
import Regen.Command.Plan
import Regen.Command.Run
import Regen.Command.Shared
import Regen.Command.Status
import Regen.Console.Action.Escape
import Regen.Console.Action.Fault
import Regen.Console.Action.Formatted
import Regen.Console.Action.Grammar
import Regen.Console.Action.Parameters
import Regen.Console.Action.Phrase
import Regen.Console.Action.Reader
import Regen.Console.Action.Token
import Regen.Console.Boxes
import Regen.Console.Color
import Regen.Console.Lines
import Regen.Console.Markup
import Regen.Console.Style
import Regen.Disk.Disk
import Regen.Disk.Path
import Regen.Failure
import Regen.Fault
import Regen.Graph.Basic
import Regen.Graph.Dependents
import Regen.Graph.Order
import Regen.Hash.Sha256
import Regen.Host
import Regen.Ledger
import Regen.Lockfile.Age
import Regen.Lockfile.Basic
import Regen.Lockfile.Document
import Regen.Lockfile.Plan
import Regen.Lockfile.Store
import Regen.Main
import Regen.Number.Binary64
import Regen.Number.Decimal
import Regen.Number.Limit
import Regen.Number.Read
import Regen.Number.Round
import Regen.Proofs.Command.Basic
import Regen.Proofs.Command.Cleaned
import Regen.Proofs.Command.Covered
import Regen.Proofs.Command.Failing
import Regen.Proofs.Command.History
import Regen.Proofs.Command.Keeps
import Regen.Proofs.Command.Kept
import Regen.Proofs.Command.Left
import Regen.Proofs.Command.Listed
import Regen.Proofs.Command.Opened
import Regen.Proofs.Command.Plan
import Regen.Proofs.Command.Printed
import Regen.Proofs.Command.Reports
import Regen.Proofs.Command.Succession
import Regen.Proofs.Command.Swept
import Regen.Proofs.Command.Times
import Regen.Proofs.Command.Unreachable
import Regen.Proofs.Command.UpToDate
import Regen.Proofs.Command.Update
import Regen.Proofs.Command.Updated
import Regen.Proofs.Command.Work
import Regen.Proofs.Console.Panels
import Regen.Proofs.Console.Shown
import Regen.Proofs.Disk.Apart
import Regen.Proofs.Disk.Around
import Regen.Proofs.Disk.Below
import Regen.Proofs.Disk.Changes
import Regen.Proofs.Disk.Folders
import Regen.Proofs.Disk.PathText
import Regen.Proofs.Disk.Plain
import Regen.Proofs.Disk.Rooted
import Regen.Proofs.Disk.Ways
import Regen.Proofs.Graph.Construction
import Regen.Proofs.Graph.Dependents
import Regen.Proofs.Graph.Order
import Regen.Proofs.Graph.Positions
import Regen.Proofs.Graph.Representation
import Regen.Proofs.Graph.Search
import Regen.Proofs.Graph.Subset
import Regen.Proofs.Hash.Pieces
import Regen.Proofs.Ledger
import Regen.Proofs.Lockfile.Age
import Regen.Proofs.Lockfile.AllOrNothing
import Regen.Proofs.Lockfile.Canonical
import Regen.Proofs.Lockfile.Classified
import Regen.Proofs.Lockfile.Document
import Regen.Proofs.Lockfile.Forced
import Regen.Proofs.Lockfile.Healthy
import Regen.Proofs.Lockfile.Holds
import Regen.Proofs.Lockfile.Legible
import Regen.Proofs.Lockfile.Load
import Regen.Proofs.Lockfile.Planned
import Regen.Proofs.Lockfile.Rearranged
import Regen.Proofs.Lockfile.Rejected
import Regen.Proofs.Lockfile.Rewritten
import Regen.Proofs.Lockfile.RoundTrip
import Regen.Proofs.Lockfile.Same
import Regen.Proofs.Lockfile.SameBytes
import Regen.Proofs.Lockfile.Save
import Regen.Proofs.Lockfile.Session
import Regen.Proofs.Lockfile.Sweep
import Regen.Proofs.Number.Digits
import Regen.Proofs.Number.Printed
import Regen.Proofs.Number.Quotient
import Regen.Proofs.Number.Shortest
import Regen.Proofs.Outcome
import Regen.Proofs.Settings.Accepted
import Regen.Proofs.Settings.Explained
import Regen.Proofs.Settings.Layers
import Regen.Proofs.Settings.Project
import Regen.Proofs.Settings.Sources
import Regen.Proofs.Settings.Unreadable
import Regen.Proofs.Source.Asked
import Regen.Proofs.Source.Checksum
import Regen.Proofs.Source.Credentials
import Regen.Proofs.Source.Exact
import Regen.Proofs.Source.Masked
import Regen.Proofs.Source.Owner
import Regen.Proofs.Source.Remote
import Regen.Proofs.Source.Resolution
import Regen.Proofs.Text.Newline
import Regen.Proofs.Text.Order
import Regen.Proofs.Text.Utf8
import Regen.Proofs.Time.Calendar
import Regen.Proofs.Time.Iso
import Regen.Proofs.Time.Read
import Regen.Proofs.Time.Shown
import Regen.Proofs.Time.Span
import Regen.Proofs.Value.Alike
import Regen.Proofs.Value.Data
import Regen.Proofs.Value.Equal
import Regen.Proofs.Value.Faults
import Regen.Proofs.Value.Keys
import Regen.Proofs.Value.Merge
import Regen.Proofs.Value.Plain
import Regen.Proofs.Value.Shown
import Regen.Proofs.Yaml.Built
import Regen.Proofs.Yaml.Cursor
import Regen.Proofs.Yaml.Escaped
import Regen.Proofs.Yaml.Faults
import Regen.Proofs.Yaml.Keys
import Regen.Proofs.Yaml.Legible
import Regen.Proofs.Yaml.Lexed
import Regen.Proofs.Yaml.Nodes
import Regen.Proofs.Yaml.Numerals
import Regen.Proofs.Yaml.Pen
import Regen.Proofs.Yaml.Plain
import Regen.Proofs.Yaml.Quoted
import Regen.Proofs.Yaml.ReadBack
import Regen.Proofs.Yaml.Rounds
import Regen.Proofs.Yaml.Sharing
import Regen.Proofs.Yaml.Spelled
import Regen.Proofs.Yaml.Tokens
import Regen.Settings.Basic
import Regen.Settings.Check
import Regen.Settings.Load
import Regen.Settings.Read
import Regen.Settings.Url
import Regen.Sort
import Regen.Source.Credentials
import Regen.Source.Fingerprint
import Regen.Source.Record
import Regen.Text.Base64
import Regen.Text.Blank
import Regen.Text.Cased
import Regen.Text.Digit
import Regen.Text.Lines
import Regen.Text.Lower
import Regen.Text.Name
import Regen.Text.Order
import Regen.Text.Printable
import Regen.Text.Quoted
import Regen.Text.Range
import Regen.Text.Surrogate
import Regen.Text.Utf8
import Regen.Text.Width
import Regen.Text.Word
import Regen.Time.Calendar
import Regen.Time.Iso
import Regen.Time.Moment
import Regen.Value.Basic
import Regen.Value.Convert
import Regen.Value.Shown
import Regen.Yaml.Build
import Regen.Yaml.Cursor
import Regen.Yaml.File
import Regen.Yaml.Lexer
import Regen.Yaml.Node
import Regen.Yaml.Pen
import Regen.Yaml.ScalarText
import Regen.Yaml.ScalarValue
import Regen.Yaml.Spelling
import Regen.Yaml.Tag
import Regen.Yaml.Token
import Regen.Yaml.Writer
