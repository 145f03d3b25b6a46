import SemanticMarkup.Text.Blank
import SemanticMarkup.Text.Word
import SemanticMarkup.Text.Quoted
import SemanticMarkup.Text.Digit
import SemanticMarkup.Text.Uppercase
import SemanticMarkup.Number.Directive
import SemanticMarkup.Calendar.Iso
import SemanticMarkup.Calendar.Epoch
import SemanticMarkup.Calendar.Pattern
import SemanticMarkup.Value.Access
import SemanticMarkup.Json.Reader
import SemanticMarkup.Json.Writer
import SemanticMarkup.Markup.Attributes
import SemanticMarkup.Markup.Container
import SemanticMarkup.ModelAccess
import SemanticMarkup.Reading
import SemanticMarkup.Settings.Loading
import SemanticMarkup.Settings.Logging
import SemanticMarkup.Format.Formatter
import SemanticMarkup.Record.Rendering
import SemanticMarkup.Entry.Rules
import SemanticMarkup.Entry.Parse
import SemanticMarkup.Card.Build
import SemanticMarkup.Session
import SemanticMarkup.Session.Operation
import SemanticMarkup.Value.Lookup
import SemanticMarkup.Proofs.Card.Built
import SemanticMarkup.Proofs.Record.Reads
import SemanticMarkup.Proofs.Card.Depth
import SemanticMarkup.Proofs.Card.Inlining
import SemanticMarkup.Proofs.Card.Invariant
import SemanticMarkup.Proofs.Card.Agreement
import SemanticMarkup.Proofs.Card.Hidden
import SemanticMarkup.Proofs.Markup.Classes
import SemanticMarkup.Proofs.Entry.Names
import SemanticMarkup.Proofs.Record.Options
import SemanticMarkup.Proofs.Record.Normal
import SemanticMarkup.Proofs.Card.Renormalization
import SemanticMarkup.Proofs.Markup.Escape
import SemanticMarkup.Proofs.Markup.Forest
import SemanticMarkup.Proofs.Model.Capitals
import SemanticMarkup.Proofs.Model.Humanize
import SemanticMarkup.Proofs.Model.Labels
import SemanticMarkup.Proofs.Model.Paths
import SemanticMarkup.Proofs.Entry.Written
import SemanticMarkup.Proofs.Entry.RoundTrip
import SemanticMarkup.Proofs.Entry.Grammar
import SemanticMarkup.Proofs.Record.Substitution
import SemanticMarkup.Proofs.Record.Spelling
import SemanticMarkup.Proofs.Record.Named
import SemanticMarkup.Proofs.Outline.Basic
import SemanticMarkup.Proofs.Outline.Card
import SemanticMarkup.Proofs.Outline.ReadBack
import SemanticMarkup.Proofs.Outline.Skeleton
import SemanticMarkup.Proofs.Session.Frame
import SemanticMarkup.Proofs.Session.Kept
import SemanticMarkup.Proofs.Session.Loads
import SemanticMarkup.Proofs.Card.Calls
import SemanticMarkup.Proofs.Session.Calls
import SemanticMarkup.Proofs.Settings.Valid
import SemanticMarkup.Proofs.Settings.Isolation
import SemanticMarkup.Proofs.Text.Ascii
import SemanticMarkup.Proofs.Text.Pieces
import SemanticMarkup.Proofs.Steps
import SemanticMarkup.Proofs.Json.Faults
import SemanticMarkup.Proofs.Document.Detection
import SemanticMarkup.Proofs.Yaml.Readers
import SemanticMarkup.Proofs.Yaml.Tokens
import SemanticMarkup.Proofs.Yaml.Nodes
import SemanticMarkup.Proofs.Yaml.Values
import SemanticMarkup.Proofs.Yaml.Plain
import SemanticMarkup.Proofs.Document.Faults
import SemanticMarkup.Proofs.Entry.Faults
import SemanticMarkup.Proofs.Entry.Report
import SemanticMarkup.Proofs.Record.Legible
import SemanticMarkup.Proofs.Card.Plain
import SemanticMarkup.Proofs.Card.Absence
import SemanticMarkup.Proofs.Card.Composition
import SemanticMarkup.Proofs.Card.WholeModel
import SemanticMarkup.Proofs.Format.Coordinates
import SemanticMarkup.Proofs.Format.Faults
import SemanticMarkup.Proofs.Number.Written
import SemanticMarkup.Proofs.Number.Exact
import SemanticMarkup.Proofs.Number.Printed
import SemanticMarkup.Proofs.Number.Spelling
import SemanticMarkup.Proofs.Number.Fixed
import SemanticMarkup.Proofs.Format.Numeric
import SemanticMarkup.Proofs.Format.Accepted
import SemanticMarkup.Proofs.Format.Components
import SemanticMarkup.Proofs.Format.Degrees
import SemanticMarkup.Proofs.Format.Grammar
import SemanticMarkup.Proofs.Format.Validation
import SemanticMarkup.Proofs.Format.Symmetry
import SemanticMarkup.Proofs.Format.Sexagesimal
import SemanticMarkup.Proofs.Format.Signs
import SemanticMarkup.Proofs.Settings.Sound
import SemanticMarkup.Proofs.Record.Layout
import SemanticMarkup.Proofs.Json.Strings
import SemanticMarkup.Proofs.Json.Data
import SemanticMarkup.Proofs.Json.RoundTrip
import SemanticMarkup.Proofs.Markup.Families
import SemanticMarkup.Proofs.Markup.AttributeReader
import SemanticMarkup.Proofs.Markup.ReadBack
import SemanticMarkup.Proofs.Markup.AddedClasses
import SemanticMarkup.Proofs.Settings.Problems
import SemanticMarkup.Proofs.Json.Inversion
import SemanticMarkup.Proofs.Json.Trailing
import SemanticMarkup.Proofs.Json.Visible
import SemanticMarkup.Proofs.Settings.Symbols
import SemanticMarkup.Proofs.Format.Moments
import SemanticMarkup.Proofs.Format.Links
import SemanticMarkup.Proofs.Format.Escaped
import SemanticMarkup.Proofs.Record.Configuration
import SemanticMarkup.Proofs.Card.ShortEntries
