import Timeline.Main
import Timeline.Proofs.Catalog
import Timeline.Proofs.Collection
import Timeline.Proofs.Command
import Timeline.Proofs.Css.Barrier
import Timeline.Proofs.Css.Comment
import Timeline.Proofs.Css.Cutting
import Timeline.Proofs.Css.Drain
import Timeline.Proofs.Css.Excerpt
import Timeline.Proofs.Css.Joined
import Timeline.Proofs.Css.Kinds
import Timeline.Proofs.Css.Locality
import Timeline.Proofs.Css.Nesting
import Timeline.Proofs.Css.Pieces
import Timeline.Proofs.Css.Places
import Timeline.Proofs.Css.Shift
import Timeline.Proofs.Css.Source
import Timeline.Proofs.Css.Words
import Timeline.Proofs.Decoding
import Timeline.Proofs.Extension
import Timeline.Proofs.Json.Layouts
import Timeline.Proofs.Json.Numbers
import Timeline.Proofs.Json.Numerals
import Timeline.Proofs.Json.Reader
import Timeline.Proofs.Json.Strings
import Timeline.Proofs.Number.Cursor
import Timeline.Proofs.Number.Interval
import Timeline.Proofs.Number.Longest
import Timeline.Proofs.Number.Rounding
import Timeline.Proofs.Number.Shortest
import Timeline.Proofs.Number.Value
import Timeline.Proofs.Number.Written
import Timeline.Proofs.Offset
import Timeline.Proofs.Pipeline
import Timeline.Proofs.Properties
import Timeline.Proofs.Session
import Timeline.Proofs.Sheet.Acceptance
import Timeline.Proofs.Sheet.Concatenation
import Timeline.Proofs.Sheet.Excerpts
import Timeline.Proofs.Sheet.Faults
import Timeline.Proofs.Sheet.Grammar
import Timeline.Proofs.Sheet.Keywords
import Timeline.Proofs.Sheet.Printer
import Timeline.Proofs.Sheet.Reads
import Timeline.Proofs.Sheet.RoundTrip
import Timeline.Proofs.Sheet.Shift
import Timeline.Proofs.Sheet.Soundness
import Timeline.Proofs.Storage
import Timeline.Proofs.Text.Digits
import Timeline.Proofs.Text.Trimming
import Timeline.Proofs.Journal.Replay
import Timeline.Proofs.Path
import Timeline.Proofs.Sheet.Spans
import Timeline.Proofs.Sheet.Segments
import Timeline.Proofs.Verbosity
import Timeline.Proofs.Cursor.Basic
import Timeline.Proofs.Cursor.Sheet
import Timeline.Proofs.Cursor.Passing
import Timeline.Proofs.Cursor.Values
import Timeline.Proofs.Cursor.Comments
import Timeline.Proofs.Cursor.Reading
import Timeline.Proofs.Cursor.Readers
import Timeline.Proofs.Cursor.Progress
import Timeline.Proofs.Cursor.Cuts
import Timeline.Proofs.Account
