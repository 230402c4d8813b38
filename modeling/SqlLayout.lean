import SqlLayout.Main
import SqlLayout.Proofs.Dialect.Keywords
import SqlLayout.Proofs.Dialect.Standard
import SqlLayout.Proofs.Layout.CommentLines
import SqlLayout.Proofs.Layout.Compound
import SqlLayout.Proofs.Layout.Edit
import SqlLayout.Proofs.Layout.Fill
import SqlLayout.Proofs.Layout.Fused
import SqlLayout.Proofs.Layout.KeptKeywords
import SqlLayout.Proofs.Layout.Legible
import SqlLayout.Proofs.Layout.LineComments
import SqlLayout.Proofs.Layout.Normalized
import SqlLayout.Proofs.Layout.Passes
import SqlLayout.Proofs.Layout.Preservation
import SqlLayout.Proofs.Layout.Scan
import SqlLayout.Proofs.Layout.Total
import SqlLayout.Proofs.Layout.Walked
import SqlLayout.Proofs.Token.CommentFree
import SqlLayout.Proofs.Token.Reads
import SqlLayout.Proofs.Token.Reread
import SqlLayout.Proofs.Token.Shape
import SqlLayout.Proofs.Token.Tiling
import SqlLayout.Proofs.Token.Quoting
import SqlLayout.Proofs.Equivalence
import SqlLayout.Proofs.Layout.Move
import SqlLayout.Proofs.Layout.Reduced
import SqlLayout.Proofs.Layout.Hand
import SqlLayout.Proofs.Layout.Placed
import SqlLayout.Proofs.Layout.Block
import SqlLayout.Proofs.Layout.Kept
import SqlLayout.Proofs.Layout.Statements
import SqlLayout.Proofs.Layout.ReadBack
import SqlLayout.Proofs.Layout.Lockstep
import SqlLayout.Proofs.Layout.FixedPoint
import SqlLayout.Proofs.Layout.CommandLines
import SqlLayout.Proofs.Folder
import SqlLayout.Proofs.Path
import SqlLayout.Proofs.Discovery
import SqlLayout.Proofs.Settings
import SqlLayout.Proofs.Run.Task
import SqlLayout.Proofs.Run.Pool
import SqlLayout.Proofs.Run.InTurn
import SqlLayout.Proofs.Run.Agreement
import SqlLayout.Proofs.Run.Effect
import SqlLayout.Proofs.Text.AsciiCase
import SqlLayout.Proofs.Token.Caseless
import SqlLayout.Proofs.Token.OwnLine
import SqlLayout.Proofs.Layout.Twin
import SqlLayout.Proofs.Layout.TwinCursor
import SqlLayout.Proofs.Layout.TwinWalk
import SqlLayout.Proofs.Layout.TwinPasses
import SqlLayout.Proofs.Layout.Unseen
import SqlLayout.Proofs.Layout.Restyled
import SqlLayout.Proofs.Dialect.Extended
import SqlLayout.Proofs.Layout.GapShape
import SqlLayout.Proofs.Layout.Calls
import SqlLayout.Proofs.Layout.Course
import SqlLayout.Proofs.Layout.Nesting
import SqlLayout.Proofs.Layout.Tightened
import SqlLayout.Proofs.Layout.Crowds
import SqlLayout.Proofs.Layout.Aligned
import SqlLayout.Proofs.Layout.Overrun
import SqlLayout.Proofs.Layout.Positions
import SqlLayout.Proofs.Layout.Tucked
import SqlLayout.Proofs.Layout.JoinWords
import SqlLayout.Proofs.Layout.Visits
import SqlLayout.Proofs.Layout.JoinBreaks
import SqlLayout.Proofs.Dialect.History
import SqlLayout.Proofs.Text.Lines
import SqlLayout.Proofs.Properties.Reading
import SqlLayout.Proofs.Properties.Written
import SqlLayout.Proofs.Properties.Continued
import SqlLayout.Proofs.Style
import SqlLayout.Proofs.Settings.Layers
import SqlLayout.Proofs.Diff.Lines
import SqlLayout.Proofs.Diff.Rendered
import SqlLayout.Proofs.Equivalence.SideBySide
import SqlLayout.Proofs.Layout.SingleValues
