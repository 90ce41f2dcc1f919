import TestWatch.Command.Plan
import TestWatch.Command.Usage
import TestWatch.Main
import TestWatch.Proofs.Run.Reachable
import TestWatch.Proofs.Run.Tally
import TestWatch.Proofs.Run.Sound
import TestWatch.Proofs.Run.Ending
import TestWatch.Proofs.Run.Boundary
import TestWatch.Proofs.Frame.Still
import TestWatch.Proofs.Session.Reports
import TestWatch.Proofs.Frame.Grants
import TestWatch.Proofs.Frame.Rendering
import TestWatch.Proofs.Frame.Accounting
import TestWatch.Proofs.Frame.Rows
import TestWatch.Proofs.Frame.OneLine
import TestWatch.Proofs.Run.Independence
import TestWatch.Proofs.Frame.Priority
import TestWatch.Frame.Subtractions
import TestWatch.Proofs.Text.Clean
import TestWatch.Proofs.Frame.Fits
import TestWatch.Proofs.Session.Showing
import TestWatch.Proofs.Number.Digits
import TestWatch.Proofs.Text.Printable
import TestWatch.Proofs.Text.Tint
import TestWatch.Proofs.Run.Lifecycle
import TestWatch.Proofs.Stream.Decoding
import TestWatch.Proofs.Stream.Exchange
import TestWatch.Proofs.Json.Grammar
import TestWatch.Proofs.Json.Completeness
import TestWatch.Proofs.Json.Soundness
import TestWatch.Proofs.Time.Calendar
import TestWatch.Proofs.Time.Spelling
import TestWatch.Proofs.Event.Spelling
import TestWatch.Proofs.Event.Damage
import TestWatch.Proofs.Frame.Colour
import TestWatch.Proofs.Report.Colour
import TestWatch.Proofs.Session.Redraw
import TestWatch.Proofs.Report.Agreement
import TestWatch.Proofs.Report.Statistics
import TestWatch.Proofs.Run.Growth
import TestWatch.Proofs.Session.ExitCode
import TestWatch.Proofs.Run.Unrecognized
import TestWatch.Proofs.Time.Span
import TestWatch.Proofs.Run.Closing
import TestWatch.Proofs.Text.Styled
import TestWatch.Proofs.Text.Tabs
import TestWatch.Proofs.Frame.Alignment
import TestWatch.Proofs.Frame.Columns
import TestWatch.Proofs.Stream.Failure
import TestWatch.Proofs.Stream.HandOff
import TestWatch.Proofs.Session.ReadFailure
