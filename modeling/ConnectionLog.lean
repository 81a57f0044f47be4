import ConnectionLog.Main
import ConnectionLog.Settings.Writing
import ConnectionLog.Proofs.Table.Session
import ConnectionLog.Proofs.Files.Fresh
import ConnectionLog.Proofs.Files.Registry
import ConnectionLog.Proofs.Plan.Exact
import ConnectionLog.Proofs.Plan.History
import ConnectionLog.Proofs.Table.Arrivals
import ConnectionLog.Proofs.Table.Scene
import ConnectionLog.Proofs.Settings.RoundTrip
import ConnectionLog.Proofs.Command.Paging
import ConnectionLog.Proofs.Table.Whole
import ConnectionLog.Proofs.Plan.Rows
import ConnectionLog.Proofs.Record.Widths
import ConnectionLog.Proofs.Log.Columns
import ConnectionLog.Proofs.Cell.Times
import ConnectionLog.Proofs.Cell.Ends
import ConnectionLog.Proofs.Window.Numbering
import ConnectionLog.Proofs.Window.Origin
import ConnectionLog.Proofs.Cell.Names
import ConnectionLog.Proofs.Settings.Overlay
import ConnectionLog.Proofs.Files.Reuse
import ConnectionLog.Proofs.Command.Seeding
