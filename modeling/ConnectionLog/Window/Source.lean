import ConnectionLog.Record.Connection
import ConnectionLog.Span

/-!
What a reader sees of a log at one moment: its bounds and the record of each
identifier. Either may fail to be read.
-/
namespace ConnectionLog

/-- The answers of a log at one moment. An identifier within the bounds may have
no record. -/
structure Source (ε : Type) where
  span : Except ε Span
  fetch : Int → Except ε (Option Record)

end ConnectionLog
