import Winding.Main
import Winding.Proofs.Basic
import Winding.Proofs.Execution.Coherence
import Winding.Proofs.Execution.Course
import Winding.Proofs.Execution.Ledger
import Winding.Proofs.Execution.Sequence
import Winding.Proofs.Execution.Wire
import Winding.Proofs.Machine.Advance
import Winding.Proofs.Machine.Dates
import Winding.Proofs.Machine.Filing
import Winding.Proofs.Machine.Handling
import Winding.Proofs.Machine.Periods
import Winding.Proofs.Machine.Requests
import Winding.Proofs.Machine.Saves
import Winding.Proofs.Machine.WindPeriods
import Winding.Proofs.Motion.Recipe
import Winding.Proofs.Number.Exact
import Winding.Proofs.Planning.Taut
import Winding.Proofs.Station.Cancellation
import Winding.Proofs.Station.Conservation
import Winding.Proofs.Station.Runs
import Winding.Proofs.Station.WoundLength
import Winding.Proofs.Execution.Rewind
import Winding.Proofs.Machine.Steering
import Winding.Proofs.Controller.Turns
import Winding.Proofs.Station.Discipline
import Winding.Proofs.Station.Submission
import Winding.Proofs.Station.Sides
import Winding.Proofs.Station.Quiescence
import Winding.Proofs.Machine.Closing
import Winding.Proofs.Station.Orders
import Winding.Proofs.Station.Parking
import Winding.Proofs.Station.Sessions
import Winding.Proofs.Station.Shutdown
import Winding.Proofs.Controller.Trigger
import Winding.Proofs.Execution.Operations
import Winding.Proofs.Station.Bookkeeping
import Winding.Proofs.Execution.Depths
import Winding.Proofs.Gcode.RoundTrip
import Winding.Proofs.Gcode.Sealed
import Winding.Proofs.Motion.History
import Winding.Proofs.Record.Changes
import Winding.Proofs.Calibration.RoundTrip
import Winding.Proofs.Station.Replies
import Winding.Proofs.Execution.Crossing
import Winding.Proofs.Gcode.Rule
import Winding.Proofs.Gcode.Layout
import Winding.Proofs.Execution.Progress
import Winding.Proofs.Execution.Resolution
import Winding.Proofs.Controller.Readiness
import Winding.Proofs.Gcode.Heading
import Winding.Proofs.Execution.FailedLoads
import Winding.Proofs.Execution.Counting
import Winding.Proofs.Gcode.Numbering
import Winding.Proofs.Time.Reading
import Winding.Proofs.Record.Saving
import Winding.Proofs.Number.Steps
import Winding.Proofs.Calibration.Monotone
import Winding.Proofs.Station.Delivery
import Winding.Proofs.Geometry.Walk
import Winding.Proofs.Settings.Validity
import Winding.Proofs.Execution.Standing
import Winding.Proofs.Station.Lines
