import IhsWl.Base
import IhsWl.Buffers
import IhsWl.Buffers.Ids
import IhsWl.Buffers.Theorems
import IhsWl.Fit
import IhsWl.Fit.Exact
import IhsWl.Fit.Theorems
import IhsWl.Gate
import IhsWl.Gate.Progress
import IhsWl.Gate.Theorems
import IhsWl.GbmBuffer
import IhsWl.GbmBuffer.Theorems
import IhsWl.Handing
import IhsWl.Handing.Lemmas
import IhsWl.Holds
import IhsWl.Holds.Theorems
import IhsWl.Hosting
import IhsWl.Hosting.Lemmas
import IhsWl.Layers
import IhsWl.Layers.Edges
import IhsWl.Layers.Orientation
import IhsWl.Lib.Climb
import IhsWl.Lib.Custody
import IhsWl.Lib.Debts
import IhsWl.Lib.Grid
import IhsWl.Lib.Latest
import IhsWl.Lib.Ledger
import IhsWl.Lib.OnePass
import IhsWl.Lib.Round
import IhsWl.Lib.Runs
import IhsWl.Lib.Slices
import IhsWl.Lib.Table
import IhsWl.Lib.Threads
import IhsWl.Lib.Versions
import IhsWl.Lifecycle
import IhsWl.Lifecycle.Lemmas
import IhsWl.Lifecycle.Progress
import IhsWl.Lifecycle.Theorems
import IhsWl.Params
import IhsWl.Params.Theorems
import IhsWl.Params.Views
import IhsWl.Pointing
import IhsWl.Pointing.Clicks
import IhsWl.Pointing.Mouse
import IhsWl.Pointing.Theorems
import IhsWl.Sandbox
import IhsWl.Sandbox.Theorems
import IhsWl.Scanout
import IhsWl.Seat
import IhsWl.Seat.Handlers
import IhsWl.Seat.Lemmas.Acts
import IhsWl.Seat.Lemmas.Attended
import IhsWl.Seat.Lemmas.Looks
import IhsWl.Seat.Lemmas.Notices
import IhsWl.Seat.Requests
import IhsWl.Seat.Theorems.Configures
import IhsWl.Seat.Theorems.Feedback
import IhsWl.Seat.Theorems.Focus
import IhsWl.Server.Acts
import IhsWl.Server.Binding
import IhsWl.Server.Deeds
import IhsWl.Server.Dialogs
import IhsWl.Server.Handlers
import IhsWl.Server.Lemmas.Alarms
import IhsWl.Server.Lemmas.Attention
import IhsWl.Server.Lemmas.Deeds
import IhsWl.Server.Lemmas.Kin
import IhsWl.Server.Lemmas.Later
import IhsWl.Server.Lemmas.Links
import IhsWl.Server.Lemmas.Logs
import IhsWl.Server.Lemmas.Missing
import IhsWl.Server.Lemmas.Owned
import IhsWl.Server.Lemmas.Placed
import IhsWl.Server.Lemmas.Places
import IhsWl.Server.Lemmas.Queues
import IhsWl.Server.Lemmas.Settles
import IhsWl.Server.Lemmas.Sound
import IhsWl.Server.Lemmas.Wider
import IhsWl.Server.Lemmas.Windows
import IhsWl.Server.Moves
import IhsWl.Server.Pacing
import IhsWl.Server.Scene
import IhsWl.Server.Screens
import IhsWl.Server.State
import IhsWl.Server.Submit
import IhsWl.Server.Theorems.Alarms
import IhsWl.Server.Theorems.Completeness
import IhsWl.Server.Theorems.Dialogs
import IhsWl.Server.Theorems.Failures
import IhsWl.Server.Theorems.Grace
import IhsWl.Server.Theorems.Hidden
import IhsWl.Server.Theorems.Identity
import IhsWl.Server.Theorems.Launch
import IhsWl.Server.Theorems.Links
import IhsWl.Server.Theorems.Mirror
import IhsWl.Server.Theorems.Scenes
import IhsWl.Server.Theorems.Screens
import IhsWl.Server.Theorems.Senders
import IhsWl.Server.Theorems.Wakes
import IhsWl.Showing
import IhsWl.Showing.Theorems
import IhsWl.Staging
import IhsWl.Staging.Bytes
import IhsWl.Staging.Copies
import IhsWl.Staging.Theorems
import IhsWl.Timing
import IhsWl.Timing.Clock
import IhsWl.Timing.Queue
import IhsWl.Timing.Theorems
import IhsWl.Typing
import IhsWl.Typing.Theorems
import IhsWl.Widget
import IhsWl.Widget.Controllers
import IhsWl.Widget.Lemmas.Attached
import IhsWl.Widget.Runs
import IhsWl.Widget.Served
import IhsWl.Widget.Sizes
import IhsWl.Widget.Theorems
import IhsWl.Hosting.Theorems
