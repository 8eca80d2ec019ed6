import AtomRust.Base.Transition
import AtomRust.Base.Broadcast
import AtomRust.Base.Interrupted
import AtomRust.Base.Progress
import AtomRust.Base.Slots
import AtomRust.Base.Fallible
import AtomRust.Base.Rounding
import AtomRust.Runtime.Task
import AtomRust.Runtime.Handshake
import AtomRust.Runtime.TaskManager
import AtomRust.Runtime.Shutdown
import AtomRust.Media.Video
import AtomRust.Source.Source
import AtomRust.Source.SourceManager
import AtomRust.Source.Catalog
import AtomRust.Source.MediaInfo
import AtomRust.Source.Refusal
import AtomRust.Source.Closing
import AtomRust.Source.Stopping
import AtomRust.Session.Worker
import AtomRust.Session.FrameLog
import AtomRust.Session.Keyframe
import AtomRust.Session.Session
import AtomRust.Session.Steps
import AtomRust.Session.Lifetime
import AtomRust.Session.Pairing
import AtomRust.Session.Answers
import AtomRust.Session.Answerable
import AtomRust.Session.RtpInfo
import AtomRust.Session.Departure
import AtomRust.Session.SessionManager
import AtomRust.Session.Registry
import AtomRust.Session.Teardown
import AtomRust.Session.Disconnect
import AtomRust.Session.Closing
import AtomRust.Session.Stopping
import AtomRust.Session.Collision
import AtomRust.Session.Playback
import AtomRust.Session.Transport
import AtomRust.Net.Connection
import AtomRust.Net.Merge
import AtomRust.Net.ConnectionManager
import AtomRust.Net.Roster
import AtomRust.Net.ConnectionTable
import AtomRust.Net.Server
import AtomRust.Net.Listener
import AtomRust.Net.Stopping
import AtomRust.Net.Closing
import AtomRust.App.Handler
import AtomRust.App.Link
import AtomRust.App.PlayOrder
import AtomRust.App.Setup
import AtomRust.App.Carrier
import AtomRust.App.Channels
import AtomRust.App.Program
import AtomRust.App.Bodies
import AtomRust.App.Silence
import AtomRust.Hamqtt.HAMQTTClient
import AtomRust.Hamqtt.Announced
import AtomRust.Packaging.Cmdline
import AtomRust.Packaging.Fstab
import AtomRust.Packaging.Overlay
import AtomRust.Packaging.LastCommand
import AtomRust.Packaging.Attempts
import AtomRust.Libcam.TimeReporter
import AtomRust.Libcam.LibCam
import AtomRust.Pipeline.Summarize
import AtomRust.Libcam.Timestamps
import AtomRust.Libcam.RateReports
import AtomRust.App.Selection
import AtomRust.App.ObjectSensors
import AtomRust.Base.Fields
import AtomRust.Packaging.Removal
import AtomRust.Packaging.FstabEdit
import AtomRust.Packaging.Card
import AtomRust.Packaging.Modes
import AtomRust.Pipeline.LabelParser
import AtomRust.Pipeline.TFLiteStage
import AtomRust.Pipeline.Detections
import AtomRust.App.Reports
import AtomRust.App.Delivery
import AtomRust.App.Watchdog
import AtomRust.App.App
import AtomRust.App.Stages
import AtomRust.App.Requests
import AtomRust.App.Calls
import AtomRust.App.Stopping
