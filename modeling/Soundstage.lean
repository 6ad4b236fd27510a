import Soundstage.Asset.Digest
import Soundstage.Asset.Flight
import Soundstage.Asset.Fragment
import Soundstage.Asset.History
import Soundstage.Asset.Key
import Soundstage.Asset.Store
import Soundstage.Cancel
import Soundstage.Cli.Arguments
import Soundstage.Cli.Program
import Soundstage.Disk.Access
import Soundstage.Disk.Basic
import Soundstage.Disk.Fault
import Soundstage.Disk.Listing
import Soundstage.Disk.Path
import Soundstage.Disk.Place
import Soundstage.Disk.Route
import Soundstage.Failure
import Soundstage.Json.Literal
import Soundstage.Json.Reader
import Soundstage.Json.Record
import Soundstage.Json.Saved
import Soundstage.Json.Token
import Soundstage.Json.Tree
import Soundstage.Json.Writer
import Soundstage.Main
import Soundstage.Mix.Graph
import Soundstage.Mix.Pan
import Soundstage.Mix.Plan
import Soundstage.Proofs.Mix.Weight
import Soundstage.Number.Binary64
import Soundstage.Number.Hexadecimal
import Soundstage.Number.Numeral
import Soundstage.Number.Rounding
import Soundstage.Number.Scalar
import Soundstage.Number.Shortest
import Soundstage.Number.Style
import Soundstage.Production
import Soundstage.Proofs.Timeline.Tracks
import Soundstage.Proofs.Timeline.Work
import Soundstage.Provider
import Soundstage.Script.Command
import Soundstage.Script.Parser
import Soundstage.Proofs.Script.RoundTrip
import Soundstage.Script.Printer
import Soundstage.Settings.Basic
import Soundstage.Settings.File
import Soundstage.Studio
import Soundstage.Text.Blank
import Soundstage.Text.Gapped
import Soundstage.Text.Quoted
import Soundstage.Text.Shape
import Soundstage.Text.Utf8
import Soundstage.Timeline.Basic
import Soundstage.Timeline.Build
import Soundstage.Timeline.Placement
import Soundstage.Timeline.Session
import Soundstage.Timeline.Structure
import Soundstage.Timeline.Tiling
import Soundstage.Timeline.Trace
import Soundstage.Tool.Probe
import Soundstage.Tool.Render
import Soundstage.Tool.Run
import Soundstage.Proofs.Timeline.Placement
import Soundstage.Proofs.Disk.Effects
import Soundstage.Proofs.Disk.Folders
import Soundstage.Proofs.Disk.Parts
import Soundstage.Proofs.Disk.Sibling
import Soundstage.Proofs.Disk.Changes
import Soundstage.Proofs.Asset.Naming
import Soundstage.Proofs.Asset.Keeping
import Soundstage.Proofs.Asset.History
import Soundstage.Proofs.Asset.Flight
import Soundstage.Proofs.Asset.SingleFlight
import Soundstage.Proofs.Timeline.Requests
import Soundstage.Proofs.Asset.Supply
import Soundstage.Proofs.Timeline.Answers
import Soundstage.Proofs.Timeline.Lockstep
import Soundstage.Proofs.Timeline.Prefetch
import Soundstage.Proofs.Timeline.Workers
import Soundstage.Proofs.Asset.Room
import Soundstage.Proofs.Asset.Lasting
import Soundstage.Proofs.Number.Clock
import Soundstage.Proofs.Timeline.Course
import Soundstage.Proofs.Timeline.Steps
import Soundstage.Proofs.Timeline.Ensuing
import Soundstage.Proofs.Timeline.Live
import Soundstage.Proofs.Timeline.Rerun
import Soundstage.Proofs.Timeline.Blame
import Soundstage.Proofs.Timeline.Ending
import Soundstage.Proofs.Timeline.Overflow
import Soundstage.Proofs.Timeline.Foreground
import Soundstage.Proofs.Timeline.Tally
import Soundstage.Proofs.Asset.Wording
import Soundstage.Proofs.Asset.Address
import Soundstage.Proofs.Tool.Rendering
import Soundstage.Proofs.Timeline.Belated
import Soundstage.Proofs.Timeline.Hindrance
import Soundstage.Proofs.Timeline.GivingUp
import Soundstage.Proofs.Timeline.Cover
import Soundstage.Proofs.Number.Order
import Soundstage.Proofs.Timeline.InTime
import Soundstage.Proofs.Json.Kept
import Soundstage.Proofs.Timeline.Limit
import Soundstage.Proofs.Timeline.Within
import Soundstage.Proofs.Timeline.Stopping
import Soundstage.Proofs.Asset.Failing
import Soundstage.Proofs.Asset.Cut
import Soundstage.Proofs.Script.Joining
import Soundstage.Proofs.Tool.Kinds
import Soundstage.Proofs.Timeline.Calls
import Soundstage.Proofs.Timeline.Earliest
import Soundstage.Proofs.Tool.Measuring
