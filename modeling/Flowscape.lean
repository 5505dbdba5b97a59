import Flowscape.Lib.OrdMap
import Flowscape.Lib.Run
import Flowscape.Lib.Rounding
import Flowscape.Lib.Sample
import Flowscape.Lib.Sorting
import Flowscape.Lib.Loop
import Flowscape.Lib.Sweep
import Flowscape.Lib.Text
import Flowscape.Lib.ChangeLog
import Flowscape.Lib.Pool
import Flowscape.Lib.Seconds
import Flowscape.Protocol
import Flowscape.Graph.Flow
import Flowscape.Graph.Key
import Flowscape.Graph.PathPrefix
import Flowscape.Graph.Buckets
import Flowscape.Graph.Seconds
import Flowscape.Graph.L7
import Flowscape.Graph.TopCounter
import Flowscape.Graph.State
import Flowscape.Graph.Invariant
import Flowscape.Graph.Machines
import Flowscape.Graph.Ingest
import Flowscape.Graph.Tick
import Flowscape.Graph.Representation
import Flowscape.Graph.Anchors
import Flowscape.Graph.Placement
import Flowscape.Graph.Timestamps
import Flowscape.Graph.Summary
import Flowscape.Graph.Expiry
import Flowscape.Graph.Order
import Flowscape.Hub.Nodes
import Flowscape.Hub.Sparks
import Flowscape.Hub.Clients
import Flowscape.Hub.Connect
import Flowscape.Hub.Channels
import Flowscape.Relay.Client
import Flowscape.Relay.Repeats
import Flowscape.Relay.Retry
import Flowscape.Replay.Source
import Flowscape.Web.GraphState
import Flowscape.Web.Fold
import Flowscape.Web.Rates
import Flowscape.Web.Changes
import Flowscape.Web.Nodes
import Flowscape.Web.Edges
import Flowscape.Web.Slots
import Flowscape.Web.Filters
import Flowscape.Web.Layout
import Flowscape.Web.LayoutOrder
import Flowscape.Web.LayoutStable
import Flowscape.Web.Particles
import Flowscape.Web.ParticleArrays
import Flowscape.Web.WSClient
import Flowscape.Web.DemoTransport
import Flowscape.Sync.Pending
import Flowscape.Sync.Messages
import Flowscape.Sync.Refinement
import Flowscape.Sync.Join
import Flowscape.Sync.Rates
import Flowscape.Lib.Average
import Flowscape.Web.NodeMesh
import Flowscape.Web.Page
import Flowscape.Web.Arcs
import Flowscape.Web.Steady
import Flowscape.Web.InStep
import Flowscape.Web.Drawn
import Flowscape.Web.Refresh
import Flowscape.Web.Frames
import Flowscape.Web.PageRuns
import Flowscape.Web.Visibility
import Flowscape.Web.Dots
import Flowscape.Sync.Drawing
import Flowscape.Web.Motion
import Flowscape.Web.Focus
import Flowscape.Web.Canvas
import Flowscape.Web.Display
import Flowscape.Sync.Unavailable
import Flowscape.Sync.Wire
