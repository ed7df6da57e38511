import LayerCanvas.Proofs.Index.Coherent
import LayerCanvas.Proofs.Graph.Departure
import LayerCanvas.Proofs.Graph.Settle
import LayerCanvas.Proofs.Snapshot.Save
import LayerCanvas.Proofs.Snapshot.RoundTrip
import LayerCanvas.Proofs.Session.Anchors
import LayerCanvas.Proofs.Session.Attention
import LayerCanvas.Proofs.Widget
import LayerCanvas.Proofs.Graph.Report
import LayerCanvas.Proofs.Graph.FrameRate
import LayerCanvas.Proofs.InPlace.Basic
import LayerCanvas.Proofs.InPlace.Graph
import LayerCanvas.Proofs.Session.Pan
import LayerCanvas.Proofs.InPlace.Session
import LayerCanvas.Proofs.Gesture
import LayerCanvas.Proofs.Viewport.Run
import LayerCanvas.Proofs.Session.View
import LayerCanvas.Proofs.Session.Lock
import LayerCanvas.Proofs.Binary.Widening
import LayerCanvas.Proofs.Graph.Nodes
import LayerCanvas.Proofs.Painting
import LayerCanvas.Proofs.Session.Calls
import LayerCanvas.Proofs.Session.Geometry
import LayerCanvas.Proofs.Graph.Identity
import LayerCanvas.Proofs.Session.Stranded
import LayerCanvas.Proofs.Session.Saving
import LayerCanvas.Proofs.Process
import LayerCanvas.Proofs.Viewport.Division
import LayerCanvas.Proofs.Session.Drag
import LayerCanvas.Proofs.Viewport.Zoom
import LayerCanvas.Proofs.Session.Target
import LayerCanvas.Proofs.Session.ViewChange
import LayerCanvas.Proofs.Index.Connect
import LayerCanvas.Proofs.Index.Adjacency
import LayerCanvas.Proofs.Graph.Deletion
import LayerCanvas.Proofs.Graph.Progress
import LayerCanvas.Proofs.Viewport.Framing
import LayerCanvas.Proofs.Index.Raise
import LayerCanvas.Proofs.Index.Moves
import LayerCanvas.Proofs.Animator.Run
import LayerCanvas.Proofs.Config.Parse
