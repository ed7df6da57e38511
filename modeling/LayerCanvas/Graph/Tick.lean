import LayerCanvas.Graph.Edit

/-!
The graph over time. A tick samples every tween and brings the samples to the connections: a
connection that has faded goes, and a node that waited goes with the last connection at it.
-/

set_option autoImplicit false
set_option relaxedAutoImplicit false

namespace LayerCanvas

/-- What a tick did. -/
structure TickOutcome where
  /-- Whether animations are still under way. -/
  needsFrame : Bool
  /-- The connections that have faded, in the order of their samples. -/
  purged : List ConnectionId
  /-- The nodes that went, in the order they were deleted. -/
  removed : List NodeId
  deriving DecidableEq

namespace Graph

variable {C R : Type}

/-- Whether a sample takes its connection away. -/
def purges (g : Graph C R) (s : TweenSample C) : Bool :=
  s.kind = .deletion && s.finished && g.containsConnection s.id

/-- Brings one sample to its connection. A tween whose connection is gone is forgotten. -/
def absorb (g : Graph C R) (s : TweenSample C) : Graph C R :=
  if !g.containsConnection s.id then { g with animator := g.animator.cancel s.id }
  else
    match s.kind, s.finished with
    | .creation, finished =>
      g.updateConnection s.id fun c ↦ { c with progress := s.progress, isAnimating := !finished }
    | .deletion, false => g.updateConnection s.id fun c ↦ { c with progress := s.progress }
    | .deletion, true => g.dropConnection s.id

/-- Brings samples to their connections one after the other. -/
def absorbAll (g : Graph C R) (samples : List (TweenSample C)) : Graph C R :=
  samples.foldl absorb g

/-- The leaving nodes that no connection touches any more. -/
def ready (g : Graph C R) : List NodeId :=
  g.leaving.filter fun id ↦ !g.contains id || !g.isTouched id

/-- The graph after a tick, when the tweens are sampled in the given order. -/
def tickWith [Scalar R] (g : Graph C R) (samples : List (TweenSample C)) (now : R) :
    Graph C R × TickOutcome :=
  let absorbed := { g with animator := g.animator.advance now }.absorbAll samples
  let after := absorbed.ready.foldl dropNode absorbed
  (after,
    { needsFrame := after.isAnimating
      purged := (samples.filter g.purges).map TweenSample.id
      removed := absorbed.ready })

/-- The graph after a tick. -/
def tick [Scalar R] [Precision C R] (g : Graph C R) (now : R) : Graph C R × TickOutcome :=
  g.tickWith (g.animator.samples now) now

end Graph

end LayerCanvas
