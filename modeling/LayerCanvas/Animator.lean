import LayerCanvas.Binary.Precision
import LayerCanvas.Id

/-!
The animations of connections that appear and fade. The animator keeps one tween for each connection
that is animated and knows nothing else of it. A tween begins at the first time it is sampled, not
when it is registered; sampling all tweens yields their progress at that time and drops the ones
whose time is over.
-/

set_option autoImplicit false
set_option relaxedAutoImplicit false

namespace LayerCanvas

/-- The two animations of a connection. -/
inductive TweenKind
  /-- Appearing: progress from zero to one, slowing down towards the end. -/
  | creation
  /-- Fading: progress from one to zero, evenly. -/
  | deletion
  deriving DecidableEq

/-- An animation under way. -/
structure Tween (R : Type := Float) where
  kind : TweenKind
  duration : R
  startedAt : Option R
  deriving DecidableEq

/-- The state of a tween at one time. -/
structure TweenSample (C : Type := Float32) where
  id : ConnectionId
  kind : TweenKind
  progress : C
  finished : Bool
  deriving DecidableEq

/-- The tweens under way, by connection, and the lengths of the two kinds. -/
structure Animator (R : Type := Float) where
  creationMs : R
  deletionMs : R
  tweens : List (ConnectionId × Tween R) := []
  deriving DecidableEq

section

variable {C R : Type} [Scalar R]

/-- The easing of a creation: the cube of what is missing decreases evenly. -/
def easeOutCubic (t : R) : R :=
  let left := 1 - t
  1 - left * (left * left)

namespace Tween

/-- The tween with its start fixed: a tween that has none starts now. -/
def latch (t : Tween R) (now : R) : Tween R := { t with startedAt := some (t.startedAt.getD now) }

/-- How long the tween has been running. -/
def elapsed (t : Tween R) (now : R) : R := now - t.startedAt.getD now

/-- The part of its time that is over, between zero and one. -/
def fraction (t : Tween R) (now : R) : R :=
  if 0 < t.duration then Scalar.clamp 0 1 (t.elapsed now / t.duration) else 1

/-- The progress of its connection. -/
def progress (t : Tween R) (now : R) : R :=
  match t.kind with
  | .creation => easeOutCubic (t.fraction now)
  | .deletion => 1 - t.fraction now

/-- The tween at one time. -/
def sample [Precision C R] (t : Tween R) (id : ConnectionId) (now : R) : TweenSample C where
  id := id
  kind := t.kind
  progress := Precision.narrow (t.progress now)
  finished := decide (1 ≤ t.fraction now)

/-- Whether the tween goes on after this time. -/
def isRunning (t : Tween R) (now : R) : Bool := t.elapsed now < t.duration

end Tween

namespace Animator

/-- The length of a kind of animation. -/
def duration (a : Animator R) : TweenKind → R
  | .creation => a.creationMs
  | .deletion => a.deletionMs

/-- The tween of a connection. -/
def find? (a : Animator R) (id : ConnectionId) : Option (Tween R) := a.tweens.lookup id

/-- Puts a tween in the place of the one with the same name, or at the end. -/
def put (id : ConnectionId) (t : Tween R) :
    List (ConnectionId × Tween R) → List (ConnectionId × Tween R)
  | [] => [(id, t)]
  | entry :: rest => if entry.1 = id then (id, t) :: rest else entry :: put id t rest

/-- Registers an animation, instead of any that the connection had. -/
def start (a : Animator R) (id : ConnectionId) (kind : TweenKind) : Animator R :=
  { a with tweens := put id ⟨kind, a.duration kind, none⟩ a.tweens }

/-- Forgets the animation of a connection. -/
def cancel (a : Animator R) (id : ConnectionId) : Animator R :=
  { a with tweens := a.tweens.filter fun entry ↦ entry.1 != id }

/-- Whether nothing is animated. -/
def isIdle (a : Animator R) : Bool := a.tweens.isEmpty

/-- Every tween sampled at one time. -/
def samples [Precision C R] (a : Animator R) (now : R) : List (TweenSample C) :=
  a.tweens.map fun entry ↦ (entry.2.latch now).sample entry.1 now

/-- The animator after a time: every tween has started, and those whose time is over are gone. -/
def advance (a : Animator R) (now : R) : Animator R :=
  { a with
    tweens :=
      (a.tweens.map fun entry ↦ (entry.1, entry.2.latch now)).filter fun entry ↦
        entry.2.isRunning now }

end Animator

end

end LayerCanvas
