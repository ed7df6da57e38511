import LayerCanvas.Painting.Drawing
import LayerCanvas.Painting.Scene
import Mathlib.Tactic.SplitIfs

/-!
The two painters show the same thing. One gives a scene, each shape of which comes with its own map
and style; the other makes calls on a drawing context, which remembers the current path, the line
width and the map, and puts them aside and back. So a drawing has to be read with a pen in hand, and
what is read off it are figures: curves, areas, discs and the borders of cards.

The figures of a graph are stated for themselves, connection by connection and node by node, and
each painter is shown to paint them and no others, in that order. Two things are left out on both
sides because the painters do differ in them: fillings of cards, and the rings and crosses that
decorate a disc.
-/

set_option autoImplicit false
set_option relaxedAutoImplicit false

namespace LayerCanvas

/-- An outline that can be filled or stroked. -/
inductive Outline
  | path (p : Path)
  | circle (c : Circle)
  /-- An outline with rounded corners. -/
  | card

/-- What both painters show. -/
inductive Figure
  /-- A stroked quadratic curve. -/
  | curve (start control stop : Point Float)
  /-- A filled outline. -/
  | area (p : Path)
  /-- A filled circle. -/
  | disc (c : Circle)
  /-- The stroked outline of a card, by the width of the line. -/
  | border (width : Float)
  deriving DecidableEq

namespace Outline

/-- What is seen of an outline that is filled. -/
def filled : Outline → List Figure
  | .path p => [.area p]
  | .circle c => [.disc c]
  | .card => []

/-- What is seen of an outline that is stroked. -/
def stroked (width : Float) : Outline → List Figure
  | .path [.moveTo start, .quadTo control stop] => [.curve start control stop]
  | .card => [.border width]
  | _ => []

end Outline

/-! ### The figures of a graph -/

/-- The flow along a connection is shown once it is at rest. -/
def Connection.showsFlow (c : Connection) : Bool :=
  !c.isDeleting && decide (1 ≤ (Curve.ofConnection c).progress)

/-- The delete target of a connection as it is drawn: while the pointer is over it, or while it
fades. -/
def Connection.drawnTarget? (c : Connection) (hovered : Bool) : Option Circle :=
  if hovered || c.isDeleting then
    (Curve.ofConnection c).deleteTarget?
      (if hovered then Curve.targetRadius + Curve.targetGrowth else Curve.targetRadius)
  else none

/-- What a painter makes of a delete target. -/
theorem Connection.drawnTarget?_map {α : Type} (c : Connection) (hovered : Bool)
    (f : Circle → List α) :
    (if hovered || c.isDeleting then
        (((Curve.ofConnection c).deleteTarget?
          (if hovered then Curve.targetRadius + Curve.targetGrowth else Curve.targetRadius)).map
            f).getD []
      else []) = ((c.drawnTarget? hovered).map f).getD [] := by
  unfold drawnTarget?
  split_ifs <;> rfl

namespace Figure

/-- A curve as it is stroked. -/
def ofCurve (c : Curve) : Figure := .curve c.start c.control c.stop

/-- The figures of a connection: its curve, the flow along it, its arrowhead and its delete
target. -/
def ofConnection (c : Connection) (hovered : Bool) : List Figure :=
  let curve := Curve.ofConnection c
  ofCurve curve :: (if c.showsFlow then [ofCurve curve] else []) ++
    (if curve.showsArrowhead then [.area curve.arrowhead] else []) ++
    ((c.drawnTarget? hovered).map .disc).toList

/-- The dot of a node. -/
def ofDot (n : Node) (kind : DotKind) : Figure := .disc ⟨(n.anchor kind).widen, 6⟩

/-- The figures of a node: its border, which is wider if it is selected, and its two dots. -/
def ofNode (n : Node) (selected : Bool) : List Figure :=
  [.border (if selected then 2 else 1), ofDot n .input, ofDot n .output]

/-- The line that is being drawn. -/
def ofLine (start stop : Point) : Figure := ofCurve (.between start stop)

/-- The figures of a graph, in the order they are painted. -/
def ofGraph (g : Graph) (overlay : Overlay) : List Figure :=
  (g.connections.flatMap fun c ↦ ofConnection c (overlay.hovered = some c.id)) ++
    (g.nodes.flatMap fun n ↦ ofNode n (overlay.selected = some n.id)) ++
    (overlay.line.map fun (start, stop) ↦ ofLine start stop).toList

end Figure

/-! ### Scenes -/

/-- The outline of a shape. -/
def Shape.outline : Shape → Outline
  | .roundedRect _ => .card
  | .circle c => .circle c
  | .path p => .path p

/-- What is seen of one shape of a scene, and under which map. -/
def SceneItem.figures : SceneItem → List (Affine × Figure)
  | .fill view _ shape => shape.outline.filled.map (view, ·)
  | .stroke style view _ shape => (shape.outline.stroked style.width).map (view, ·)

namespace Scene

/-- What is seen of a scene. -/
def figures (scene : Scene) : List (Affine × Figure) := scene.flatMap SceneItem.figures

theorem figures_cons (item : SceneItem) (rest : Scene) :
    figures (item :: rest) = item.figures ++ figures rest := List.flatMap_cons

theorem figures_append (first second : Scene) :
    figures (first ++ second) = figures first ++ figures second := List.flatMap_append

theorem figures_flatMap {α : Type} {view : Affine} {f : α → Scene} {g : α → List Figure}
    (h : ∀ x, figures (f x) = (g x).map (view, ·)) (xs : List α) :
    figures (xs.flatMap f) = (xs.flatMap g).map (view, ·) := by
  induction xs with
  | nil => rfl
  | cons x xs ih =>
    rw [List.flatMap_cons, figures_append, h, ih, List.flatMap_cons, List.map_append]

theorem figures_ofConnection (view : Affine) (palette : Palette) (c : Connection)
    (hovered : Bool) :
    figures (ofConnection view palette c hovered) =
      (Figure.ofConnection c hovered).map (view, ·) := by
  have hcurve (style : StrokeStyle) (color : Color) (curve : Curve) :
      SceneItem.figures (.stroke style view color (.path curve.path)) =
        [(view, Figure.ofCurve curve)] := rfl
  have hflow (shown : Prop) [Decidable shown] (style : StrokeStyle) (curve : Curve) :
      figures (if shown then [.stroke style view palette.flow (.path curve.path)] else []) =
        (if shown then [Figure.ofCurve curve] else []).map (view, ·) := by
    split_ifs <;> rfl
  have harrowhead (shown : Prop) [Decidable shown] (color : Color) (p : Path) :
      figures (if shown then [.fill view color (.path p)] else []) =
        (if shown then [Figure.area p] else []).map (view, ·) := by
    split_ifs <;> rfl
  have htarget (fill color : Color) :
      figures (((c.drawnTarget? hovered).map (ofTarget view fill color)).getD []) =
        ((c.drawnTarget? hovered).map Figure.disc).toList.map (view, ·) := by
    cases c.drawnTarget? hovered <;> rfl
  unfold ofConnection Figure.ofConnection Connection.showsFlow
  dsimp only
  rw [c.drawnTarget?_map]
  simp only [figures_cons, figures_append, List.cons_append, List.map_cons, List.map_append,
    List.nil_append, hcurve, hflow, harrowhead, htarget]

theorem figures_ofNode (view : Affine) (palette : Palette) (n : Node) (selected : Bool) :
    figures (ofNode view palette n selected) = (Figure.ofNode n selected).map (view, ·) := rfl

/-- A scene shows the figures of its graph. -/
theorem figures_ofGraph (g : Graph) (t : Transform) (overlay : Overlay) (palette : Palette) :
    figures (ofGraph g t overlay palette) = (Figure.ofGraph g overlay).map (t.affine, ·) := by
  unfold ofGraph Figure.ofGraph
  simp only [figures_append, List.map_append]
  rw [figures_flatMap (fun c ↦ figures_ofConnection _ palette c _) g.connections,
    figures_flatMap (fun n ↦ figures_ofNode _ palette n _) g.nodes]
  cases overlay.line <;> rfl

end Scene

/-! ### Drawings -/

/-- What a drawing context remembers, as far as figures go. -/
structure Pen where
  outline : Outline := .path []
  width : Float := 1
  map : Affine := .scale 1
  /-- The maps and the line widths that were put aside. -/
  saved : List (Affine × Float) := []

namespace Outline

/-- The outline with one more part. -/
def extend : Outline → PathElement → Outline
  | .path p, e => .path (p ++ [e])
  | _, _ => .card

/-- The outline with an arc. An arc of a full turn, and nothing else, is a circle. -/
def arc (outline : Outline) (center : Point Float) (radius start stop : Float) : Outline :=
  match outline with
  | .path [] =>
    if start = 0 ∧ stop = Drawing.turn then .circle ⟨center, radius⟩ else .card
  | _ => .card

end Outline

namespace Pen

/-- The pen after a call. -/
def after (pen : Pen) : ContextCall → Pen
  | .setTransform m => { pen with map := m }
  | .save => { pen with saved := (pen.map, pen.width) :: pen.saved }
  | .restore =>
    match pen.saved with
    | [] => pen
    | (map, width) :: saved => { pen with map, width, saved }
  | .setLineWidth width => { pen with width }
  | .beginPath => { pen with outline := .path [] }
  | .closePath => { pen with outline := pen.outline.extend .close }
  | .moveTo p => { pen with outline := pen.outline.extend (.moveTo p) }
  | .lineTo p => { pen with outline := pen.outline.extend (.lineTo p) }
  | .quadraticCurveTo control p => { pen with outline := pen.outline.extend (.quadTo control p) }
  | .arc center radius start stop =>
    { pen with outline := pen.outline.arc center radius start stop }
  | .arcTo _ _ _ => { pen with outline := .card }
  | _ => pen

/-- The pen after several calls. -/
def afterAll (pen : Pen) (drawing : Drawing) : Pen := drawing.foldl after pen

/-- What is seen of one call, and under which map. -/
def marks (pen : Pen) : ContextCall → List (Affine × Figure)
  | .fill => pen.outline.filled.map (pen.map, ·)
  | .stroke => (pen.outline.stroked pen.width).map (pen.map, ·)
  | _ => []

/-- What is seen of several calls. -/
def read (pen : Pen) : Drawing → List (Affine × Figure)
  | [] => []
  | call :: rest => pen.marks call ++ (pen.after call).read rest

theorem after_restore {pen : Pen} {map : Affine} {width : Float} {saved : List (Affine × Float)}
    (h : pen.saved = (map, width) :: saved) :
    pen.after .restore = { pen with map, width, saved } := by
  simp only [after, h]

theorem afterAll_append (pen : Pen) (first second : Drawing) :
    pen.afterAll (first ++ second) = (pen.afterAll first).afterAll second := List.foldl_append

theorem read_append (pen : Pen) (first second : Drawing) :
    pen.read (first ++ second) = pen.read first ++ (pen.afterAll first).read second := by
  induction first generalizing pen with
  | nil => rfl
  | cons call rest ih =>
    have hrest := ih (pen.after call)
    rw [List.cons_append, read, hrest, read, List.append_assoc]
    rfl

end Pen

/-- Whether a call can leave a mark or change the map. -/
def ContextCall.IsPlain : ContextCall → Prop
  | .setTransform _ | .save | .restore | .fill | .stroke => False
  | _ => True

namespace Drawing

/-- What is seen of a drawing. -/
def figures (drawing : Drawing) : List (Affine × Figure) := Pen.read {} drawing

/-- A piece of a drawing that shows some figures, whatever was drawn before, and leaves the map and
what was put aside as they were. -/
structure Shows (piece : Drawing) (figures : List Figure) : Prop where
  reads : ∀ pen : Pen, pen.read piece = figures.map (pen.map, ·)
  map : ∀ pen : Pen, (pen.afterAll piece).map = pen.map
  saved : ∀ pen : Pen, (pen.afterAll piece).saved = pen.saved

namespace Shows

variable {first second piece : Drawing} {firstFigures secondFigures figures : List Figure}

theorem nil : Shows [] [] := ⟨fun _ ↦ rfl, fun _ ↦ rfl, fun _ ↦ rfl⟩

theorem append (h : Shows first firstFigures) (h' : Shows second secondFigures) :
    Shows (first ++ second) (firstFigures ++ secondFigures) where
  reads pen := by rw [Pen.read_append, h.reads, h'.reads, h.map, List.map_append]
  map pen := by rw [Pen.afterAll_append, h'.map, h.map]
  saved pen := by rw [Pen.afterAll_append, h'.saved, h.saved]

theorem flatMap {α : Type} {f : α → Drawing} {g : α → List Figure} (h : ∀ x, Shows (f x) (g x))
    (xs : List α) : Shows (xs.flatMap f) (xs.flatMap g) := by
  induction xs with
  | nil => exact nil
  | cons x xs ih =>
    rw [List.flatMap_cons, List.flatMap_cons]
    exact (h x).append ih

theorem ite {p : Prop} [Decidable p] (h : Shows first firstFigures)
    (h' : Shows second secondFigures) :
    Shows (if p then first else second) (if p then firstFigures else secondFigures) := by
  split_ifs
  · exact h
  · exact h'

/-- Calls that set a style show nothing. -/
theorem plain {piece : Drawing} (h : ∀ call ∈ piece, call.IsPlain) : Shows piece [] := by
  induction piece with
  | nil => exact nil
  | cons call rest ih =>
    have hcall : Shows [call] [] := by
      have hplain := h call List.mem_cons_self
      cases call with
      | setTransform m => exact hplain.elim
      | save => exact hplain.elim
      | restore => exact hplain.elim
      | fill => exact hplain.elim
      | stroke => exact hplain.elim
      | _ => exact ⟨fun _ ↦ rfl, fun _ ↦ rfl, fun _ ↦ rfl⟩
    exact hcall.append (ih fun other hother ↦ h other (List.mem_cons_of_mem _ hother))

theorem plain_append {style : Drawing} (hstyle : ∀ call ∈ style, call.IsPlain)
    (h : Shows piece figures) : Shows (style ++ piece) figures := (plain hstyle).append h

theorem append_plain {style : Drawing} (h : Shows piece figures)
    (hstyle : ∀ call ∈ style, call.IsPlain) : Shows (piece ++ style) figures := by
  have hboth := h.append (plain hstyle)
  rwa [List.append_nil] at hboth

/-- What is put aside comes back. -/
theorem afterAll_putAside (h : Shows piece figures) (pen : Pen) :
    ∃ outline, pen.afterAll (.save :: piece ++ [.restore]) = { pen with outline } := by
  have hsaved : ((pen.after .save).afterAll piece).saved = (pen.map, pen.width) :: pen.saved :=
    h.saved _
  refine ⟨((pen.after .save).afterAll piece).outline, ?_⟩
  rw [List.cons_append, Pen.afterAll, List.foldl_cons, ← Pen.afterAll, Pen.afterAll_append]
  exact Pen.after_restore hsaved

theorem putAside (h : Shows piece figures) : Shows (.save :: piece ++ [.restore]) figures where
  reads pen := by
    have hpiece : (pen.after .save).read piece = figures.map (pen.map, ·) := h.reads _
    rw [List.cons_append, Pen.read, Pen.read_append, hpiece]
    exact List.append_nil _
  map pen := by
    obtain ⟨outline, hpen⟩ := h.afterAll_putAside pen
    rw [hpen]
  saved pen := by
    obtain ⟨outline, hpen⟩ := h.afterAll_putAside pen
    rw [hpen]

/-- Calls that set a style and make a path, and then a call that leaves marks. -/
theorem marked {call : ContextCall} (hplain : ∀ call ∈ piece, call.IsPlain)
    (hkeeps : ∀ pen : Pen, pen.after call = pen)
    (hmarks : ∀ pen : Pen, (pen.afterAll piece).marks call =
      figures.map ((pen.afterAll piece).map, ·)) : Shows (piece ++ [call]) figures where
  reads pen := by
    rw [Pen.read_append, (plain hplain).reads, Pen.read, hmarks, (plain hplain).map]
    exact List.append_nil _
  map pen := by
    rw [Pen.afterAll_append, ← (plain hplain).map pen]
    exact congrArg Pen.map (hkeeps _)
  saved pen := by
    rw [Pen.afterAll_append, ← (plain hplain).saved pen]
    exact congrArg Pen.saved (hkeeps _)

theorem fill (hplain : ∀ call ∈ piece, call.IsPlain)
    (houtline : ∀ pen : Pen, (pen.afterAll piece).outline.filled = figures) :
    Shows (piece ++ [.fill]) figures :=
  marked hplain (fun _ ↦ rfl) fun pen ↦ by rw [Pen.marks, houtline]

theorem stroke (hplain : ∀ call ∈ piece, call.IsPlain)
    (houtline : ∀ pen : Pen,
      (pen.afterAll piece).outline.stroked (pen.afterAll piece).width = figures) :
    Shows (piece ++ [.stroke]) figures :=
  marked hplain (fun _ ↦ rfl) fun pen ↦ by rw [Pen.marks, houtline]

end Shows

/-! ### Paths -/

/-- The pen when an outline has been traced. -/
theorem afterAll_trace (pen : Pen) (p : Path) :
    pen.afterAll (trace p) = { pen with outline := .path p } := by
  have helements (q : Path) : ({ pen with outline := .path q } : Pen).afterAll (p.map ofElement) =
      { pen with outline := .path (q ++ p) } := by
    induction p generalizing q with
    | nil => rw [List.append_nil]; rfl
    | cons e p ih =>
      have hfirst : ({ pen with outline := .path q } : Pen).after (ofElement e) =
          { pen with outline := .path (q ++ [e]) } := by cases e <;> rfl
      rw [List.map_cons, Pen.afterAll, List.foldl_cons, hfirst]
      exact (ih (q ++ [e])).trans (by rw [List.append_assoc]; rfl)
  exact helements []

theorem isPlain_trace (p : Path) : ∀ call ∈ trace p, call.IsPlain := by
  intro call hcall
  rcases List.mem_cons.mp hcall with rfl | hcall
  · trivial
  · obtain ⟨e, -, rfl⟩ := List.mem_map.mp hcall
    cases e <;> trivial

theorem shows_curve (c : Curve) : Shows (trace c.path ++ [.stroke]) [.ofCurve c] :=
  .stroke (isPlain_trace c.path) fun pen ↦ by rw [afterAll_trace]; rfl

/-- A curve stroked among calls that set a style. -/
theorem shows_line {before after : Drawing} (hbefore : ∀ call ∈ before, call.IsPlain)
    (hafter : ∀ call ∈ after, call.IsPlain) (c : Curve) :
    Shows (before ++ trace c.path ++ .stroke :: after) [.ofCurve c] := by
  have h := ((shows_curve c).plain_append hbefore).append_plain hafter
  simpa only [List.append_assoc, List.cons_append, List.nil_append] using h

theorem shows_area (p : Path) : Shows (trace p ++ [.fill]) [.area p] :=
  .fill (isPlain_trace p) fun pen ↦ by rw [afterAll_trace]; rfl

/-- A disc with a ring around it is seen as the disc. -/
theorem shows_disc (c : Circle) (color line : String) :
    Shows (circle c ++ [.setFillStyle color, .fill, .setStrokeStyle line, .setLineWidth 2, .stroke])
      [.disc c] where
  reads pen := by
    simp [circle, Pen.read, Pen.marks, Pen.after, Outline.arc, Outline.filled, Outline.stroked]
  map pen := rfl
  saved pen := rfl

/-! ### The parts of a drawing -/

theorem shows_ofDot (theme : Theme) (n : Node) (kind : DotKind) :
    Shows (ofDot theme n kind) [.ofDot n kind] := shows_disc _ _ _

theorem shows_ofNode (theme : Theme) (n : Node) (selected : Bool) :
    Shows (ofNode theme n selected) (Figure.ofNode n selected) := by
  change Shows (_ ++ _ ++ _ ++ _ ++ _ ++ _ ++ ofDot theme n .input ++ ofDot theme n .output)
    ([.border (if selected then 2 else 1)] ++ [.ofDot n .input] ++ [.ofDot n .output])
  refine .append (.append (.append_plain ?_ ?_) (shows_ofDot theme n .input))
    (shows_ofDot theme n .output)
  · -- The card, its border and the label are a fixed number of calls.
    exact ⟨fun _ ↦ rfl, fun _ ↦ rfl, fun _ ↦ rfl⟩
  · split_ifs <;> simp [ContextCall.IsPlain]

theorem shows_ofTarget (fill line : String) (target : Circle) :
    Shows (ofTarget fill line target) [.disc target] :=
  (shows_disc target fill line).append_plain (by simp [ContextCall.IsPlain])

theorem shows_ofFlow (theme : Theme) (curve : Curve) :
    Shows (ofFlow theme curve) [.ofCurve curve] :=
  shows_line (by simp [ContextCall.IsPlain]) (by simp [ContextCall.IsPlain]) curve

theorem shows_ofLine (theme : Theme) (start stop : Point) :
    Shows (ofLine theme start stop) [.ofLine start stop] :=
  shows_line (by simp [ContextCall.IsPlain]) (by simp [ContextCall.IsPlain]) _

theorem shows_ofConnection (theme : Theme) (c : Connection) (hovered : Bool) :
    Shows (ofConnection theme c hovered) (Figure.ofConnection c hovered) := by
  have hline (color : String) (width : Float) :
      Shows ([.setStrokeStyle color, .setLineWidth width] ++
          (if c.isAnimating then [.setLineDash [5, 5]] else []) ++
            trace (Curve.ofConnection c).path ++ [.stroke, .setLineDash []])
        [.ofCurve (.ofConnection c)] :=
    shows_line (by cases c.isAnimating <;> simp [ContextCall.IsPlain])
      (by simp [ContextCall.IsPlain]) _
  have hflow : Shows (if c.showsFlow then ofFlow theme (.ofConnection c) else [])
      (if c.showsFlow then [.ofCurve (.ofConnection c)] else []) :=
    .ite (shows_ofFlow theme _) .nil
  have harrowhead (color : String) :
      Shows (if (Curve.ofConnection c).showsArrowhead then
          .setFillStyle color :: trace (Curve.ofConnection c).arrowhead ++ [.fill] else [])
        (if (Curve.ofConnection c).showsArrowhead then
          [.area (Curve.ofConnection c).arrowhead] else []) :=
    have hcolor : Shows [.setFillStyle color] [] := .plain (by simp [ContextCall.IsPlain])
    .ite (hcolor.append (shows_area _)) .nil
  have htarget (fill color : String) :
      Shows (((c.drawnTarget? hovered).map (ofTarget fill color)).getD [])
        ((c.drawnTarget? hovered).map Figure.disc).toList := by
    cases c.drawnTarget? hovered with
    | none => exact .nil
    | some target => exact shows_ofTarget fill color target
  unfold ofConnection
  dsimp only
  rw [c.drawnTarget?_map]
  exact .putAside ((((hline _ _).append hflow).append (harrowhead _)).append (htarget _ _))

/-- Neither the background nor the zoom level shows a figure. -/
theorem shows_ofGrid (theme : Theme) (t : Transform) (width height : Float) :
    Shows (ofGrid theme t width height) [] := by
  refine .plain fun call hcall ↦ ?_
  unfold ofGrid at hcall
  dsimp only at hcall
  split_ifs at hcall
  · exact absurd hcall List.not_mem_nil
  · rcases List.mem_cons.mp hcall with rfl | hcall
    · trivial
    · obtain ⟨p, -, rfl⟩ := List.mem_map.mp hcall
      trivial

theorem shows_ofZoomLevel (theme : Theme) (percent : Nat) (width height : Float) :
    Shows (ofZoomLevel theme percent width height) [] := ⟨fun _ ↦ rfl, fun _ ↦ rfl, fun _ ↦ rfl⟩

/-- Between a background and a foreground that show nothing, the canvas is seen under its map. -/
theorem figures_layers {background canvas foreground : Drawing} {shown : List Figure}
    (hbackground : Shows background []) (hcanvas : Shows canvas shown)
    (hforeground : Shows foreground []) (first m : Affine) :
    figures (.setTransform first :: background ++ [.save, .setTransform m] ++ canvas ++
      [.restore] ++ foreground) = shown.map (m, ·) := by
  have hmap :
      (Pen.afterAll {} (.setTransform first :: background ++ [.save, .setTransform m])).map =
        m := by
    rw [Pen.afterAll_append]
    rfl
  unfold figures
  rw [Pen.read_append, Pen.read_append, Pen.read_append, Pen.read_append, Pen.read,
    hbackground.reads, hcanvas.reads, hforeground.reads, hmap]
  simp only [Pen.read, Pen.marks, List.map_nil, List.append_nil, List.nil_append]

/-- A drawing shows the figures of its graph. -/
theorem figures_ofGraph (g : Graph) (t : Transform) (overlay : Overlay) (width height : Float)
    (showsGrid : Bool) (theme : Theme) :
    figures (ofGraph g t overlay width height showsGrid theme) =
      (Figure.ofGraph g overlay).map (t.matrix, ·) := by
  have hcanvas {line : Drawing} {drawn : List Figure} (hline : Shows line drawn) : Shows
      ((g.connections.flatMap fun c ↦ ofConnection theme c (overlay.hovered = some c.id)) ++
        (g.nodes.flatMap fun n ↦ ofNode theme n (overlay.selected = some n.id)) ++ line)
      ((g.connections.flatMap fun c ↦ Figure.ofConnection c (overlay.hovered = some c.id)) ++
        (g.nodes.flatMap fun n ↦ Figure.ofNode n (overlay.selected = some n.id)) ++ drawn) :=
    .append (.append (.flatMap (fun c ↦ shows_ofConnection theme c _) g.connections)
      (.flatMap (fun n ↦ shows_ofNode theme n _) g.nodes)) hline
  have hgrid : Shows (if showsGrid then ofGrid theme t width height else []) [] := by
    split_ifs
    · exact shows_ofGrid theme t width height
    · exact .nil
  have hlevel : Shows (if t.zoomPercent = 100 then []
      else ofZoomLevel theme t.zoomPercent width height) [] := by
    split_ifs
    · exact .nil
    · exact shows_ofZoomLevel theme _ width height
  have hbackground : Shows ([.setFillStyle theme.background, .fillRect ⟨0, 0⟩ width height] ++
      if showsGrid then ofGrid theme t width height else []) [] :=
    .plain_append (by simp [ContextCall.IsPlain]) hgrid
  -- The grid and the zoom level show nothing, so they are a background and a foreground.
  have hlayers {line : Drawing} {drawn : List Figure} (hline : Shows line drawn) :=
    figures_layers hbackground (hcanvas hline) hlevel (.scale 1) t.matrix
  simp only [List.append_assoc, List.cons_append, List.nil_append] at hlayers
  unfold ofGraph Figure.ofGraph
  simp only [List.append_assoc, List.cons_append, List.nil_append]
  cases overlay.line with
  | none => exact hlayers .nil
  | some ends => exact hlayers (shows_ofLine theme ends.1 ends.2)

end Drawing

/-- The two painters show the same figures, in the same order, for every graph, every transform and
whatever is selected, pointed at or being drawn. -/
theorem painters_agree (g : Graph) (t : Transform) (overlay : Overlay) (palette : Palette)
    (theme : Theme) (width height : Float) (showsGrid : Bool) :
    (Scene.ofGraph g t overlay palette).figures = (Figure.ofGraph g overlay).map (t.affine, ·) ∧
      (Drawing.ofGraph g t overlay width height showsGrid theme).figures =
        (Figure.ofGraph g overlay).map (t.matrix, ·) :=
  ⟨Scene.figures_ofGraph g t overlay palette,
    Drawing.figures_ofGraph g t overlay width height showsGrid theme⟩

/-- A line is drawn on a canvas without nodes, over the grid and beside the zoom level. -/
example :
    (Drawing.ofGraph (.empty .standard 1) ⟨⟨3, 4⟩, 2⟩ { line := some (⟨0, 0⟩, ⟨10, 20⟩) } 90 60
      true).figures = [(⟨2, 0, 0, 2, 3, 4⟩, .curve ⟨0, 0⟩ ⟨5, 10⟩ ⟨10, 20⟩)] := by
  decide +kernel

end LayerCanvas
