import LayerCanvas.Proofs.Json.Record
import LayerCanvas.Snapshot.Json
import Mathlib.Data.List.Forall2

/-!
What is read of what was written. Every number is read from the numeral that was written for it,
and a number without a numeral leaves nothing to be read. Texts come back whatever their characters
are, lists in their order, and a connection without the state of its animation. So a text gives a
snapshot if all of its numbers are readable, and then one that differs in numbers only.
-/

set_option autoImplicit false
set_option relaxedAutoImplicit false

namespace LayerCanvas

/-- A list is read if each of its items is. -/
theorem mapM_eq_some_iff {α β : Type} {read : α → Option β} {l : List α} {l' : List β} :
    l.mapM read = some l' ↔ List.Forall₂ (fun a b ↦ read a = some b) l l' := by
  induction l generalizing l' with
  | nil => simp [eq_comm]
  | cons a l ih =>
    simp only [List.mapM_cons, Option.bind_eq_bind, Option.bind_eq_some_iff, Option.pure_def,
      Option.some.injEq, List.forall₂_cons_left_iff, ih]
    constructor
    · rintro ⟨b, hb, bs, hbs, rfl⟩
      exact ⟨b, bs, hb, hbs, rfl⟩
    · rintro ⟨b, bs, hb, hbs, rfl⟩
      exact ⟨b, hb, bs, hbs, rfl⟩

theorem exists_of_forall₂_left {α β : Type} {r : α → β → Prop} {l : List α} {l' : List β}
    (h : List.Forall₂ r l l') {a : α} (ha : a ∈ l) : ∃ b ∈ l', r a b := by
  induction h with
  | nil => cases ha
  | cons hab _ ih =>
    rcases List.mem_cons.mp ha with rfl | ha
    · exact ⟨_, List.mem_cons_self, hab⟩
    · obtain ⟨b, hb, hr⟩ := ih ha
      exact ⟨b, List.mem_cons_of_mem _ hb, hr⟩

theorem exists_of_forall₂_right {α β : Type} {r : α → β → Prop} {l : List α} {l' : List β}
    (h : List.Forall₂ r l l') {b : β} (hb : b ∈ l') : ∃ a ∈ l, r a b :=
  exists_of_forall₂_left (r := flip r) h.flip hb

/-! ### Parameters -/

/-- What is read of a parameter. -/
def ParamValue.restored? : ParamValue → Option ParamValue
  | .number x => (Json.ofFloat x).toFloat?.map .number
  | .bool b => some (.bool b)
  | .text s => some (.text s)

/-- What is read of a named parameter. -/
def ParamValue.restoredEntry? (entry : String × ParamValue) : Option (String × ParamValue) :=
  entry.2.restored?.map fun value ↦ (entry.1, value)

/-- What is read of a set of parameters. -/
def Params.restored? (ps : Params) : Option Params :=
  (ps.entries.mapM ParamValue.restoredEntry?).map ofList

theorem ParamValue.wellFormed_toJson (v : ParamValue) : v.toJson.WellFormed := by
  cases v with
  | bool b => exact .bool b
  | number x => exact Json.wellFormed_ofFloat x
  | text s => exact Json.wellFormed_ofString s

theorem ParamValue.ofJson?_eq (v : ParamValue) : ofJson? v.toJson = v.restored? := by
  cases v with
  | bool b => rfl
  | text s => rfl
  | number x =>
    rw [toJson, restored?, Json.ofFloat]
    cases Decimal.ofFloat? x <;> rfl

namespace Params

theorem wellFormed_toJson (ps : Params) : ps.toJson.WellFormed := by
  refine Json.wellFormed_ofMembers fun m hm ↦ ?_
  obtain ⟨p, -, rfl⟩ := List.mem_map.mp hm
  exact p.2.wellFormed_toJson

theorem ofJson?_eq (ps : Params) : ofJson? ps.toJson = ps.restored? := by
  have hentries (entries : List (String × ParamValue)) :
      entriesOfJson? ((entries.map fun p ↦ (p.1, p.2.toJson)).map fun m ↦ (some m.1, m.2)) =
        entries.mapM ParamValue.restoredEntry? := by
    induction entries with
    | nil => rfl
    | cons p entries ih =>
      simp only [List.map_cons, entriesOfJson?, List.mapM_cons, ih, ParamValue.ofJson?_eq,
        Option.bind_eq_bind, Option.bind_some, ParamValue.restoredEntry?, Option.bind_map]
      rfl
  rw [toJson, Json.ofMembers, ofJson?, hentries, restored?]

end Params

/-! ### Layers and nodes -/

namespace Layer

/-- What is read of a layer. -/
def restored? (l : Layer) : Option Layer := l.params.restored?.map fun params ↦ { l with params }

/-- The members of a layer. -/
def members (l : Layer) : List (String × Json) := l.leadingMembers ++ l.trailingMembers

theorem wellFormed_members (l : Layer) : ∀ m ∈ l.members, m.2.WellFormed := by
  simp [members, leadingMembers, trailingMembers, Json.wellFormed_ofString,
    l.params.wellFormed_toJson]

/-- A layer is found among the fields of a record. -/
theorem ofRecord?_of_subset {l : Layer} {r : Record} (hnodup : (r.fields.map Prod.fst).Nodup)
    (hsubset : l.members ⊆ r.fields) : ofRecord? r = l.restored? := by
  simp only [members, leadingMembers, trailingMembers, List.cons_append, List.nil_append,
    List.cons_subset, List.nil_subset, and_true] at hsubset
  obtain ⟨htype, hlabel, hiconName, hcolor, hparams, hinputShape, houtputShape⟩ := hsubset
  simp only [ofRecord?, Record.required_of_mem hnodup _ htype,
    Record.required_of_mem hnodup _ hlabel, Record.optional_of_mem hnodup _ hiconName,
    Record.optional_of_mem hnodup _ hcolor, Record.optional_of_mem hnodup _ hparams,
    Record.optional_of_mem hnodup _ hinputShape, Record.optional_of_mem hnodup _ houtputShape,
    Params.ofJson?_eq, restored?]
  cases l.params.restored? <;> rfl

theorem parse?_render_eq (l : Layer) : parse? l.toJson.render = l.restored? := by
  have hjson : Json.parse? l.toJson.render = some l.toJson :=
    Json.parse?_render (Json.wellFormed_ofMembers l.wellFormed_members)
  have hnames : l.members.map Prod.fst = fieldNames := rfl
  obtain ⟨hrecord, hnodup⟩ := Record.ofJson?_ofMembers (hnames ▸ List.Sublist.refl fieldNames)
    (show fieldNames.Nodup by decide)
  rw [parse?, hjson, Option.bind_some, ofJson?, toJson, ← members, hrecord, Option.bind_some]
  exact ofRecord?_of_subset hnodup (List.Subset.refl _)

end Layer

namespace Node

/-- What is read of a node. -/
def restored? (n : Node) : Option Node := do
  let layer ← n.layer.restored?
  let x ← (Json.ofFloat32 n.origin.x).toFloat32?
  let y ← (Json.ofFloat32 n.origin.y).toFloat32?
  let width ← (Json.ofFloat32 n.width).toFloat32?
  let height ← (Json.ofFloat32 n.height).toFloat32?
  pure { id := n.id, layer, origin := ⟨x, y⟩, width, height }

theorem wellFormed_toJson (n : Node) : n.toJson.WellFormed := by
  refine Json.wellFormed_ofMembers ?_
  simp [members, Layer.leadingMembers, Layer.trailingMembers, Json.wellFormed_ofString,
    Json.wellFormed_ofFloat32, n.layer.params.wellFormed_toJson]

theorem ofJson?_eq (n : Node) : ofJson? n.toJson = n.restored? := by
  let r : Record := ⟨n.members .ofFloat32⟩
  have hnames : r.fields.map Prod.fst = fieldNames := rfl
  obtain ⟨hrecord, hnodup⟩ := Record.ofJson?_ofMembers (hnames ▸ List.Sublist.refl fieldNames)
    (show fieldNames.Nodup by decide)
  change Record.ofJson? fieldNames n.toJson = some r at hrecord
  have hid : r.required "id" Json.toString? = some n.id.text :=
    Record.required_of_mem hnodup Json.toString? List.mem_cons_self
  have hlayer : Layer.ofRecord? r = n.layer.restored? := by
    refine Layer.ofRecord?_of_subset hnodup fun m hm ↦ ?_
    simp only [Layer.members, List.mem_append] at hm
    simp only [r, members, List.cons_append, List.mem_cons, List.mem_append]
    tauto
  have hnumber (name : String) (x : Float32) (hmem : (name, Json.ofFloat32 x) ∈ r.fields) :
      r.required name Json.toFloat32? = (Json.ofFloat32 x).toFloat32? :=
    Record.required_of_mem hnodup Json.toFloat32? hmem
  have hx := hnumber "x" n.origin.x (by simp [r, members])
  have hy := hnumber "y" n.origin.y (by simp [r, members])
  have hwidth := hnumber "width" n.width (by simp [r, members])
  have hheight := hnumber "height" n.height (by simp [r, members])
  simp only [ofJson?, hrecord, hid, hlayer, hx, hy, hwidth, hheight, Option.bind_eq_bind,
    Option.bind_some, restored?]

end Node

/-! ### Connections and snapshots -/

namespace Connection

/-- What is read of a connection. -/
def restored? (c : Connection) : Option Connection := do
  let fromX ← (Json.ofFloat32 c.start.x).toFloat32?
  let fromY ← (Json.ofFloat32 c.start.y).toFloat32?
  let toX ← (Json.ofFloat32 c.stop.x).toFloat32?
  let toY ← (Json.ofFloat32 c.stop.y).toFloat32?
  pure { c.settled with start := ⟨fromX, fromY⟩, stop := ⟨toX, toY⟩ }

/-- The members of a connection. -/
def members (c : Connection) : List (String × Json) :=
  [("id", .ofString c.id.text), ("from", .ofString c.source.text),
    ("to", .ofString c.target.text), ("fromX", .ofFloat32 c.start.x),
    ("fromY", .ofFloat32 c.start.y), ("toX", .ofFloat32 c.stop.x), ("toY", .ofFloat32 c.stop.y)]

theorem wellFormed_toJson (c : Connection) : c.toJson.WellFormed := by
  refine Json.wellFormed_ofMembers ?_
  simp [Json.wellFormed_ofString, Json.wellFormed_ofFloat32]

theorem ofJson?_eq (c : Connection) : ofJson? c.toJson = c.restored? := by
  let r : Record := ⟨c.members⟩
  have hnames : r.fields.map Prod.fst = fieldNames.take 7 := rfl
  obtain ⟨hrecord, hnodup⟩ := Record.ofJson?_ofMembers (hnames ▸ List.take_sublist 7 fieldNames)
    (show fieldNames.Nodup by decide)
  change Record.ofJson? fieldNames c.toJson = some r at hrecord
  have htext {name text : String} (hmem : (name, Json.ofString text) ∈ r.fields) :
      r.required name Json.toString? = some text :=
    Record.required_of_mem hnodup Json.toString? hmem
  have hnumber (name : String) (x : Float32) (hmem : (name, Json.ofFloat32 x) ∈ r.fields) :
      r.required name Json.toFloat32? = (Json.ofFloat32 x).toFloat32? :=
    Record.required_of_mem hnodup Json.toFloat32? hmem
  have hid : r.required "id" Json.toString? = some c.id.text := htext (by simp [r, members])
  have hsource : r.required "from" Json.toString? = some c.source.text :=
    htext (by simp [r, members])
  have htarget : r.required "to" Json.toString? = some c.target.text :=
    htext (by simp [r, members])
  have hfromX := hnumber "fromX" c.start.x (by simp [r, members])
  have hfromY := hnumber "fromY" c.start.y (by simp [r, members])
  have htoX := hnumber "toX" c.stop.x (by simp [r, members])
  have htoY := hnumber "toY" c.stop.y (by simp [r, members])
  have hanimating : r.optional "isAnimating" Json.toBool? false = some false :=
    Record.optional_of_notMem _ (by simp [r, members]) _
  have hdeleting : r.optional "isDeleting" Json.toBool? false = some false :=
    Record.optional_of_notMem _ (by simp [r, members]) _
  have hprogress : r.optional "animationProgress" Json.toFloat32? 1 = some 1 :=
    Record.optional_of_notMem _ (by simp [r, members]) _
  simp only [ofJson?, hrecord, hid, hsource, htarget, hfromX, hfromY, htoX, htoY, hanimating,
    hdeleting, hprogress, Option.bind_eq_bind, Option.bind_some, restored?]
  rfl

end Connection

namespace Snapshot

/-- What is read of a snapshot. -/
def restored? (s : Snapshot) : Option Snapshot := do
  let nodes ← s.nodes.mapM Node.restored?
  let connections ← s.connections.mapM Connection.restored?
  pure { nodes, connections }

theorem wellFormed_toJson (s : Snapshot) : s.toJson.WellFormed := by
  have hnodes : (Json.array (s.nodes.map Node.toJson)).WellFormed :=
    .array (by simp [Node.wellFormed_toJson])
  have hconnections : (Json.array (s.connections.map Connection.toJson)).WellFormed :=
    .array (by simp [Connection.wellFormed_toJson])
  exact Json.wellFormed_ofMembers (by simp [hnodes, hconnections])

theorem parse?_render_eq (s : Snapshot) : parse? s.render = s.restored? := by
  let r : Record :=
    ⟨[("nodes", .array (s.nodes.map Node.toJson)),
      ("connections", .array (s.connections.map Connection.toJson))]⟩
  have hnames : r.fields.map Prod.fst = fieldNames := rfl
  obtain ⟨hrecord, hnodup⟩ := Record.ofJson?_ofMembers (hnames ▸ List.Sublist.refl fieldNames)
    (show fieldNames.Nodup by decide)
  change Record.ofJson? fieldNames s.toJson = some r at hrecord
  have hnodes : r.optional "nodes" (Json.toList? Node.ofJson?) [] =
      s.nodes.mapM Node.restored? := by
    rw [Record.optional_of_mem hnodup _ List.mem_cons_self, Json.toList?, List.mapM_map]
    exact congrArg (s.nodes.mapM ·) (funext Node.ofJson?_eq)
  have hconnections : r.optional "connections" (Json.toList? Connection.ofJson?) [] =
      s.connections.mapM Connection.restored? := by
    rw [Record.optional_of_mem hnodup _ (List.mem_cons_of_mem _ List.mem_cons_self), Json.toList?,
      List.mapM_map]
    exact congrArg (s.connections.mapM ·) (funext Connection.ofJson?_eq)
  rw [parse?, render, Json.parse?_render s.wellFormed_toJson, Option.bind_some]
  simp only [ofJson?, hrecord, hnodes, hconnections, Option.bind_eq_bind, Option.bind_some,
    restored?]

end Snapshot

end LayerCanvas
