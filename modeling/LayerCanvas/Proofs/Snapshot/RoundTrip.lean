import LayerCanvas.Proofs.Snapshot.Lasting
import LayerCanvas.Proofs.Snapshot.Restored

/-!
Reading undoes writing, for parameters, layers and whole snapshots. Texts come back whatever their
characters are, parameters with their kinds and under their names, lists in their order. A number
comes back if the numeral that is written for it stands for it, which is asked of the numbers that
occur and of no others. What is not written of a connection, the state of its animation, comes back
at rest.
-/

set_option autoImplicit false
set_option relaxedAutoImplicit false

namespace LayerCanvas

/-! ### Numbers -/

/-- The doubles of a parameter. -/
def ParamValue.doubles : ParamValue → List Float
  | .number x => [x]
  | .bool _ | .text _ => []

/-- The doubles of a set of parameters. -/
def Params.doubles (ps : Params) : List Float := ps.entries.flatMap fun p ↦ p.2.doubles

/-- The single-precision numbers of a node. -/
def Node.singles (n : Node) : List Float32 := [n.origin.x, n.origin.y, n.width, n.height]

/-- The single-precision numbers of a connection that are written. -/
def Connection.singles (c : Connection) : List Float32 :=
  [c.start.x, c.start.y, c.stop.x, c.stop.y]

namespace Snapshot

/-- The single-precision numbers that are written of a snapshot. -/
def singles (s : Snapshot) : List Float32 :=
  s.nodes.flatMap Node.singles ++ s.connections.flatMap Connection.singles

/-- The doubles of a snapshot. -/
def doubles (s : Snapshot) : List Float := s.nodes.flatMap fun n ↦ n.layer.params.doubles

end Snapshot

namespace Json

/-- The numeral that is written for a double stands for it. -/
def ReadsBack (x : Float) : Prop := (ofFloat x).toFloat? = some x

/-- The numeral that is written for a single-precision number stands for it. -/
def ReadsBack32 (x : Float32) : Prop := (ofFloat32 x).toFloat32? = some x

instance (x : Float) : Decidable (ReadsBack x) := inferInstanceAs (Decidable (_ = _))

instance (x : Float32) : Decidable (ReadsBack32 x) := inferInstanceAs (Decidable (_ = _))

-- Reading rounds more than once, so there are doubles that come back as one of their neighbours.
example : ¬ReadsBack (1 / 997) := by decide +kernel

/-- All of the numbers are finite. -/
def AllFinite (singles : List Float32) (doubles : List Float) : Prop :=
  (∀ x ∈ singles, Scalar.isFinite x = true) ∧ ∀ x ∈ doubles, Scalar.isFinite x = true

/-- Each of the numbers that is finite is read back from its numeral. -/
def AllReadBack (singles : List Float32) (doubles : List Float) : Prop :=
  (∀ x ∈ singles, Scalar.isFinite x = true → ReadsBack32 x) ∧
    ∀ x ∈ doubles, Scalar.isFinite x = true → ReadsBack x

instance (singles : List Float32) (doubles : List Float) : Decidable (AllFinite singles doubles) :=
  inferInstanceAs (Decidable (_ ∧ _))

instance (singles : List Float32) (doubles : List Float) :
    Decidable (AllReadBack singles doubles) :=
  inferInstanceAs (Decidable (_ ∧ _))

end Json

/-! ### Parameters -/

theorem ParamValue.restored?_eq_some {v : ParamValue} (h : ∀ x ∈ v.doubles, Json.ReadsBack x) :
    v.restored? = some v := by
  cases v with
  | bool b => rfl
  | text s => rfl
  | number x =>
    have hx : (Json.ofFloat x).toFloat? = some x := h x List.mem_cons_self
    rw [restored?, hx, Option.map_some]

namespace Params

theorem insertEntry_of_forall_lt {R : Type} {name : String} {value : ParamValue R}
    {entries : List (String × ParamValue R)} (h : ∀ entry ∈ entries, entry.1 < name) :
    insertEntry name value entries = entries ++ [(name, value)] := by
  induction entries with
  | nil => rfl
  | cons entry entries ih =>
    have hlt : entry.1 < name := h entry List.mem_cons_self
    have hne : ¬name = entry.1 := fun hsame ↦ String.lt_irrefl name (hsame ▸ hlt)
    rw [insertEntry, if_neg (String.lt_asymm hlt), if_neg hne,
      ih fun other hother ↦ h other (List.mem_cons_of_mem entry hother), List.cons_append]

theorem foldl_insert {R : Type} (entries : List (String × ParamValue R)) (ps : Params R)
    (h : (ps.entries ++ entries).Pairwise fun a b ↦ a.1 < b.1) :
    (entries.foldl (fun ps entry ↦ ps.insert entry.1 entry.2) ps).entries =
      ps.entries ++ entries := by
  induction entries generalizing ps with
  | nil => simp
  | cons entry entries ih =>
    have hinsert : (ps.insert entry.1 entry.2).entries = ps.entries ++ [entry] :=
      insertEntry_of_forall_lt fun other hother ↦
        (List.pairwise_append.mp h).2.2 other hother entry List.mem_cons_self
    rw [List.foldl_cons, ih, hinsert, List.append_assoc, List.singleton_append]
    rwa [hinsert, List.append_assoc, List.singleton_append]

/-- Parameters are restored from their entries. -/
theorem ofList_entries {R : Type} (ps : Params R) : ofList ps.entries = ps := by
  have hentries : (ofList ps.entries).entries = ps.entries :=
    foldl_insert ps.entries .empty ps.sorted
  cases hofList : ofList ps.entries
  cases ps
  simp_all

theorem restored?_eq_some {ps : Params} (h : ∀ x ∈ ps.doubles, Json.ReadsBack x) :
    ps.restored? = some ps := by
  have hentries : ps.entries.mapM ParamValue.restoredEntry? = some ps.entries := by
    refine mapM_eq_some_iff.mpr (List.forall₂_same.mpr fun p hp ↦ ?_)
    have hvalue : p.2.restored? = some p.2 :=
      ParamValue.restored?_eq_some fun x hx ↦ h x (List.mem_flatMap.mpr ⟨p, hp, hx⟩)
    rw [ParamValue.restoredEntry?, hvalue, Option.map_some]
  rw [restored?, hentries, Option.map_some, ofList_entries]

end Params

/-! ### Layers, nodes and connections -/

theorem Layer.restored?_eq_some {l : Layer} (h : ∀ x ∈ l.params.doubles, Json.ReadsBack x) :
    l.restored? = some l := by
  rw [restored?, Params.restored?_eq_some h, Option.map_some]

theorem Layer.parse?_render {l : Layer} (h : ∀ x ∈ l.params.doubles, Json.ReadsBack x) :
    parse? l.toJson.render = some l := by
  rw [parse?_render_eq, restored?_eq_some h]

theorem Node.restored?_eq_some {n : Node} (hsingles : ∀ x ∈ n.singles, Json.ReadsBack32 x)
    (hdoubles : ∀ x ∈ n.layer.params.doubles, Json.ReadsBack x) : n.restored? = some n := by
  have hnumber {x : Float32} (hx : x ∈ n.singles) : (Json.ofFloat32 x).toFloat32? = some x :=
    hsingles x hx
  rw [restored?, Layer.restored?_eq_some hdoubles, hnumber (x := n.origin.x) (by simp [singles]),
    hnumber (x := n.origin.y) (by simp [singles]), hnumber (x := n.width) (by simp [singles]),
    hnumber (x := n.height) (by simp [singles])]
  rfl

/-- A connection is read without the state of its animation. -/
theorem Connection.restored?_eq_some {c : Connection} (h : ∀ x ∈ c.singles, Json.ReadsBack32 x) :
    c.restored? = some c.settled := by
  have hnumber {x : Float32} (hx : x ∈ c.singles) : (Json.ofFloat32 x).toFloat32? = some x := h x hx
  rw [restored?, hnumber (x := c.start.x) (by simp [singles]),
    hnumber (x := c.start.y) (by simp [singles]), hnumber (x := c.stop.x) (by simp [singles]),
    hnumber (x := c.stop.y) (by simp [singles])]
  rfl

/-! ### Snapshots -/

namespace Snapshot

/-- A snapshot is read with its connections at rest. -/
theorem parse?_render {s : Snapshot} (hsingles : ∀ x ∈ s.singles, Json.ReadsBack32 x)
    (hdoubles : ∀ x ∈ s.doubles, Json.ReadsBack x) :
    parse? s.render = some { s with connections := s.connections.map Connection.settled } := by
  have hnodes : s.nodes.mapM Node.restored? = some s.nodes :=
    mapM_eq_some_iff.mpr (List.forall₂_same.mpr fun n hn ↦ Node.restored?_eq_some
      (fun x hx ↦ hsingles x (List.mem_append_left _ (List.mem_flatMap.mpr ⟨n, hn, hx⟩)))
      fun x hx ↦ hdoubles x (List.mem_flatMap.mpr ⟨n, hn, hx⟩))
  have hconnections : s.connections.mapM Connection.restored? =
      some (s.connections.map Connection.settled) := by
    refine mapM_eq_some_iff.mpr (List.forall₂_map_right_iff.mpr (List.forall₂_same.mpr ?_))
    exact fun c hc ↦ Connection.restored?_eq_some fun x hx ↦
      hsingles x (List.mem_append_right _ (List.mem_flatMap.mpr ⟨c, hc, hx⟩))
  rw [parse?_render_eq, restored?, hnodes, hconnections]
  rfl

/-- Writing a snapshot that was read gives the text again. -/
theorem render_settled (s : Snapshot) :
    render { s with connections := s.connections.map Connection.settled } = s.render :=
  render_of_outlines rfl (by rw [List.map_map]; rfl)

end Snapshot

/-- In each of the three formats reading undoes writing, as long as the numbers are finite and each
of them is read back from its own numeral: a snapshot comes back with its connections at rest and
with nothing else changed, so that writing it again gives the same text, a layer comes back as it
was, and so does a parameter. -/
theorem formats_round_trip :
    (∀ s : Snapshot, Json.AllFinite s.singles s.doubles → Json.AllReadBack s.singles s.doubles →
      Snapshot.parse? s.render =
          some { s with connections := s.connections.map Connection.settled } ∧
        (Snapshot.parse? s.render).map Snapshot.render = some s.render) ∧
      (∀ l : Layer, Json.AllFinite [] l.params.doubles → Json.AllReadBack [] l.params.doubles →
        Layer.parse? l.toJson.render = some l) ∧
        ∀ v : ParamValue, Json.AllFinite [] v.doubles → Json.AllReadBack [] v.doubles →
          (Json.parse? v.toJson.render).bind ParamValue.ofJson? = some v := by
  refine ⟨fun s hfinite hread ↦ ?_, fun l hfinite hread ↦ ?_, fun v hfinite hread ↦ ?_⟩
  · have hparse : Snapshot.parse? s.render =
        some { s with connections := s.connections.map Connection.settled } :=
      Snapshot.parse?_render (fun x hx ↦ hread.1 x hx (hfinite.1 x hx))
        fun x hx ↦ hread.2 x hx (hfinite.2 x hx)
    exact ⟨hparse, by rw [hparse, Option.map_some, s.render_settled]⟩
  · exact Layer.parse?_render fun x hx ↦ hread.2 x hx (hfinite.2 x hx)
  · rw [Json.parse?_render v.wellFormed_toJson, Option.bind_some, ParamValue.ofJson?_eq]
    exact ParamValue.restored?_eq_some fun x hx ↦ hread.2 x hx (hfinite.2 x hx)

/-- Two nodes, the first with a name that must be escaped and with a parameter of each kind, and a
connection between them that is appearing. -/
theorem formats_round_trip_escaped :
    ∃ (s : Snapshot) (l : Layer), s.nodes.map Node.layer = [l, l] ∧
      s.connections.map Connection.isAnimating = [true] ∧
        l.params.entries.map (fun p ↦ p.2.kind) = [.bool, .number, .text] ∧
          Snapshot.parse? s.render =
              some { s with connections := s.connections.map Connection.settled } ∧
            (Snapshot.parse? s.render).map Snapshot.render = some s.render ∧
              Layer.parse? l.toJson.render = some l ∧
                (Json.parse? (ParamValue.number 0.5).toJson.render).bind ParamValue.ofJson? =
                  some (.number 0.5) := by
  let params : Params :=
    ⟨[("bias", .bool true), ("dropout", .number 0.5), ("note", .text "é\n")], by decide⟩
  let l : Layer := ⟨"Dense", "\"Dense\" \\ 1", "", "", params, "[784]", "[128]"⟩
  let node (text : String) (y : Float32) : Node := ⟨⟨text⟩, l, ⟨-120.25, y⟩, 140, 86⟩
  let s : Snapshot :=
    ⟨[node "a\t\x01" 0, node "b" 200],
      [⟨⟨"conn-1"⟩, ⟨"a\t\x01"⟩, ⟨"b"⟩, ⟨-50.25, 86⟩, ⟨-50.25, 200⟩, true, false, 0.25⟩]⟩
  let v : ParamValue := .number 0.5
  have hfinite : Json.AllFinite s.singles s.doubles := by decide +kernel
  have hread : Json.AllReadBack s.singles s.doubles := by decide +kernel
  have hfinite' : Json.AllFinite [] l.params.doubles := by decide +kernel
  have hread' : Json.AllReadBack [] l.params.doubles := by decide +kernel
  have hfinite'' : Json.AllFinite [] v.doubles := by decide +kernel
  have hread'' : Json.AllReadBack [] v.doubles := by decide +kernel
  obtain ⟨hsnapshot, hlayer, hparam⟩ := formats_round_trip
  obtain ⟨hparse, hagain⟩ := hsnapshot s hfinite hread
  exact ⟨s, l, rfl, rfl, rfl, hparse, hagain, hlayer l hfinite' hread', hparam v hfinite'' hread''⟩

end LayerCanvas
