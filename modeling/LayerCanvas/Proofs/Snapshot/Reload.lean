import LayerCanvas.Proofs.Decimal.Readable
import LayerCanvas.Proofs.Graph.Nodes
import LayerCanvas.Proofs.Snapshot.Load
import LayerCanvas.Proofs.Snapshot.Readable

/-!
Reading a saved text again. A snapshot of finite numbers is read as one with the same names, the
same connections and perhaps other numbers, which are finite and positive where they were before;
so if it was sound, what is read of it is sound and can be loaded. Nothing is read of any other
snapshot.
-/

set_option autoImplicit false
set_option relaxedAutoImplicit false

namespace LayerCanvas

theorem exists_mapM_eq_some {α β : Type} {read : α → Option β} {r : α → β → Prop} {l : List α}
    (h : ∀ a ∈ l, ∃ b, read a = some b ∧ r a b) :
    ∃ l', l.mapM read = some l' ∧ List.Forall₂ r l l' := by
  induction l with
  | nil => exact ⟨[], rfl, .nil⟩
  | cons a l ih =>
    obtain ⟨b, hb, hr⟩ := h a List.mem_cons_self
    obtain ⟨bs, hbs, hrs⟩ := ih fun other hother ↦ h other (List.mem_cons_of_mem _ hother)
    exact ⟨b :: bs, by simp [hb, hbs], .cons hr hrs⟩

theorem map_eq_of_forall₂ {α β : Type} {f : α → β} {l l' : List α}
    (h : List.Forall₂ (fun a b ↦ f b = f a) l l') : l'.map f = l.map f := by
  induction h with
  | nil => rfl
  | cons hab _ ih => rw [List.map_cons, List.map_cons, hab, ih]

/-! ### Parameters -/

theorem ParamValue.exists_restored? {v : ParamValue}
    (h : ∀ x ∈ v.doubles, Scalar.isFinite x = true) : ∃ v', v.restored? = some v' := by
  cases v with
  | bool b => exact ⟨_, rfl⟩
  | text s => exact ⟨_, rfl⟩
  | number x =>
    obtain ⟨y, hy⟩ := Json.exists_toFloat? (h x List.mem_cons_self)
    exact ⟨.number y, by rw [restored?, hy, Option.map_some]⟩

theorem ParamValue.isFinite_of_restored? {v v' : ParamValue} (h : v.restored? = some v') :
    ∀ x ∈ v.doubles, Scalar.isFinite x = true := by
  cases v with
  | bool b => exact nofun
  | text s => exact nofun
  | number x =>
    obtain ⟨y, hy, -⟩ := Option.map_eq_some_iff.mp h
    intro z hz
    rw [List.mem_singleton.mp hz]
    exact Json.isFinite_of_toFloat? hy

theorem Layer.exists_restored? {l : Layer}
    (h : ∀ x ∈ l.params.doubles, Scalar.isFinite x = true) : ∃ l', l.restored? = some l' := by
  have hentry : ∀ p ∈ l.params.entries, ∃ p', ParamValue.restoredEntry? p = some p' ∧ True := by
    intro p hp
    obtain ⟨v, hv⟩ := ParamValue.exists_restored? fun x hx ↦ h x (List.mem_flatMap.mpr ⟨p, hp, hx⟩)
    exact ⟨(p.1, v), by rw [ParamValue.restoredEntry?, hv, Option.map_some], trivial⟩
  obtain ⟨entries, hentries, -⟩ := exists_mapM_eq_some hentry
  exact ⟨_, by rw [restored?, Params.restored?, hentries, Option.map_some, Option.map_some]⟩

theorem Layer.isFinite_of_restored? {l l' : Layer} (h : l.restored? = some l') :
    ∀ x ∈ l.params.doubles, Scalar.isFinite x = true := by
  obtain ⟨params, hparams, -⟩ := Option.map_eq_some_iff.mp h
  obtain ⟨entries, hentries, -⟩ := Option.map_eq_some_iff.mp hparams
  intro x hx
  obtain ⟨p, hp, hx⟩ := List.mem_flatMap.mp hx
  obtain ⟨p', -, hread⟩ := exists_of_forall₂_left (mapM_eq_some_iff.mp hentries) hp
  obtain ⟨v, hv, -⟩ := Option.map_eq_some_iff.mp hread
  exact ParamValue.isFinite_of_restored? hv x hx

/-! ### Nodes and connections -/

/-- A node with the same name, of a valid geometry if the other one is. -/
structure Node.Succeeds (n n' : Node) : Prop where
  id_eq : n'.id = n.id
  valid : n.hasValidGeometry = true → n'.hasValidGeometry = true

theorem Node.exists_restored? {n : Node} (hsingles : ∀ x ∈ n.singles, Scalar.isFinite x = true)
    (hdoubles : ∀ x ∈ n.layer.params.doubles, Scalar.isFinite x = true) :
    ∃ n', n.restored? = some n' ∧ n.Succeeds n' := by
  simp only [singles, List.forall_mem_cons] at hsingles
  obtain ⟨layer, hlayer⟩ := Layer.exists_restored? hdoubles
  obtain ⟨x, hx, hxfinite, -⟩ := Json.exists_toFloat32? hsingles.1
  obtain ⟨y, hy, hyfinite, -⟩ := Json.exists_toFloat32? hsingles.2.1
  obtain ⟨width, hwidth, -, hwidthpos⟩ := Json.exists_toFloat32? hsingles.2.2.1
  obtain ⟨height, hheight, -, hheightpos⟩ := Json.exists_toFloat32? hsingles.2.2.2.1
  refine ⟨⟨n.id, layer, ⟨x, y⟩, width, height⟩, ?_, rfl, fun hvalid ↦ ?_⟩
  · rw [restored?, hlayer, hx, hy, hwidth, hheight]
    rfl
  · obtain ⟨-, hpositive⟩ := Node.hasValidGeometry_iff.mp hvalid
    exact Node.hasValidGeometry_iff.mpr ⟨Bool.and_eq_true_iff.mpr ⟨hxfinite, hyfinite⟩,
      hwidthpos hpositive.1, hheightpos hpositive.2⟩

theorem Node.isFinite_of_restored? {n n' : Node} (h : n.restored? = some n') :
    (∀ x ∈ n.singles, Scalar.isFinite x = true) ∧
      ∀ x ∈ n.layer.params.doubles, Scalar.isFinite x = true := by
  simp only [restored?, Option.bind_eq_bind, Option.bind_eq_some_iff] at h
  obtain ⟨layer, hlayer, x, hx, y, hy, width, hwidth, height, hheight, -⟩ := h
  refine ⟨?_, Layer.isFinite_of_restored? hlayer⟩
  simp only [singles, List.forall_mem_cons]
  exact ⟨Json.isFinite_of_toFloat32? hx, Json.isFinite_of_toFloat32? hy,
    Json.isFinite_of_toFloat32? hwidth, Json.isFinite_of_toFloat32? hheight,
    List.forall_mem_nil _⟩

theorem Connection.exists_restored? {c : Connection}
    (h : ∀ x ∈ c.singles, Scalar.isFinite x = true) :
    ∃ c', c.restored? = some c' ∧ c'.link = c.link := by
  simp only [singles, List.forall_mem_cons] at h
  obtain ⟨fromX, hfromX, -⟩ := Json.exists_toFloat32? h.1
  obtain ⟨fromY, hfromY, -⟩ := Json.exists_toFloat32? h.2.1
  obtain ⟨toX, htoX, -⟩ := Json.exists_toFloat32? h.2.2.1
  obtain ⟨toY, htoY, -⟩ := Json.exists_toFloat32? h.2.2.2.1
  refine ⟨{ c.settled with start := ⟨fromX, fromY⟩, stop := ⟨toX, toY⟩ }, ?_, rfl⟩
  rw [restored?, hfromX, hfromY, htoX, htoY]
  rfl

theorem Connection.isFinite_of_restored? {c c' : Connection} (h : c.restored? = some c') :
    ∀ x ∈ c.singles, Scalar.isFinite x = true := by
  simp only [restored?, Option.bind_eq_bind, Option.bind_eq_some_iff] at h
  obtain ⟨fromX, hfromX, fromY, hfromY, toX, htoX, toY, htoY, -⟩ := h
  simp only [singles, List.forall_mem_cons]
  exact ⟨Json.isFinite_of_toFloat32? hfromX, Json.isFinite_of_toFloat32? hfromY,
    Json.isFinite_of_toFloat32? htoX, Json.isFinite_of_toFloat32? htoY,
    List.forall_mem_nil _⟩

/-! ### Snapshots -/

namespace Snapshot

theorem allFinite_of_restored? {s s' : Snapshot} (h : s.restored? = some s') :
    Json.AllFinite s.singles s.doubles := by
  simp only [restored?, Option.bind_eq_bind, Option.bind_eq_some_iff] at h
  obtain ⟨nodes, hnodes, connections, hconnections, -⟩ := h
  have hnode : ∀ n ∈ s.nodes, (∀ x ∈ n.singles, Scalar.isFinite x = true) ∧
      ∀ x ∈ n.layer.params.doubles, Scalar.isFinite x = true := fun n hn ↦ by
    obtain ⟨n', -, hread⟩ := exists_of_forall₂_left (mapM_eq_some_iff.mp hnodes) hn
    exact Node.isFinite_of_restored? hread
  constructor
  · intro x hx
    rcases List.mem_append.mp hx with hx | hx
    · obtain ⟨n, hn, hx⟩ := List.mem_flatMap.mp hx
      exact (hnode n hn).1 x hx
    · obtain ⟨c, hc, hx⟩ := List.mem_flatMap.mp hx
      obtain ⟨c', -, hread⟩ := exists_of_forall₂_left (mapM_eq_some_iff.mp hconnections) hc
      exact Connection.isFinite_of_restored? hread x hx
  · intro x hx
    obtain ⟨n, hn, hx⟩ := List.mem_flatMap.mp hx
    exact (hnode n hn).2 x hx

/-- What is read of a sound snapshot is sound. -/
theorem Sound.of_forall₂ {s s' : Snapshot} (h : s.Sound)
    (hnodes : List.Forall₂ Node.Succeeds s.nodes s'.nodes)
    (hconnections : List.Forall₂ (fun c c' ↦ c'.link = c.link) s.connections s'.connections) :
    s'.Sound := by
  have hids : s'.nodes.map Node.id = s.nodes.map Node.id :=
    map_eq_of_forall₂ (hnodes.imp fun _ _ hsucceeds ↦ hsucceeds.id_eq)
  have hconnectionIds : s'.connections.map Connection.id = s.connections.map Connection.id :=
    map_eq_of_forall₂ (hconnections.imp fun _ _ hlink ↦ congrArg Prod.fst hlink)
  have hends : s'.connections.map Connection.ends = s.connections.map Connection.ends :=
    map_eq_of_forall₂ (hconnections.imp fun _ _ hlink ↦ congrArg Prod.snd hlink)
  have hlink {c' : Connection} (hc' : c' ∈ s'.connections) :
      ∃ c ∈ s.connections, c'.link = c.link := exists_of_forall₂_right hconnections hc'
  constructor
  · rw [hids]
    exact h.nodeIds_nodup
  · intro n' hn'
    obtain ⟨n, hn, hsucceeds⟩ := exists_of_forall₂_right hnodes hn'
    exact hsucceeds.valid (h.valid n hn)
  · rw [hconnectionIds]
    exact h.connectionIds_nodup
  · intro c' hc'
    obtain ⟨c, hc, hsame⟩ := hlink hc'
    rw [show c'.source = c.source from congrArg (fun link ↦ link.2.1) hsame,
      show c'.target = c.target from congrArg (fun link ↦ link.2.2) hsame]
    exact h.source_ne_target c hc
  · intro c' hc'
    obtain ⟨c, hc, hsame⟩ := hlink hc'
    rw [hids, show c'.source = c.source from congrArg (fun link ↦ link.2.1) hsame]
    exact h.source_mem c hc
  · intro c' hc'
    obtain ⟨c, hc, hsame⟩ := hlink hc'
    rw [hids, show c'.target = c.target from congrArg (fun link ↦ link.2.2) hsame]
    exact h.target_mem c hc
  · rw [hends]
    exact h.ends_nodup

/-- A sound snapshot of finite numbers is read again, as one that is sound. -/
theorem exists_parse?_render {s : Snapshot} (hfinite : Json.AllFinite s.singles s.doubles)
    (hsound : s.Sound) : ∃ s', parse? s.render = some s' ∧ s'.Sound := by
  have hnode : ∀ n ∈ s.nodes, ∃ n', n.restored? = some n' ∧ n.Succeeds n' := fun n hn ↦
    Node.exists_restored?
      (fun x hx ↦ hfinite.1 x (List.mem_append_left _ (List.mem_flatMap.mpr ⟨n, hn, hx⟩)))
      fun x hx ↦ hfinite.2 x (List.mem_flatMap.mpr ⟨n, hn, hx⟩)
  have hconnection : ∀ c ∈ s.connections, ∃ c', c.restored? = some c' ∧ c'.link = c.link :=
    fun c hc ↦ Connection.exists_restored? fun x hx ↦
      hfinite.1 x (List.mem_append_right _ (List.mem_flatMap.mpr ⟨c, hc, hx⟩))
  obtain ⟨nodes, hnodes, hsucceed⟩ := exists_mapM_eq_some hnode
  obtain ⟨connections, hconnections, hlinks⟩ := exists_mapM_eq_some hconnection
  refine ⟨⟨nodes, connections⟩, ?_, hsound.of_forall₂ hsucceed hlinks⟩
  rw [parse?_render_eq, restored?, hnodes, hconnections]
  rfl

/-- Only snapshots of finite numbers are read again. -/
theorem allFinite_of_parse?_render {s s' : Snapshot} (h : parse? s.render = some s') :
    Json.AllFinite s.singles s.doubles := by
  rw [parse?_render_eq] at h
  exact allFinite_of_restored? h

end Snapshot

end LayerCanvas
