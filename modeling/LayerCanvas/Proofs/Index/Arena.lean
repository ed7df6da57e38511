import LayerCanvas.Proofs.Graph.Edit

/-!
A directed multigraph whose parts keep their places. A node or an edge stays at the place it was
given until it is taken out, and taking out a node takes the edges at it along. Which of the free
places a new part is given is left open: what is proved of the arena holds however places are used
again.
-/

set_option autoImplicit false
set_option relaxedAutoImplicit false

namespace LayerCanvas

/-- How a free place is chosen. The choice may depend on how many places were given out before, and
so on everything that happened before. -/
structure Slots where
  choose : (given : Nat) → (used : List Nat) → Nat
  fresh : ∀ given used, choose given used ∉ used

/-- Every part is placed behind those that are there. -/
def Slots.behind : Slots where
  choose _ used := used.max?.getD 0 + 1
  fresh _ _ h := Nat.not_succ_le_self _ (List.le_max?_getD_of_mem h)

instance : Inhabited Slots := ⟨.behind⟩

/-- An edge between the nodes at two places. -/
structure Edge (E : Type) where
  place : Nat
  source : Nat
  target : Nat
  weight : E

/-- The nodes with their places, and the edges in the order they were added. -/
structure Arena (N E : Type) where
  nodes : List (Nat × N)
  edges : List (Edge E)
  /-- How many places have been given out. -/
  given : Nat
  nodes_nodup : (nodes.map Prod.fst).Nodup
  edges_nodup : (edges.map Edge.place).Nodup

namespace Arena

variable {N E : Type}

theorem nodup_map_concat {α β : Type} {f : α → β} {l : List α} {x : α} (h : (l.map f).Nodup)
    (hx : f x ∉ l.map f) : ((l ++ [x]).map f).Nodup := by
  rw [List.map_append]
  exact h.append (List.nodup_singleton (f x)) (by simpa using hx)

theorem nodup_map_filter {α β : Type} {f : α → β} {l : List α} (h : (l.map f).Nodup)
    (p : α → Bool) : ((l.filter p).map f).Nodup :=
  h.sublist (List.filter_sublist.map f)

/-- The arena without nodes, when some places have been given out before. -/
def empty (given : Nat) : Arena N E := ⟨[], [], given, List.nodup_nil, List.nodup_nil⟩

def addNode (slots : Slots) (a : Arena N E) (n : N) : Arena N E × Nat :=
  let place := slots.choose a.given (a.nodes.map Prod.fst)
  ({ a with
      nodes := a.nodes ++ [(place, n)]
      given := a.given + 1
      nodes_nodup := nodup_map_concat a.nodes_nodup (slots.fresh _ _) }, place)

def addEdge (slots : Slots) (a : Arena N E) (source target : Nat) (weight : E) :
    Arena N E × Nat :=
  let place := slots.choose a.given (a.edges.map Edge.place)
  ({ a with
      edges := a.edges ++ [⟨place, source, target, weight⟩]
      given := a.given + 1
      edges_nodup := nodup_map_concat a.edges_nodup (slots.fresh _ _) }, place)

/-- Takes out all but some nodes, and no edges. -/
def keepNodes (a : Arena N E) (p : Nat × N → Bool) : Arena N E :=
  { a with nodes := a.nodes.filter p, nodes_nodup := nodup_map_filter a.nodes_nodup p }

/-- Takes out all but some edges. -/
def keepEdges (a : Arena N E) (p : Edge E → Bool) : Arena N E :=
  { a with edges := a.edges.filter p, edges_nodup := nodup_map_filter a.edges_nodup p }

/-- Takes out a node and the edges at it. -/
def removeNode (a : Arena N E) (place : Nat) : Arena N E :=
  (a.keepEdges fun e ↦ e.source != place && e.target != place).keepNodes fun entry ↦
    entry.1 != place

def removeEdge (a : Arena N E) (place : Nat) : Arena N E := a.keepEdges fun e ↦ e.place != place

/-- Changes what is stored at the nodes. -/
def mapNodes (a : Arena N E) (f : Nat × N → N) : Arena N E :=
  { a with
    nodes := a.nodes.map fun entry ↦ (entry.1, f entry)
    nodes_nodup := by simpa [Function.comp_def] using a.nodes_nodup }

/-- Changes what is stored at the edges. -/
def mapEdges (a : Arena N E) (f : Edge E → E) : Arena N E :=
  { a with
    edges := a.edges.map fun e ↦ { e with weight := f e }
    edges_nodup := by simpa [Function.comp_def] using a.edges_nodup }

def modifyNode (a : Arena N E) (place : Nat) (f : N → N) : Arena N E :=
  a.mapNodes fun entry ↦ if entry.1 = place then f entry.2 else entry.2

def modifyEdge (a : Arena N E) (place : Nat) (f : E → E) : Arena N E :=
  a.mapEdges fun e ↦ if e.place = place then f e.weight else e.weight

/-- The node at a place. -/
def node? (a : Arena N E) (place : Nat) : Option (Nat × N) :=
  a.nodes.find? fun entry ↦ entry.1 == place

/-- The edge at a place. -/
def edge? (a : Arena N E) (place : Nat) : Option (Edge E) := a.edges.find? fun e ↦ e.place == place

/-- The edges that leave a node, the newest first. -/
def outgoing (a : Arena N E) (place : Nat) : List (Edge E) :=
  (a.edges.filter fun e ↦ e.source == place).reverse

/-- The edges that enter a node, the newest first. -/
def incoming (a : Arena N E) (place : Nat) : List (Edge E) :=
  (a.edges.filter fun e ↦ e.target == place).reverse

/-- The edges at a node, the outgoing ones first. -/
def touching (a : Arena N E) (place : Nat) : List (Edge E) := a.outgoing place ++ a.incoming place

/-- Whether there is an edge from one node to another. -/
def joins (a : Arena N E) (source target : Nat) : Bool :=
  a.edges.any fun e ↦ e.source == source && e.target == target

theorem node?_eq_some_iff {a : Arena N E} {place : Nat} {entry : Nat × N} :
    a.node? place = some entry ↔ entry ∈ a.nodes ∧ entry.1 = place :=
  find?_name_eq_some_iff a.nodes_nodup

theorem edge?_eq_some_iff {a : Arena N E} {place : Nat} {e : Edge E} :
    a.edge? place = some e ↔ e ∈ a.edges ∧ e.place = place :=
  find?_name_eq_some_iff a.edges_nodup

theorem mem_touching {a : Arena N E} {place : Nat} {e : Edge E} :
    e ∈ a.touching place ↔ e ∈ a.edges ∧ (e.source = place ∨ e.target = place) := by
  simp [touching, outgoing, incoming, and_or_left]

end Arena

end LayerCanvas
