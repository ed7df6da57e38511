import LayerCanvas.Graph.Load
import LayerCanvas.Graph.Tick

/-!
Runs of a graph. A call is any of the requests that can change a graph; one that is refused leaves
the graph as it was. A run starts from the graph without nodes and takes calls one after the other,
so what holds of that graph and is kept by every call holds after every run.

Nothing is assumed of the calls. The table of tweens has no order of its own, so a tick comes with
the order in which it goes through the samples. A text is given by the snapshot that is read from
it, if it can be read. All graphs draw their names from one sequence, which may move on between two
calls.
-/

set_option autoImplicit false
set_option relaxedAutoImplicit false

namespace LayerCanvas

/-- An order in which the samples of a tick may be gone through. -/
structure SampleOrder (C : Type) where
  arrange : List (TweenSample C) → List (TweenSample C)
  perm : ∀ samples, (arrange samples).Perm samples

/-- The order in which the tweens are listed. -/
def SampleOrder.listed (C : Type) : SampleOrder C := ⟨id, fun _ ↦ .refl _⟩

/-- A request that can change a graph. -/
inductive Call (C R : Type)
  | addNode (layer : Layer R) (origin : Point C)
  | insertNode (n : Node C R)
  | bringToFront (id : NodeId)
  | moveNode (id : NodeId) (origin : Point C)
  | deleteNode (id : NodeId)
  | clear
  | setParam (id : NodeId) (name : String) (value : ParamValue R)
  | addConnection (source target : NodeId) (start stop : Point C)
  | deleteConnection (id : ConnectionId)
  | tick (now : R) (order : SampleOrder C)
  | load (s : Snapshot C R)
  /-- Loading a text. -/
  | loadDocument (document : Option (Snapshot C R))
  /-- Names drawn by another graph. -/
  | drawNames (count : Nat)

namespace Graph

variable {C R : Type} [Scalar C] [Scalar R] [Precision C R]

/-- The graph of a text, given by the snapshot that is read from it. -/
def loadDocument (g : Graph C R) : Option (Snapshot C R) → Except GraphError (Graph C R)
  | none => .error .unreadable
  | some s => g.load s

theorem loadText_eq (g : Graph) (text : String) :
    g.loadText text = g.loadDocument (Snapshot.parse? text) := by
  unfold loadText loadDocument
  cases Snapshot.parse? text <;> rfl

/-- A text that is loaded is that of a snapshot that is loaded. -/
theorem exists_load_of_loadText {g loaded : Graph} {text : String}
    (h : g.loadText text = .ok loaded) :
    ∃ s, Snapshot.parse? text = some s ∧ g.load s = .ok loaded := by
  rw [loadText_eq] at h
  cases hparse : Snapshot.parse? text with
  | none =>
    rw [hparse] at h
    cases h
  | some s =>
    rw [hparse] at h
    exact ⟨s, rfl, h⟩

/-- A tick that goes through the samples in a given order. -/
def tickIn (g : Graph C R) (now : R) (order : SampleOrder C) : Graph C R × TickOutcome :=
  g.tickWith (order.arrange (g.animator.samples now)) now

omit [Scalar C] in
theorem tickIn_listed (g : Graph C R) (now : R) : g.tickIn now (.listed C) = g.tick now := rfl

/-- The graph after a call. -/
def apply (g : Graph C R) : Call C R → Graph C R
  | .addNode layer origin => (g.addNode layer origin).1
  | .insertNode n => (g.insertNode n).toOption.getD g
  | .bringToFront id => g.bringToFront id
  | .moveNode id origin => (g.moveNode? id origin).getD g
  | .deleteNode id => g.deleteNode id
  | .clear => g.clear
  | .setParam id name value => (g.setParam id name value).toOption.getD g
  | .addConnection source target start stop =>
    ((g.addConnection? source target start stop).map Prod.fst).getD g
  | .deleteConnection id => g.deleteConnection id
  | .tick now order => (g.tickIn now order).1
  | .load s => (g.load s).toOption.getD g
  | .loadDocument document => (g.loadDocument document).toOption.getD g
  | .drawNames count => { g with serial := g.serial + count }

/-- The graph after several calls. -/
def applyAll (g : Graph C R) (calls : List (Call C R)) : Graph C R := calls.foldl apply g

/-- The graph of a run. -/
def run (config : EditorConfig C R) (serial : Nat) (calls : List (Call C R)) : Graph C R :=
  (empty config serial).applyAll calls

/-- Whether a call puts a loaded graph in the place of this one. -/
def Loads (g : Graph C R) : Call C R → Prop
  | .load s => ∃ loaded, g.load s = .ok loaded
  | .loadDocument document => ∃ loaded, g.loadDocument document = .ok loaded
  | _ => False

/-- A property of the graph and the call it is about to take, all along a list of calls. -/
def Along (P : Graph C R → Call C R → Prop) (g : Graph C R) : List (Call C R) → Prop
  | [] => True
  | call :: rest => P g call ∧ Along P (g.apply call) rest

@[simp] theorem applyAll_nil (g : Graph C R) : g.applyAll [] = g := rfl

@[simp] theorem applyAll_cons (g : Graph C R) (call : Call C R) (rest : List (Call C R)) :
    g.applyAll (call :: rest) = (g.apply call).applyAll rest := rfl

theorem applyAll_append (g : Graph C R) (first second : List (Call C R)) :
    g.applyAll (first ++ second) = (g.applyAll first).applyAll second := List.foldl_append

theorem run_append (config : EditorConfig C R) (serial : Nat) (first second : List (Call C R)) :
    run config serial (first ++ second) = (run config serial first).applyAll second :=
  applyAll_append _ first second

theorem Along.append {P : Graph C R → Call C R → Prop} {g : Graph C R}
    {first second : List (Call C R)} (hfirst : Along P g first)
    (hsecond : Along P (g.applyAll first) second) : Along P g (first ++ second) := by
  induction first generalizing g with
  | nil => exact hsecond
  | cons call rest ih => exact ⟨hfirst.1, ih hfirst.2 hsecond⟩

theorem along_concat {P : Graph C R → Call C R → Prop} {g : Graph C R} {calls : List (Call C R)}
    {call : Call C R} :
    Along P g (calls ++ [call]) ↔ Along P g calls ∧ P (g.applyAll calls) call := by
  induction calls generalizing g with
  | nil => simp [Along]
  | cons first rest ih => simp [Along, ih, and_assoc]

/-- What every allowed call keeps, a list of allowed calls keeps. -/
theorem applyAll_induction {P : Graph C R → Prop} {Q : Call C R → Prop}
    (hstep : ∀ g call, Q call → P g → P (g.apply call)) (calls : List (Call C R))
    (hcalls : ∀ call ∈ calls, Q call) (g : Graph C R) (hg : P g) : P (g.applyAll calls) := by
  induction calls generalizing g with
  | nil => exact hg
  | cons call rest ih =>
    rw [applyAll_cons]
    exact ih (fun other hother ↦ hcalls other (List.mem_cons_of_mem _ hother)) _
      (hstep g call (hcalls call List.mem_cons_self) hg)

/-- What the graph without nodes has and every call keeps holds after every run. -/
theorem run_induction {P : Graph C R → Prop} {config : EditorConfig C R} {serial : Nat}
    (hempty : P (empty config serial)) (hstep : ∀ g call, P g → P (g.apply call))
    (calls : List (Call C R)) : P (run config serial calls) :=
  applyAll_induction (Q := fun _ ↦ True) (fun g call _ ↦ hstep g call) calls
    (fun _ _ ↦ trivial) _ hempty

end Graph

end LayerCanvas
