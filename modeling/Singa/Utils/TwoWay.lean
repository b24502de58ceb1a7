import Singa.Utils.Sorting

/-!
# `Graph::Sort` on graphs with two-way edges

An RBM layer lists its hidden layer among its sources, so that the edge between
them runs both ways. `Sort` then looks up the first source of such a node only.
When that is the hidden layer, both wait for each other and the loop never ends;
when it is a layer below, the loop ends, but nothing makes it wait for the
remaining ones.
-/

namespace Singa
namespace Graph
set_option autoImplicit false

open Relation Requeue

variable {π : Type} {d g : Graph π} {back : List (Nat × Nat)} {u v w : Nat}

/-- `g` is `d` with the reverse of every edge of `back`, and with sources listed in any order. -/
structure TwoWay (d : Graph π) (back : List (Nat × Nat)) (g : Graph π) : Prop where
  nodes : g.nodes = d.nodes
  label : ∀ u, (g.node u).label = (d.node u).label
  dst : ∀ u, (g.node u).dstnodes = ((d.addEdges (back.map Prod.swap)).node u).dstnodes
  src : ∀ u, (g.node u).srcnodes.Perm ((d.addEdges (back.map Prod.swap)).node u).srcnodes

/-- An acyclic graph of uniquely named nodes, and some of its edges. -/
structure Layered (d : Graph π) (back : List (Nat × Nat)) : Prop where
  matched : d.Matched
  named : (d.nodes.map fun u => (d.node u).name).Nodup
  acyclic : ∀ u ∈ d.nodes, ¬ TransGen d.Edge u u
  edges : ∀ e ∈ back, e.1 ∈ d.nodes ∧ d.Edge e.1 e.2

/-- Every node with a reverse edge into it lists a source of `d` first. -/
def FirstBelow (d : Graph π) (back : List (Nat × Nat)) (g : Graph π) : Prop :=
  ∀ e ∈ back, ∃ w ∈ (g.node e.1).srcnodes.head?, w ∈ (d.node e.1).srcnodes

section Matched

/-- A list of edges holds each edge as often in the records of its two ends. -/
theorem count_edges (edges : List (Nat × Nat)) :
    ((edges.filter (·.2 = v)).map Prod.fst).count u = ((edges.filter (·.1 = u)).map Prod.snd).count v := by
  induction edges with
  | nil => rfl
  | cons e edges ih =>
    rw [List.filter_cons, List.filter_cons]
    by_cases src : e.1 = u <;> by_cases dst : e.2 = v <;> simp [src, dst, ih]

theorem Matched.addEdges {edges : List (Nat × Nat)} (h : d.Matched)
    (inside : ∀ e ∈ edges, e.1 ∈ d.nodes ∧ e.2 ∈ d.nodes) : (d.addEdges edges).Matched where
  once := by simpa using h.once
  dst u hu v hv := by
    rw [addEdges_nodes] at hu ⊢
    rcases mem_dstnodes_addEdges edges |>.mp hv with old | new
    · exact h.dst u hu old
    · exact (inside _ new).2
  src v hv u hu := by
    rw [addEdges_nodes] at hv ⊢
    rcases mem_srcnodes_addEdges edges |>.mp hu with old | new
    · exact h.src v hv old
    · exact (inside _ new).1
  count u hu v hv := by
    rw [addEdges_nodes] at hu hv
    rw [addEdges_node, addEdges_node]
    simp only [List.count_append]
    rw [h.count u hu v hv, count_edges]

theorem Layered.ends (h : Layered d back) {e : Nat × Nat} (mem : e ∈ back) : e.1 ∈ d.nodes ∧ e.2 ∈ d.nodes :=
  ⟨(h.edges e mem).1, h.matched.dst e.1 (h.edges e mem).1 (h.edges e mem).2.1⟩

theorem TwoWay.mem_src_iff (h : TwoWay d back g) :
    w ∈ (g.node u).srcnodes ↔ w ∈ (d.node u).srcnodes ∨ (u, w) ∈ back := by
  rw [(h.src u).mem_iff, mem_srcnodes_addEdges]
  simp

theorem TwoWay.name (h : TwoWay d back g) (u : Nat) : (g.node u).name = (d.node u).name :=
  congrArg (·.1) (h.label u)

theorem TwoWay.matched (h : TwoWay d back g) (layered : Layered d back) : g.Matched := by
  have swapped : (d.addEdges (back.map Prod.swap)).Matched := by
    refine layered.matched.addEdges fun e mem => ?_
    obtain ⟨e, old, rfl⟩ := List.mem_map.mp mem
    exact (layered.ends old).symm
  have nodes : g.nodes = (d.addEdges (back.map Prod.swap)).nodes := by rw [addEdges_nodes, h.nodes]
  refine ⟨nodes ▸ swapped.once, fun u hu => ?_, fun v hv w hw => ?_, fun u hu v hv => ?_⟩
  · rw [nodes] at hu ⊢
    rw [h.dst u]
    exact swapped.dst u hu
  · rw [nodes] at hv ⊢
    exact swapped.src v hv ((h.src v).mem_iff.mp hw)
  · rw [nodes] at hu hv
    rw [h.dst u, (h.src v).count_eq, swapped.count u hu v hv]

end Matched

section Gates

/-- A node with a reverse edge into it is recognised. -/
theorem TwoWay.biDirection (h : TwoWay d back g) (layered : Layered d back) {e : Nat × Nat} (mem : e ∈ back) :
    g.biDirection e.1 = true := by
  have into : e.2 ∈ (g.node e.1).srcnodes := h.mem_src_iff.mpr (.inr mem)
  have onward : e.1 ∈ (g.node e.2).srcnodes := h.mem_src_iff.mpr (.inl (layered.edges e mem).2.2)
  rw [Graph.biDirection, List.any_eq_true]
  exact ⟨e.2, into, List.any_eq_true.mpr ⟨e.1, onward, decide_eq_true rfl⟩⟩

/-- No edge of `d` runs both ways. -/
theorem Layered.asymm (h : Layered d back) (hu : u ∈ d.nodes) (hv : v ∈ d.nodes) (up : v ∈ (d.node u).srcnodes) :
    u ∉ (d.node v).srcnodes := fun down =>
  h.acyclic u hu (.tail (.single (h.matched.edge hv down)) (h.matched.edge hu up))

/-- With a source of `d` listed first, only sources of `d` are looked up. -/
theorem TwoWay.gate_below (h : TwoWay d back g) (layered : Layered d back) (first : FirstBelow d back g)
    (mem : w ∈ g.gate u) : w ∈ (d.node u).srcnodes := by
  by_cases into : ∃ e ∈ back, e.1 = u
  · obtain ⟨e, he, rfl⟩ := into
    obtain ⟨x, head, below⟩ := first e he
    have two := h.biDirection layered he
    rw [gate, two] at mem
    split at mem
    · rw [Option.mem_toList] at mem
      obtain rfl := Option.mem_unique head mem
      exact below
    · rename_i single
      simp only [true_and, not_lt] at single
      obtain ⟨rest, srcs⟩ := List.head?_eq_some_iff.mp head
      rw [srcs, List.length_cons] at single
      rw [srcs, List.eq_nil_of_length_eq_zero (by omega : rest.length = 0), List.mem_singleton] at mem
      exact mem ▸ below
  · refine (h.mem_src_iff.mp (gate_subset mem)).resolve_right fun reverse => into ⟨(u, w), reverse, rfl⟩

theorem TwoWay.ready (h : TwoWay d back g) (layered : Layered d back) (first : FirstBelow d back g)
    (hu : u ∈ g.nodes) : Ready g.gate u := by
  have linked := (h.matched layered).linked
  refine ready_of_acyclic (r := d.Edge) linked.inside (fun v hv w mem => ?_) ?_ hu
  · rw [h.nodes] at hv
    exact layered.matched.edge hv (h.gate_below layered first mem)
  · rw [h.nodes]
    exact layered.acyclic

end Gates

section Necessary

end Necessary

end Graph
end Singa
