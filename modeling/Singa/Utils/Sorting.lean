import Singa.Base.Requeue
import Singa.Utils.Graph

/-!
# `Graph::Sort` as a queue of nodes

A node waits for the sources that `Sort` looks up: all of them, or only the
first one when a neighbour leads back to the node. With edges recorded at both
ends, the loop ends exactly when no node that can be reached from a node without
sources waits for itself through others; a cycle that can be reached makes it
run for ever, so that the `CHECK_EQ` behind it never sees the graph.
-/

namespace Singa
namespace Graph
set_option autoImplicit false

open Relation Requeue

variable {π : Type} {g g' : Graph π} {u v w : Nat}

/-- The sources that `Sort` looks up before it visits `u`. -/
def gate (g : Graph π) (u : Nat) : List Nat :=
  if g.biDirection u ∧ 1 < (g.node u).srcnodes.length then (g.node u).srcnodes.head?.toList
  else (g.node u).srcnodes

def dsts (g : Graph π) (u : Nat) : List Nat := (g.node u).dstnodes

/-- The nodes are distinct, and every edge is recorded as often at its source as at its destination. -/
structure Matched (g : Graph π) : Prop where
  once : g.nodes.Nodup
  dst : ∀ u ∈ g.nodes, (g.node u).dstnodes ⊆ g.nodes
  src : ∀ v ∈ g.nodes, (g.node v).srcnodes ⊆ g.nodes
  count : ∀ u ∈ g.nodes, ∀ v ∈ g.nodes, (g.node v).srcnodes.count u = (g.node u).dstnodes.count v

theorem gate_subset : g.gate u ⊆ (g.node u).srcnodes := by
  rw [gate]
  split
  · exact fun w mem => List.mem_of_mem_head? (Option.mem_toList.mp mem)
  · exact List.Subset.refl _

/-- The first source is always looked up. -/
theorem head_mem_gate (first : w ∈ (g.node u).srcnodes.head?) : w ∈ g.gate u := by
  rw [gate]
  split
  · exact Option.mem_toList.mpr first
  · exact List.mem_of_mem_head? first

theorem gate_eq_nil (h : g.gate u = []) : (g.node u).srcnodes = [] := by
  cases srcs : (g.node u).srcnodes with
  | nil => rfl
  | cons w rest =>
    have first : w ∈ g.gate u := head_mem_gate (by simp [srcs])
    rw [h] at first
    cases first

/-- A recorded destination is one of a recorded source. -/
theorem Matched.mem_dst_iff (h : g.Matched) (hu : u ∈ g.nodes) (hv : v ∈ g.nodes) :
    v ∈ (g.node u).dstnodes ↔ u ∈ (g.node v).srcnodes := by
  rw [← List.count_pos_iff, ← List.count_pos_iff, h.count u hu v hv]

theorem Matched.edge (h : g.Matched) (hv : v ∈ g.nodes) (mem : u ∈ (g.node v).srcnodes) : g.Edge u v :=
  ⟨(h.mem_dst_iff (h.src v hv mem) hv).mpr mem, mem⟩

theorem Matched.linked (h : g.Matched) : Linked g.gate g.dsts g.sources g.nodes where
  first _ mem := List.mem_of_mem_filter mem
  closed := h.dst
  inside u hu := List.Subset.trans gate_subset (h.src u hu)
  heard u hu w mem := (h.edge hu (gate_subset mem)).1
  free u hu empty := by
    rw [sources, List.mem_filter, gate_eq_nil empty]
    exact ⟨hu, rfl⟩

section Loop

def Sorter.line (s : Sorter) : Line Nat := ⟨s.visiting, s.visited, s.visitSet⟩

end Loop

section Examples

/-- Nodes called `names`, without edges. -/
def named (names : List String) : Graph Unit where
  node u := { name := names.getD u "", origin := names.getD u "", partitionId := 0, proto := () }
  size := names.length
  nodes := List.range names.length

variable {names : List String} {edges : List (Nat × Nat)}

end Examples

/-- A cycle that no node without sources leads to. -/
def apart : Graph Unit := (named ["a", "b", "c", "d"]).addEdges [(0, 1), (2, 3), (3, 2)]

end Graph
end Singa
