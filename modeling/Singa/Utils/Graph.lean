import Singa.Base.Loop
import Singa.Utils.Abort

/-!
# `utils/graph.h`: nodes and edges

Nodes are heap objects of the source, here numbered in the order in which they
are added: `node u` is the object, `nodes` the vector `nodes_`. An edge is
recorded at both of its ends, and `RemoveEdge` finds the record by the name of
the other end. `name2node_` serves only the overloads that take names, which
`CreateGraph` never calls.
-/

namespace Singa
set_option autoImplicit false

variable {π : Type}

structure Node (π : Type) where
  name : String
  /-- Name of the layer the node is derived from. -/
  origin : String
  partitionId : Int
  proto : π
  srcnodes : List Nat := []
  dstnodes : List Nat := []

/-- What `AddEdge` and `RemoveEdge` leave alone. -/
def Node.label (n : Node π) : String × String × Int × π := (n.name, n.origin, n.partitionId, n.proto)

structure Graph (π : Type) where
  node : Nat → Node π
  size : Nat
  nodes : List Nat

namespace Graph

def empty [Inhabited π] : Graph π :=
  ⟨fun _ => { name := "", origin := "", partitionId := 0, proto := default }, 0, []⟩

def modify (g : Graph π) (u : Nat) (f : Node π → Node π) : Graph π :=
  { g with node := Function.update g.node u (f (g.node u)) }

/-- `AddNode`, with the number the new node gets. -/
def addNode (g : Graph π) (node : Node π) : Graph π × Nat :=
  ({ node := Function.update g.node g.size node, size := g.size + 1, nodes := g.nodes ++ [g.size] }, g.size)

def addDstNode (g : Graph π) (u dstnode : Nat) : Graph π :=
  g.modify u fun n => { n with dstnodes := n.dstnodes ++ [dstnode] }

def addSrcNode (g : Graph π) (u srcnode : Nat) : Graph π :=
  g.modify u fun n => { n with srcnodes := n.srcnodes ++ [srcnode] }

def addEdge (g : Graph π) (srcnode dstnode : Nat) : Graph π :=
  (g.addDstNode srcnode dstnode).addSrcNode dstnode srcnode

/-- A `for` loop that adds one edge in each pass. -/
def addEdges (g : Graph π) (edges : List (Nat × Nat)) : Graph π :=
  edges.foldl (fun g e => g.addEdge e.1 e.2) g

/-- Erase the first node called `name`; the loops of `RemoveDstNode` and `RemoveSrcNode` read
past the end when there is none. -/
def eraseNamed (g : Graph π) (name : String) : List Nat → Run (List Nat)
  | [] => .error .range
  | u :: us =>
    if (g.node u).name = name then .ok us
    else do
      let rest ← g.eraseNamed name us
      .ok (u :: rest)

def removeDstNode (g : Graph π) (u dst : Nat) : Run (Graph π) := do
  let rest ← g.eraseNamed (g.node dst).name (g.node u).dstnodes
  .ok (g.modify u fun n => { n with dstnodes := rest })

def removeSrcNode (g : Graph π) (u src : Nat) : Run (Graph π) := do
  let rest ← g.eraseNamed (g.node src).name (g.node u).srcnodes
  .ok (g.modify u fun n => { n with srcnodes := rest })

def removeEdge (g : Graph π) (src dst : Nat) : Run (Graph π) := do
  let g ← g.removeDstNode src dst
  g.removeSrcNode dst src

/-- The local variables of `Sort`; `visited` is both `visited_set` and the new `nodes_`. -/
structure Sorter where
  visiting : List Nat
  visited : List Nat
  visitSet : List Nat

/-- Does a source of `u` have a source with the name of `u`? -/
def biDirection (g : Graph π) (u : Nat) : Bool :=
  (g.node u).srcnodes.any fun src => (g.node src).srcnodes.any fun srcOfSrc =>
    (g.node srcOfSrc).name = (g.node u).name

/-- Can `u` be visited now? -/
def visit (g : Graph π) (visited : List Nat) (u : Nat) : Bool :=
  if g.biDirection u ∧ 1 < (g.node u).srcnodes.length then
    (g.node u).srcnodes.head?.all (· ∈ visited)
  else (g.node u).srcnodes.all (· ∈ visited)

/-- Queue a destination that was not queued before. -/
def Sorter.push (s : Sorter) (dst : Nat) : Sorter :=
  if dst ∈ s.visitSet then s
  else { s with visiting := s.visiting ++ [dst], visitSet := s.visitSet ++ [dst] }

/-- One pass of the `while` loop of `Sort`. -/
def sortBody (g : Graph π) (s : Sorter) : Sorter ⊕ List Nat :=
  match s.visiting with
  | [] => .inr s.visited
  | u :: rest =>
    if g.visit s.visited u then
      .inl ((g.node u).dstnodes.foldl Sorter.push { s with visiting := rest, visited := s.visited ++ [u] })
    else .inl { s with visiting := rest ++ [u] }

/-- The nodes without sources, queued before the loop. -/
def sources (g : Graph π) : List Nat := g.nodes.filter fun u => (g.node u).srcnodes.isEmpty

/-- `Graph::Sort`. -/
def sort (fuel : Nat) (g : Graph π) : Run (Graph π) := do
  let sorted ← Run.ofLoop (Loop.run g.sortBody fuel ⟨g.sources, [], g.sources⟩)
  if sorted.length = g.nodes.length then .ok { g with nodes := sorted }
  else .error .sortCount

/-- An edge, recorded at both of its ends. -/
def Edge (g : Graph π) (u v : Nat) : Prop := v ∈ (g.node u).dstnodes ∧ u ∈ (g.node v).srcnodes

/-- An edge recorded at one of its ends at least. -/
def Touches (g : Graph π) (u v : Nat) : Prop := v ∈ (g.node u).dstnodes ∨ u ∈ (g.node v).srcnodes

section Lemmas

variable {g g' : Graph π} {u v : Nat}

theorem modify_node (f : Node π → Node π) :
    (g.modify u f).node v = if v = u then f (g.node u) else g.node v := by
  simp only [modify, Function.update_apply]

@[simp] theorem addNode_snd (node : Node π) : (g.addNode node).2 = g.size := rfl

@[simp] theorem addNode_size (node : Node π) : (g.addNode node).1.size = g.size + 1 := rfl

theorem addNode_node (node : Node π) :
    (g.addNode node).1.node u = if u = g.size then node else g.node u := by
  simp only [addNode, Function.update_apply]

@[simp] theorem addEdge_size (a b : Nat) : (g.addEdge a b).size = g.size := rfl

theorem addEdge_node (a b : Nat) : (g.addEdge a b).node u = { g.node u with
    srcnodes := (g.node u).srcnodes ++ if b = u then [a] else []
    dstnodes := (g.node u).dstnodes ++ if a = u then [b] else [] } := by
  simp only [addEdge, addDstNode, addSrcNode, modify_node]
  by_cases hb : b = u <;> by_cases ha : a = u
  · simp [hb, ha]
  · subst hb
    simp [ha, Ne.symm ha]
  · subst ha
    simp [hb, Ne.symm hb]
  · simp [hb, ha, Ne.symm hb, Ne.symm ha]

@[simp] theorem addEdges_size (edges : List (Nat × Nat)) : (g.addEdges edges).size = g.size := by
  induction edges generalizing g with
  | nil => rfl
  | cons e edges ih => exact ih.trans (addEdge_size e.1 e.2)

@[simp] theorem addEdges_nodes (edges : List (Nat × Nat)) : (g.addEdges edges).nodes = g.nodes := by
  induction edges generalizing g with
  | nil => rfl
  | cons e edges ih => exact ih

/-- What a loop of `AddEdge` appends at a node. -/
theorem addEdges_node (edges : List (Nat × Nat)) : (g.addEdges edges).node u = { g.node u with
    srcnodes := (g.node u).srcnodes ++ (edges.filter (·.2 = u)).map Prod.fst
    dstnodes := (g.node u).dstnodes ++ (edges.filter (·.1 = u)).map Prod.snd } := by
  induction edges generalizing g with
  | nil => simp [addEdges]
  | cons e edges ih =>
    refine (ih (g := g.addEdge e.1 e.2)).trans ?_
    rw [addEdge_node, List.filter_cons, List.filter_cons]
    split_ifs <;> simp_all

@[simp] theorem addEdges_label (edges : List (Nat × Nat)) :
    ((g.addEdges edges).node u).label = (g.node u).label := by
  rw [addEdges_node, Node.label, Node.label]

theorem mem_dstnodes_addEdges (edges : List (Nat × Nat)) :
    v ∈ ((g.addEdges edges).node u).dstnodes ↔ v ∈ (g.node u).dstnodes ∨ (u, v) ∈ edges := by
  simp [addEdges_node]

theorem mem_srcnodes_addEdges (edges : List (Nat × Nat)) :
    u ∈ ((g.addEdges edges).node v).srcnodes ↔ u ∈ (g.node v).srcnodes ∨ (u, v) ∈ edges := by
  simp [addEdges_node]

/-- `Sort` only reorders `nodes_`. -/
theorem sort_node {fuel : Nat} (h : g.sort fuel = .ok g') : g'.node = g.node ∧ g'.size = g.size := by
  obtain ⟨sorted, -, h⟩ := Run.do_ok.mp h
  split at h
  · cases h
    exact ⟨rfl, rfl⟩
  · cases h

/-- What `Sort` has queued and visited. -/
structure Queued (g : Graph π) (s : Sorter) : Prop where
  once : (s.visiting ++ s.visited).Nodup
  seen : s.visiting ++ s.visited ⊆ s.visitSet
  inside : s.visitSet ⊆ g.nodes

theorem Queued.push {s : Sorter} {dst : Nat} (h : g.Queued s) (mem : dst ∈ g.nodes) : g.Queued (s.push dst) := by
  rw [Sorter.push]
  split
  · exact h
  · rename_i new
    have fresh : dst ∉ s.visiting ++ s.visited := fun hd => new (h.seen hd)
    refine ⟨?_, ?_, ?_⟩
    · have sorted : (s.visiting ++ [dst] ++ s.visited).Perm (dst :: (s.visiting ++ s.visited)) := by
        simp [List.perm_middle]
      exact sorted.nodup_iff.mpr (List.nodup_cons.mpr ⟨fresh, h.once⟩)
    · intro u hu
      have old : u = dst ∨ u ∈ s.visiting ++ s.visited := by
        simp only [List.mem_append, List.mem_singleton] at hu ⊢
        tauto
      rcases old with rfl | old
      · simp
      · exact List.mem_append_left _ (h.seen old)
    · refine List.append_subset.mpr ⟨h.inside, ?_⟩
      simpa using mem

/-- A pass of the loop of `Sort` queues and visits every node at most once. -/
theorem Queued.body {s s' : Sorter} (closed : ∀ u ∈ g.nodes, (g.node u).dstnodes ⊆ g.nodes) (h : g.Queued s)
    (pass : g.sortBody s = .inl s') : g.Queued s' := by
  rw [sortBody] at pass
  split at pass
  · cases pass
  · rename_i u rest visiting
    have once := h.once
    have seen := h.seen
    rw [visiting] at once seen
    have inside : u ∈ g.nodes := h.inside (seen (by simp))
    have moved (l : List Nat) : (u :: rest ++ l).Perm (rest ++ (l ++ [u])) := by
      rw [← List.append_assoc]
      exact (List.perm_append_singleton u (rest ++ l)).symm
    split at pass
    · cases pass
      have start : g.Queued { s with visiting := rest, visited := s.visited ++ [u] } :=
        ⟨(moved s.visited).nodup_iff.mp once, fun v hv => seen ((moved s.visited).mem_iff.mpr hv), h.inside⟩
      have all (dsts : List Nat) (sub : dsts ⊆ g.nodes) (s : Sorter) (h : g.Queued s) :
          g.Queued (dsts.foldl Sorter.push s) := by
        induction dsts generalizing s with
        | nil => exact h
        | cons d dsts ih => exact ih (fun v hv => sub (by simp [hv])) _ (h.push (sub (by simp)))
      exact all _ (closed u inside) _ start
    · cases pass
      have rotated : (u :: rest ++ s.visited).Perm (rest ++ [u] ++ s.visited) := by
        simp [List.perm_middle.symm]
      exact ⟨rotated.nodup_iff.mp once, fun v hv => seen (rotated.mem_iff.mpr hv), h.inside⟩

/-- `Sort` returns the same nodes in another order. -/
theorem sort_perm {fuel : Nat} (distinct : g.nodes.Nodup) (closed : ∀ u ∈ g.nodes, (g.node u).dstnodes ⊆ g.nodes)
    (h : g.sort fuel = .ok g') : g'.nodes.Perm g.nodes := by
  obtain ⟨sorted, run, h⟩ := Run.do_ok.mp h
  rw [Run.ofLoop_eq_ok] at run
  have start : g.Queued ⟨g.sources, [], g.sources⟩ :=
    ⟨by simpa [sources] using distinct.filter _, by simp, fun u hu => List.mem_of_mem_filter hu⟩
  obtain ⟨last, queued, leave⟩ := Loop.run_inv g.Queued (fun _ _ => Queued.body closed) start run
  rw [sortBody] at leave
  split at leave
  · rename_i visiting
    cases leave
    have once := queued.once
    have seen := queued.seen
    rw [visiting, List.nil_append] at once seen
    split at h
    · rename_i same
      cases h
      exact (once.subperm fun u hu => queued.inside (seen hu)).perm_of_length_le same.ge
    · cases h
  · split at leave <;> cases leave

/-- What `eraseNamed` keeps was there before. -/
theorem eraseNamed_subset {name : String} {us rest : List Nat} (h : g.eraseNamed name us = .ok rest) :
    rest ⊆ us := by
  induction us generalizing rest with
  | nil => cases h
  | cons w us ih =>
    rw [eraseNamed] at h
    split at h
    · cases h
      exact List.subset_cons_self w us
    · obtain ⟨rest', erased, h⟩ := Run.do_ok.mp h
      cases h
      exact List.cons_subset_cons w (ih erased)

/-- Erasing by name, where the name leads to `w` at its first place. -/
theorem eraseNamed_append {w : Nat} {olds : List Nat} (mem : w ∈ olds)
    (named : ∀ x ∈ olds, (g.node x).name = (g.node w).name → x = w) (news : List Nat) :
    g.eraseNamed (g.node w).name (olds ++ news) = .ok (olds.erase w ++ news) := by
  induction olds with
  | nil => cases mem
  | cons x olds ih =>
    rw [List.cons_append, eraseNamed]
    by_cases here : x = w
    · subst here
      rw [if_pos rfl, List.erase_cons_head]
    · rw [if_neg fun same => here (named x (by simp) same), List.erase_cons_tail (by simpa using here)]
      have later : w ∈ olds := (List.mem_cons.mp mem).resolve_left (Ne.symm here)
      exact Run.do_ok.mpr ⟨_, ih later fun y hy => named y (List.mem_cons_of_mem x hy), rfl⟩

/-- `RemoveEdge` on the first destination of `u`. -/
theorem removeEdge_ok {d : Nat} {ds olds news : List Nat} (dst : (g.node u).dstnodes = d :: ds)
    (src : (g.node d).srcnodes = olds ++ news) (mem : u ∈ olds)
    (named : ∀ x ∈ olds, (g.node x).name = (g.node u).name → x = u) :
    ∃ g', g.removeEdge u d = .ok g' ∧ g'.size = g.size ∧ g'.nodes = g.nodes ∧
      ∀ w, g'.node w = { g.node w with
        srcnodes := if w = d then olds.erase u ++ news else (g.node w).srcnodes
        dstnodes := if w = u then ds else (g.node w).dstnodes } := by
  let mid := g.modify u fun n => { n with dstnodes := ds }
  have first : g.removeDstNode u d = .ok mid := by
    refine Run.do_ok.mpr ⟨ds, ?_, rfl⟩
    rw [dst, eraseNamed, if_pos rfl]
  have name (w : Nat) : (mid.node w).name = (g.node w).name := by
    simp only [mid, modify_node]
    split_ifs with here <;> simp [here]
  have srcMid : (mid.node d).srcnodes = olds ++ news := by
    simp only [mid, modify_node]
    split_ifs with here <;> simp [← src, here]
  have second : mid.removeSrcNode d u = .ok (mid.modify d fun n => { n with srcnodes := olds.erase u ++ news }) := by
    refine Run.do_ok.mpr ⟨_, ?_, rfl⟩
    rw [srcMid]
    refine eraseNamed_append mem (fun x hx same => named x hx ?_) news
    rwa [name, name] at same
  refine ⟨_, Run.do_ok.mpr ⟨mid, first, second⟩, rfl, rfl, fun w => ?_⟩
  simp only [mid, modify_node]
  by_cases hd : w = d <;> by_cases hu : w = u
  · subst hd hu
    simp
  · subst hd
    simp [hu]
  · subst hu
    simp [hd]
  · simp [hd, hu]

/-- The loop that removes all edges out of `u`; `olds` are the records that `u` is looked for in. -/
theorem removeEdges_ok {ds : List Nat} (dst : (g.node u).dstnodes = ds) (olds news : Nat → List Nat)
    (src : ∀ w, (g.node w).srcnodes = olds w ++ news w) (mirror : ∀ w, (olds w).count u = ds.count w)
    (named : ∀ w, ∀ x ∈ olds w, (g.node x).name = (g.node u).name → x = u) :
    ∃ g', ds.foldlM (fun g dst => g.removeEdge u dst) g = .ok g' ∧ g'.size = g.size ∧ g'.nodes = g.nodes ∧
      ∀ w, g'.node w = { g.node w with
        srcnodes := (olds w).filter (· ≠ u) ++ news w
        dstnodes := if w = u then [] else (g.node w).dstnodes } := by
  induction ds generalizing g olds with
  | nil =>
    refine ⟨g, rfl, rfl, rfl, fun w => ?_⟩
    have none : (olds w).filter (· ≠ u) = olds w := by
      have absent : u ∉ olds w := List.count_eq_zero.mp (mirror w)
      exact List.filter_eq_self.mpr fun x hx => by simpa using fun same : x = u => absent (same ▸ hx)
    rw [none, ← src w]
    split_ifs with here
    · rw [here, ← dst]
    · rfl
  | cons d ds ih =>
    have mem : u ∈ olds d := List.count_pos_iff.mp (by rw [mirror d]; simp)
    obtain ⟨mid, removed, size, nodes, node⟩ := removeEdge_ok dst (src d) mem (named d)
    have name (w : Nat) : (mid.node w).name = (g.node w).name := by rw [node w]
    obtain ⟨g', rest, size', nodes', node'⟩ := ih (g := mid) (by rw [node u, if_pos rfl])
      (fun w => if w = d then (olds d).erase u else olds w) (fun w => by
        rw [node w]
        show (if w = d then _ else _) = _
        split_ifs with here
        · rw [here]
        · exact src w) (fun w => by
        have count := mirror w
        rw [List.count_cons] at count
        split_ifs with here
        · subst here
          rw [List.count_erase_self, count]
          simp
        · rw [count]
          simp [Ne.symm here]) fun w x hx same => by
        rw [name, name] at same
        split_ifs at hx with here
        · exact named d x (List.mem_of_mem_erase hx) same
        · exact named w x hx same
    refine ⟨g', Run.foldlM_cons_ok removed rest, size'.trans size, nodes'.trans nodes, fun w => ?_⟩
    rw [node' w, node w]
    have srcs : (if w = d then (olds d).erase u else olds w).filter (· ≠ u) = (olds w).filter (· ≠ u) := by
      split_ifs with here
      · rw [here, ← List.erase_filter, List.erase_of_not_mem (by simp)]
      · rfl
    have dsts : (if w = u then [] else if w = u then ds else (g.node w).dstnodes) =
        if w = u then [] else (g.node w).dstnodes := by
      split_ifs <;> rfl
    simp only [srcs, dsts]

end Lemmas
end Graph
end Singa
