import Mathlib.Tactic

/-!
# Trees whose nodes have paths

A tree is the list of its nodes. A node is found by its path: its name, that of
its parent and so on up to the root. With a node its parent is in the tree, so
that a tree from which whole subtrees are taken is one again (`Pruned`).
-/

set_option autoImplicit false

/-- A node: its path, the own name first, and what it carries. -/
structure PathTree.Node (ν δ : Type) where
  path : List ν
  data : δ
  deriving DecidableEq, Repr

structure PathTree (ν δ : Type) where
  nodes : List (PathTree.Node ν δ)
  nodup : (nodes.map PathTree.Node.path).Nodup
  closed : ∀ c q, c :: q ∈ nodes.map PathTree.Node.path → q ∈ nodes.map PathTree.Node.path

namespace PathTree

variable {ν δ : Type} {t t' t'' : PathTree ν δ} {p q : List ν}

def paths (t : PathTree ν δ) : List (List ν) := t.nodes.map Node.path

/-- With a node everything above it is in the tree. -/
theorem above (h : p <:+ q) (mem : q ∈ t.paths) : p ∈ t.paths := by
  induction q with
  | nil => rwa [List.suffix_nil.mp h]
  | cons c q ih =>
    rcases List.suffix_cons_iff.mp h with rfl | h
    · exact mem
    · exact ih h (t.closed c q mem)

/-- What is strictly below a path is below one of the names that come next. -/
theorem suffix_split (h : p <:+ q) (strict : q ≠ p) : ∃ c, c :: p <:+ q := by
  induction q with
  | nil => exact absurd (List.suffix_nil.mp h).symm strict
  | cons c q ih =>
    rcases List.suffix_cons_iff.mp h with rfl | h
    · exact absurd rfl strict
    · by_cases same : q = p
      · exact ⟨c, by rw [same]⟩
      · obtain ⟨d, below⟩ := ih h same
        exact ⟨d, below.trans (List.suffix_cons c q)⟩

/-- Subtrees of siblings are apart. -/
theorem siblings_apart {c d : ν} (hc : c :: p <:+ q) (hd : d :: p <:+ q) : c = d := by
  have same : c :: p = d :: p := (List.suffix_of_suffix_length_le hc hd le_rfl).eq_of_length rfl
  exact (List.cons.inj same).1

/-! ## Children -/

section Children

variable [DecidableEq ν]

/-- The name of a child of `p`. -/
def childName (p : List ν) : List ν → Option ν
  | c :: q => if q = p then some c else none
  | [] => none

/-- The names of the children, in the order of the nodes. -/
def children (t : PathTree ν δ) (p : List ν) : List ν := t.paths.filterMap (childName p)

theorem childName_eq_some {c : ν} : childName p q = some c ↔ q = c :: p := by
  cases q with
  | nil => simp [childName]
  | cons d q =>
    rw [childName]
    split
    · next same => simp [same]
    · next other => simp [other]

theorem mem_children {c : ν} : c ∈ t.children p ↔ c :: p ∈ t.paths := by
  simp [children, List.mem_filterMap, childName_eq_some]

theorem nodup_children (t : PathTree ν δ) (p : List ν) : (t.children p).Nodup := by
  apply List.Nodup.filterMap _ t.nodup
  intro q q' c hq hq'
  rw [Option.mem_def, childName_eq_some] at hq hq'
  rw [hq, hq']

/-- A node without children is taken away. -/
def erase (t : PathTree ν δ) (p : List ν) (leaf : t.children p = []) : PathTree ν δ where
  nodes := t.nodes.filter fun node => node.path ≠ p
  nodup := (List.filter_sublist.map Node.path).nodup t.nodup
  closed := by
    intro c q mem
    obtain ⟨node, listed, path⟩ := List.mem_map.mp mem
    have old : c :: q ∈ t.paths := List.mem_map.mpr ⟨node, (List.mem_filter.mp listed).1, path⟩
    obtain ⟨parent, there, rfl⟩ := List.mem_map.mp (t.closed c q old)
    refine List.mem_map.mpr ⟨parent, List.mem_filter.mpr ⟨there, decide_eq_true ?_⟩, rfl⟩
    rintro rfl
    exact absurd (mem_children.mpr old) (by rw [leaf]; exact List.not_mem_nil)

end Children

/-! ## Taking nodes away -/

/-- `t'` is left of `t` when the nodes with certain paths are gone. -/
def Pruned (gone : List ν → Prop) [DecidablePred gone] (t t' : PathTree ν δ) : Prop :=
  t'.nodes = t.nodes.filter fun node => ¬ gone node.path

section Pruned

variable {gone gone' : List ν → Prop} [DecidablePred gone] [DecidablePred gone']

theorem Pruned.mem (h : Pruned gone t t') : p ∈ t'.paths ↔ p ∈ t.paths ∧ ¬ gone p := by
  unfold paths
  rw [h]
  simp only [List.mem_map, List.mem_filter, decide_eq_true_eq]
  constructor
  · rintro ⟨node, ⟨mem, kept⟩, rfl⟩
    exact ⟨⟨node, mem, rfl⟩, kept⟩
  · rintro ⟨⟨node, mem, rfl⟩, kept⟩
    exact ⟨node, ⟨mem, kept⟩, rfl⟩

theorem Pruned.congr (h : Pruned gone t t') (same : ∀ q ∈ t.paths, gone q ↔ gone' q) : Pruned gone' t t' := by
  unfold Pruned at h ⊢
  rw [h]
  apply List.filter_congr
  intro node mem
  rw [decide_eq_decide, same node.path (List.mem_map.mpr ⟨node, mem, rfl⟩)]

theorem Pruned.nothing (kept : ∀ q ∈ t.paths, ¬ gone q) : Pruned gone t t := by
  unfold Pruned
  rw [List.filter_eq_self.mpr]
  intro node mem
  exact decide_eq_true (kept node.path (List.mem_map.mpr ⟨node, mem, rfl⟩))

theorem Pruned.trans (first : Pruned gone t t') (second : Pruned gone' t' t'') :
    Pruned (fun q => gone q ∨ gone' q) t t'' := by
  unfold Pruned at first second ⊢
  rw [second, first, List.filter_filter]
  apply List.filter_congr
  intro node mem
  simp [not_or, Bool.and_comm]

theorem erase_pruned [DecidableEq ν] (leaf : t.children p = []) : Pruned (fun q => q = p) t (t.erase p leaf) := by
  simp only [Pruned, erase, ne_eq]

/-- The children of a node are the same if none of them is gone. -/
theorem Pruned.children [DecidableEq ν] (h : Pruned gone t t') (kept : ∀ c, c :: p ∈ t.paths → ¬ gone (c :: p)) :
    t'.children p = t.children p := by
  unfold PathTree.children paths
  rw [h, List.filterMap_map, List.filterMap_map, List.filterMap_filter]
  apply List.filterMap_congr
  intro node mem
  by_cases here : gone node.path
  · rw [if_neg (by simpa using here)]
    show none = childName p node.path
    symm
    rw [Option.eq_none_iff_forall_ne_some]
    intro c child
    rw [childName_eq_some] at child
    rw [child] at here
    exact kept c (by rw [← child]; exact List.mem_map.mpr ⟨node, mem, rfl⟩) here
  · rw [if_pos (by simpa using here)]

end Pruned
end PathTree
