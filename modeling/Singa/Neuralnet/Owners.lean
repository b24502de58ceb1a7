import Singa.Neuralnet.Resolve

/-!
# The owners after the loop over `name2param`

`ShareFrom` copies the owner that its source has at that moment. An entry that is
visited after its source gets the source's final owner, one that is visited
before it the source itself. Along an acyclic `share_from` the owners end at
entries that share nothing, when every source comes before its sharers.
-/

namespace Singa.NeuralNet
set_option autoImplicit false

variable {m : String → Option Nat} {params params' : Nat → NetParam} {base : Nat} {order : List String}

/-- The entries of `m` before the loop: each under its own name, and each its own owner. -/
structure Entries (m : String → Option Nat) (base : Nat) (params : Nat → NetParam) : Prop where
  name : ∀ name p, m name = some p → (params p).name = name
  owner : ∀ name p, m name = some p → (params p).owner = p
  data : ∀ name p, m name = some p → (params p).data = base + p

/-- `source` is visited before `name`. -/
def Before (order : List String) (source name : String) : Prop := order.idxOf source < order.idxOf name

instance (order : List String) (source name : String) : Decidable (Before order source name) :=
  inferInstanceAs (Decidable (_ < _))

theorem before_iff {done rest : List String} {source name : String} (nodup : (done ++ name :: rest).Nodup) :
    Before (done ++ name :: rest) source name ↔ source ∈ done := by
  have fresh : name ∉ done := fun mem => (List.nodup_append.mp nodup).2.2 name mem name List.mem_cons_self rfl
  rw [Before, List.idxOf_append_of_notMem fresh, List.idxOf_cons_self, Nat.add_zero]
  constructor
  · intro before
    by_contra later
    rw [List.idxOf_append_of_notMem later] at before
    omega
  · intro mem
    rw [List.idxOf_append_of_mem mem]
    exact List.idxOf_lt_length_of_mem mem

/-- What the loop does at one entry that shares. -/
theorem Entries.shared (h : Entries m base params) (nodup : order.Nodup)
    (run : order.foldlM (shareEntry m) params = .ok params') {name : String} (mem : name ∈ order) {p : Nat}
    (entry : m name = some p) (share : (params p).shareFrom ≠ "") :
    ∃ q, m (params p).shareFrom = some q ∧
      (Before order (params p).shareFrom name →
        (params' p).owner = (params' q).owner ∧ (params' p).data = (params' q).data) ∧
      (¬ Before order (params p).shareFrom name → (params' p).owner = q ∧ (params' p).data = base + q) := by
  obtain ⟨done, rest, rfl⟩ := List.append_of_mem mem
  rw [List.foldlM_append] at run
  obtain ⟨before, first, run⟩ := Run.do_ok.mp run
  rw [List.foldlM_cons] at run
  obtain ⟨after, pass, last⟩ := Run.do_ok.mp run
  have apart := List.nodup_append.mp nodup
  have freshRest : name ∉ rest := (List.nodup_cons.mp apart.2.1).1
  have freshDone : name ∉ done := fun hd => apart.2.2 name hd name List.mem_cons_self rfl
  have same {name' : String} {i : Nat} (entry : m name = some i) (entry' : m name' = some i) : name' = name := by
    rw [← h.name name i entry, h.name name' i entry']
  have labels := (names_labels first p).2.1
  rw [shareEntry, entry] at pass
  simp only [labels, if_pos share] at pass
  cases target : m (params p).shareFrom with
  | none =>
    rw [target] at pass
    cases pass
  | some q =>
    simp only [target] at pass
    obtain rfl := shareParam_ok pass
    have final : params' p = sharing (before p) (before q) := by
      rw [names_keep last fun name' mem' entry' => absurd (same entry entry' ▸ mem') freshRest, Function.update_self]
    refine ⟨q, rfl, fun hb => ?_, fun hb => ?_⟩
    · rw [before_iff nodup] at hb
      -- after its own visit the source is not changed
      have kept : params' q = before q := by
        have other : (params p).shareFrom ≠ name := fun eq => freshDone (eq ▸ hb)
        have notRest : (params p).shareFrom ∉ rest := fun hr =>
          apart.2.2 _ hb _ (List.mem_cons_of_mem _ hr) rfl
        have ne : q ≠ p := fun eq => other (same entry (eq ▸ target))
        rw [names_keep last fun name' mem' entry' => ?_, Function.update_of_ne ne]
        have name_eq : name' = (params p).shareFrom := by
          rw [← h.name name' q entry', h.name _ q target]
        exact absurd (name_eq ▸ mem') notRest
      rw [final, kept]
      exact ⟨rfl, rfl⟩
    · rw [before_iff nodup] at hb
      have kept : before q = params q := names_keep first fun name' mem' entry' => by
        have name_eq : name' = (params p).shareFrom := by
          rw [← h.name name' q entry', h.name _ q target]
        exact absurd (name_eq ▸ mem') hb
      rw [final, kept]
      exact ⟨h.owner _ q target, h.data _ q target⟩

section Ranked

variable (rank : String → Nat)

/-- The `share_from` of the entries descends. -/
def Ranked (m : String → Option Nat) (params : Nat → NetParam) : Prop :=
  ∀ name p, m name = some p → (params p).shareFrom ≠ "" → rank (params p).shareFrom < rank name

/-- An entry that shares does not own itself. -/
theorem Entries.owner_lower (h : Entries m base params) (nodup : order.Nodup)
    (run : order.foldlM (shareEntry m) params = .ok params') (all : ∀ name p, m name = some p → name ∈ order)
    (ranked : Ranked rank m params) {name : String} {p : Nat} (entry : m name = some p) :
    ∃ name' p', m name' = some p' ∧ (params' p).owner = p' ∧ rank name' ≤ rank name ∧
      ((params p).shareFrom ≠ "" → rank name' < rank name) := by
  induction hr : rank name using Nat.strong_induction_on generalizing name p with
  | h r ih =>
    subst hr
    by_cases share : (params p).shareFrom = ""
    · exact ⟨name, p, entry, by rw [names_keep run fun _ _ _ => share, h.owner name p entry], le_rfl, fun w => absurd share w⟩
    · have lower := ranked name p entry share
      obtain ⟨q, target, after, before⟩ := h.shared nodup run (all name p entry) entry share
      by_cases hb : Before order (params p).shareFrom name
      · obtain ⟨name', p', entry', owner, le, -⟩ := ih _ lower target rfl
        exact ⟨name', p', entry', (after hb).1.trans owner, by omega, fun _ => by omega⟩
      · exact ⟨_, q, target, (before hb).1, by omega, fun _ => lower⟩

/-- When sources that share come before their sharers, every entry has the owner and the blob of an entry
that shares nothing, and those of its source. -/
theorem Entries.resolved (h : Entries m base params) (nodup : order.Nodup)
    (run : order.foldlM (shareEntry m) params = .ok params') (all : ∀ name p, m name = some p → name ∈ order)
    (ranked : Ranked rank m params)
    (ordered : ∀ name p q, m name = some p → (params p).shareFrom ≠ "" → m (params p).shareFrom = some q →
      (params q).shareFrom ≠ "" → Before order (params p).shareFrom name)
    {name : String} {p : Nat} (entry : m name = some p) :
    (∃ root r, m root = some r ∧ params' r = params r ∧ (params' p).owner = r ∧ (params' p).data = base + r) ∧
      ((params p).shareFrom ≠ "" → ∃ q, m (params p).shareFrom = some q ∧ (params' q).owner = (params' p).owner) := by
  induction hr : rank name using Nat.strong_induction_on generalizing name p with
  | h r ih =>
    subst hr
    by_cases share : (params p).shareFrom = ""
    · have kept : params' p = params p := names_keep run fun _ _ _ => share
      refine ⟨⟨name, p, entry, kept, ?_, ?_⟩, fun w => absurd share w⟩
      · rw [kept, h.owner name p entry]
      · rw [kept, h.data name p entry]
    · have lower := ranked name p entry share
      obtain ⟨q, target, after, before⟩ := h.shared nodup run (all name p entry) entry share
      by_cases hb : Before order (params p).shareFrom name
      · obtain ⟨⟨root, r, isRoot, kept, owner, data⟩, -⟩ := ih _ lower target rfl
        obtain ⟨sameOwner, sameData⟩ := after hb
        exact ⟨⟨root, r, isRoot, kept, sameOwner.trans owner, sameData.trans data⟩,
          fun _ => ⟨q, target, sameOwner.symm⟩⟩
      · have root : (params q).shareFrom = "" := by
          by_contra chain
          exact hb (ordered name p q entry share target chain)
        have kept : params' q = params q := names_keep run fun _ _ _ => root
        obtain ⟨owner, data⟩ := before hb
        refine ⟨⟨_, q, target, kept, owner, data⟩, fun _ => ⟨q, target, ?_⟩⟩
        rw [owner, kept, h.owner _ q target]

end Ranked

end Singa.NeuralNet
