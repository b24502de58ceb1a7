import Mathlib.Algebra.Order.BigOperators.Group.List
import Mathlib.Data.List.Perm.Subperm
import Mathlib.Tactic
import Singa.Communication.Msg

/-!
# Worker groups and their parts

A worker group is spread over processes, each with some of the group's shares of
a parameter. The stub of a process sends one update request for all of its
shares, so the shares that requests stand for are those of their parts.
-/

namespace Singa
set_option autoImplicit false

/-- The part of a worker group in one process, with its number of shares of the parameter. -/
structure GroupPart where
  grp : Int
  proc : Int
  numLocal : Int
  deriving DecidableEq, Repr

namespace GroupPart

/-- Where the requests of the part come from. -/
def stubAddr (e : GroupPart) : Addr := ⟨e.grp, e.proc, .kStub⟩

@[simp] theorem stubAddr_grp (e : GroupPart) : e.stubAddr.grp = e.grp := rfl

/-- The shares that the given parts stand for. -/
def shares (parts : List GroupPart) : Int := (parts.map numLocal).sum

@[simp] theorem shares_nil : shares [] = 0 := rfl

@[simp] theorem shares_concat (parts : List GroupPart) (e : GroupPart) :
    shares (parts ++ [e]) = shares parts + e.numLocal := by
  simp [shares]

/-- The parts of the group `grp`. -/
def ofGroup (parts : List GroupPart) (grp : Int) : List GroupPart := parts.filter (·.grp = grp)

/-- Groups whose workers together have `total` shares each. -/
structure Groups (parts : List GroupPart) (total : Int) : Prop where
  distinct : (parts.map stubAddr).Nodup
  positive : ∀ e ∈ parts, 1 ≤ e.numLocal
  total : ∀ e ∈ parts, shares (ofGroup parts e.grp) = total

theorem shares_perm {l l' : List GroupPart} (perm : l.Perm l') : shares l = shares l' := (perm.map numLocal).sum_eq

theorem numLocal_le_shares {l : List GroupPart} (positive : ∀ e ∈ l, 1 ≤ e.numLocal) {e : GroupPart} (he : e ∈ l) :
    e.numLocal ≤ shares l := by
  refine List.single_le_sum ?_ _ (List.mem_map_of_mem he)
  intro n hn
  obtain ⟨x, hx, rfl⟩ := List.mem_map.mp hn
  exact Int.le_trans Int.one_nonneg (positive x hx)

/-- The only part of a group has all of its shares. -/
theorem Groups.numLocal_eq {parts : List GroupPart} {total : Int} (groups : Groups parts total) {e : GroupPart}
    (he : e ∈ parts) (alone : ∀ x ∈ parts, x.grp = e.grp → x = e) : e.numLocal = total := by
  have perm : (ofGroup parts e.grp).Perm [e] := by
    have nodup := (groups.distinct.of_map stubAddr).filter (·.grp = e.grp)
    refine (List.perm_ext_iff_of_nodup nodup (List.nodup_singleton e)).mpr fun x => ?_
    simp only [List.mem_filter, List.mem_singleton, decide_eq_true_eq]
    constructor
    · exact fun here => alone x here.1 here.2
    · rintro rfl
      exact ⟨he, rfl⟩
  rw [← groups.total e he, shares_perm perm]
  simp [shares]

/-- Distinct parts of one group have at most its shares, and all of them when they are all parts. -/
theorem Groups.shares_le {parts l : List GroupPart} {total : Int} (groups : Groups parts total) {e : GroupPart}
    (he : e ∈ parts) (nodup : l.Nodup) (within : ∀ x ∈ l, x ∈ ofGroup parts e.grp) :
    shares l ≤ total ∧ (total ≤ shares l → l.Perm (ofGroup parts e.grp)) := by
  obtain ⟨l', perm, sub⟩ := List.Nodup.subperm nodup within
  obtain ⟨rest, whole⟩ := sub.exists_perm_append
  have some : ∀ x ∈ rest, 1 ≤ x.numLocal := fun x mem => by
    have inside := whole.mem_iff.mpr (List.mem_append_right l' mem)
    exact groups.positive x (List.mem_filter.mp inside).1
  have split : total = shares l + shares rest := by
    rw [← groups.total e he, shares_perm whole, ← shares_perm perm]
    simp [shares]
  have low : (rest.length : Int) ≤ shares rest := by
    have each : ∀ n ∈ rest.map numLocal, 1 ≤ n := by
      intro n hn
      obtain ⟨x, hx, rfl⟩ := List.mem_map.mp hn
      exact some x hx
    simpa [shares] using List.card_nsmul_le_sum _ _ each
  refine ⟨by omega, fun full => ?_⟩
  have none : rest = [] := List.length_eq_zero_iff.mp (by omega)
  rw [none, List.append_nil] at whole
  exact perm.symm.trans whole.symm

/-- A part leaves room for another one of its group. -/
theorem Groups.numLocal_lt {parts : List GroupPart} {total : Int} (groups : Groups parts total) {e e' : GroupPart}
    (he : e ∈ parts) (he' : e' ∈ parts) (same : e.grp = e'.grp) (different : e ≠ e') : e.numLocal < total := by
  have within : ∀ x ∈ [e, e'], x ∈ ofGroup parts e.grp := by
    intro x hx
    rcases List.mem_pair.mp hx with rfl | rfl
    · exact List.mem_filter.mpr ⟨he, by simp⟩
    · exact List.mem_filter.mpr ⟨he', by simpa using same.symm⟩
  have pair := (groups.shares_le he (by simpa using different) within).1
  have more := groups.positive e' he'
  simp only [shares, List.map_cons, List.map_nil, List.sum_cons, List.sum_nil] at pair
  omega

end GroupPart

end Singa
