import Mathlib.Logic.Relation
import Mathlib.Tactic

/-!
# `while` loops with fuel

A loop is a body that either goes on from a new state or leaves with a result.
`Loop.run` spends one unit of fuel for each pass, so a run that ends is an
equation `run body n s = some r`. A larger fuel never changes a result
(`run_mono`); a measure that every pass lowers gives one (`run_ends`); an
invariant of the passes holds of the state the loop leaves from (`run_inv`).
-/

namespace Loop
set_option autoImplicit false

variable {σ ρ : Type*} {body : σ → σ ⊕ ρ}

/-- Run the loop from `s` for at most `fuel` passes. -/
def run (body : σ → σ ⊕ ρ) : Nat → σ → Option ρ
  | 0, _ => none
  | fuel + 1, s =>
    match body s with
    | .inl s' => run body fuel s'
    | .inr r => some r

theorem run_inl {s s' : σ} (h : body s = .inl s') (fuel : Nat) :
    run body (fuel + 1) s = run body fuel s' := by
  simp only [run, h]

theorem run_inr {s : σ} {r : ρ} (h : body s = .inr r) (fuel : Nat) :
    run body (fuel + 1) s = some r := by
  simp only [run, h]

/-- A larger fuel keeps the result. -/
theorem run_mono {n m : Nat} {s : σ} {r : ρ} (h : run body n s = some r) (le : n ≤ m) :
    run body m s = some r := by
  induction n generalizing m s with
  | zero => cases h
  | succ n ih =>
    obtain ⟨m, rfl⟩ : ∃ k, m = k + 1 := ⟨m - 1, by omega⟩
    cases hb : body s with
    | inl s' =>
      rw [run_inl hb] at h ⊢
      exact ih h (by omega)
    | inr r' =>
      rw [run_inr hb] at h ⊢
      exact h

/-- A measure that each pass lowers bounds the number of passes. -/
theorem run_ends (Inv : σ → Prop) (μ : σ → Nat)
    (pass : ∀ s s', Inv s → body s = .inl s' → Inv s' ∧ μ s' < μ s) {s : σ} (inv : Inv s) :
    ∃ r, run body (μ s + 1) s = some r := by
  generalize hm : μ s = m
  induction m using Nat.strongRecOn generalizing s with
  | ind m ih =>
    cases hb : body s with
    | inr r => exact ⟨r, run_inr hb m⟩
    | inl s' =>
      obtain ⟨inv', less⟩ := pass s s' inv hb
      obtain ⟨r, hr⟩ := ih (μ s') (hm ▸ less) inv' rfl
      refine ⟨r, ?_⟩
      rw [run_inl hb]
      exact run_mono hr (by omega)

/-- An invariant of the passes holds at the pass that leaves. -/
theorem run_inv (Inv : σ → Prop) (pass : ∀ s s', Inv s → body s = .inl s' → Inv s')
    {n : Nat} {s : σ} {r : ρ} (inv : Inv s) (h : run body n s = some r) :
    ∃ last, Inv last ∧ body last = .inr r := by
  induction n generalizing s with
  | zero => cases h
  | succ n ih =>
    cases hb : body s with
    | inl s' =>
      rw [run_inl hb] at h
      exact ih (pass s s' inv hb) h
    | inr r' =>
      rw [run_inr hb] at h
      cases h
      exact ⟨s, inv, hb⟩

/-- Loops whose passes agree under `f` and `g` run alike. -/
theorem run_map {τ υ : Type*} {body' : τ → τ ⊕ υ} (f : σ → τ) (g : ρ → υ) (same : ∀ s, body' (f s) = (body s).map f g)
    (fuel : Nat) (s : σ) : run body' fuel (f s) = (run body fuel s).map g := by
  induction fuel generalizing s with
  | zero => rfl
  | succ fuel ih =>
    cases hb : body s with
    | inl s' =>
      have pass : body' (f s) = .inl (f s') := by rw [same, hb, Sum.map_inl]
      rw [run_inl pass, run_inl hb]
      exact ih s'
    | inr r =>
      have pass : body' (f s) = .inr (g r) := by rw [same, hb, Sum.map_inr]
      rw [run_inr pass, run_inr hb]
      rfl

end Loop
