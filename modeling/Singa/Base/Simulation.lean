import Mathlib.Tactic

/-!
# Computations that follow each other

A step of a machine gives a new state and an answer, or fails. It is followed by
a step of another machine, if that one gives the same answer and the new states
are related again.
-/

namespace Singa
set_option autoImplicit false

variable {ε δ σ τ σ' τ' α β : Type}

/-- Whenever `x` gives an answer, `y` gives it too, and their states are related. -/
def Followed (R : σ → τ → Prop) (x : Except ε (σ × α)) (y : Except δ (τ × α)) : Prop :=
  ∀ s a, x = .ok (s, a) → ∃ t, y = .ok (t, a) ∧ R s t

variable {R : σ → τ → Prop} {R' : σ' → τ' → Prop}

theorem Followed.pure {s : σ} {t : τ} (related : R s t) (a : α) :
    Followed R (.ok (s, a) : Except ε (σ × α)) (.ok (t, a) : Except δ (τ × α)) := by
  intro s' a' same
  cases same
  exact ⟨t, rfl, related⟩

theorem Followed.error (e : ε) (y : Except δ (τ × α)) : Followed R (.error e) y := by
  intro s a same
  cases same

/-- What goes on with related states and the same answer. -/
theorem Followed.bind {x : Except ε (σ × α)} {y : Except δ (τ × α)} {f : σ × α → Except ε (σ' × β)}
    {g : τ × α → Except δ (τ' × β)} (first : Followed R x y)
    (then_ : ∀ s t a, R s t → Followed R' (f (s, a)) (g (t, a))) : Followed R' (x >>= f) (y >>= g) := by
  intro s' b run
  cases made : x with
  | error e =>
    rw [made] at run
    cases run
  | ok pair =>
    obtain ⟨s, a⟩ := pair
    obtain ⟨t, other, related⟩ := first s a made
    rw [made] at run
    rw [other]
    exact then_ s t a related s' b run

/-- The answers of `n` steps in a row. -/
def steps (step : σ → Except ε (σ × α)) : ℕ → σ → Except ε (σ × List α)
  | 0, s => .ok (s, [])
  | n + 1, s => do
    let (s, a) ← step s
    let (s, as) ← steps step n s
    .ok (s, a :: as)

/-- **Steps in a row** follow each other, if single ones do. -/
theorem Followed.steps {f : σ → Except ε (σ × α)} {g : τ → Except δ (τ × α)}
    (step : ∀ s t, R s t → Followed R (f s) (g t)) (n : ℕ) {s : σ} {t : τ} (related : R s t) :
    Followed R (steps f n s) (steps g n t) := by
  induction n generalizing s t with
  | zero => exact Followed.pure related []
  | succ n ih =>
    apply (step s t related).bind
    intro s t a related
    apply (ih related).bind
    intro s t as related
    exact Followed.pure related (a :: as)

/-- Steps from `s` on never fail, and the one after `i` others answers `found i`. -/
def Yields (step : σ → Except ε (σ × α)) (s : σ) (found : ℕ → α) : Prop :=
  ∀ n, ∃ s', steps step n s = .ok (s', (List.range n).map found)

theorem yields_iff {step : σ → Except ε (σ × α)} {s : σ} {found : ℕ → α} : Yields step s found ↔
    ∃ s', step s = .ok (s', found 0) ∧ Yields step s' fun i => found (i + 1) := by
  have tail (n : ℕ) : (List.range (n + 1)).map found = found 0 :: (List.range n).map fun i => found (i + 1) := by
    rw [List.range_succ_eq_map, List.map_cons, List.map_map]
    rfl
  constructor
  · intro all
    cases first : step s with
    | error e =>
      obtain ⟨s', run⟩ := all 1
      unfold Singa.steps at run
      rw [first] at run
      cases run
    | ok pair =>
      obtain ⟨s₁, a⟩ := pair
      have rest (n : ℕ) : ∃ s', steps step n s₁ = .ok (s', (List.range n).map fun i => found (i + 1)) ∧ a = found 0 := by
        obtain ⟨s', run⟩ := all (n + 1)
        unfold Singa.steps at run
        rw [first, tail] at run
        cases made : steps step n s₁ with
        | error e =>
          simp only [bind, Except.bind, made] at run
          cases run
        | ok pair =>
          simp only [bind, Except.bind, made] at run
          obtain ⟨same, answers⟩ := Prod.mk.inj (Except.ok.inj run)
          obtain ⟨head, rest⟩ := List.cons.inj answers
          exact ⟨pair.1, by rw [← rest], head⟩
      obtain ⟨-, -, rfl⟩ := rest 0
      refine ⟨s₁, rfl, fun n => ?_⟩
      obtain ⟨s', run, -⟩ := rest n
      exact ⟨s', run⟩
  · rintro ⟨s₁, first, rest⟩ n
    cases n with
    | zero => exact ⟨s, rfl⟩
    | succ n =>
      obtain ⟨s', run⟩ := rest n
      refine ⟨s', ?_⟩
      unfold Singa.steps
      rw [first, tail]
      simp only [bind, Except.bind, run]

/-- A step that leads to where it began. -/
theorem Yields.of_fixed {step : σ → Except ε (σ × α)} {s : σ} {a : α} (fixed : step s = .ok (s, a)) :
    Yields step s fun _ => a := by
  intro n
  induction n with
  | zero => exact ⟨s, rfl⟩
  | succ n ih =>
    obtain ⟨s', run⟩ := ih
    refine ⟨s', ?_⟩
    rw [List.map_const', List.length_range, List.replicate_succ]
    rw [List.map_const', List.length_range] at run
    unfold Singa.steps
    rw [fixed]
    simp only [bind, Except.bind, run]

/-- **One answer for ever**: it is enough to follow the steps that give it. -/
theorem Yields.of_related {f : σ → Except ε (σ × α)} {g : τ → Except δ (τ × α)} {a : α}
    (step : ∀ s t, R s t → ∀ s', f s = .ok (s', a) → ∃ t', g t = .ok (t', a) ∧ R s' t') {s : σ} {t : τ}
    (related : R s t) (yields : Yields f s fun _ => a) : Yields g t fun _ => a := by
  intro n
  induction n generalizing s t with
  | zero => exact ⟨t, rfl⟩
  | succ n ih =>
    obtain ⟨s', first, rest⟩ := yields_iff.mp yields
    obtain ⟨t', other, related'⟩ := step s t related s' first
    obtain ⟨t'', run⟩ := ih related' rest
    refine ⟨t'', ?_⟩
    rw [List.map_const', List.length_range, List.replicate_succ]
    rw [List.map_const', List.length_range] at run
    unfold Singa.steps
    rw [other]
    simp only [bind, Except.bind, run]

end Singa
