import Mathlib.Tactic

/-!
# Runs of events

A system takes one event after the other. A fact about every state of a run is
proved from its first state and one step.
-/

namespace Singa.Events
set_option autoImplicit false

variable {σ ε : Type} (step : σ → ε → Option σ) (init : σ)

/-- `s` is a state that `events` lead through. -/
def Reached (events : List ε) (s : σ) : Prop :=
  ∃ done, done <+: events ∧ done.foldlM step init = some s

/-- Event `e` of `events` comes in state `s`. -/
def Comes (events : List ε) (s : σ) (e : ε) : Prop :=
  ∃ done, done ++ [e] <+: events ∧ done.foldlM step init = some s

variable {step init} {events : List ε} {s s' : σ} {e : ε}

theorem Comes.reached (h : Comes step init events s e) : Reached step init events s := by
  obtain ⟨done, part, reach⟩ := h
  exact ⟨done, (List.prefix_append done [e]).trans part, reach⟩

theorem Comes.next (h : Comes step init events s e) (pass : step s e = some s') : Reached step init events s' := by
  obtain ⟨done, part, reach⟩ := h
  refine ⟨done ++ [e], part, ?_⟩
  rw [List.foldlM_append]
  refine Option.bind_eq_some_iff.mpr ⟨s, reach, ?_⟩
  rw [List.foldlM_cons]
  exact Option.bind_eq_some_iff.mpr ⟨s', pass, rfl⟩

/-- The invariant rule of a run, with the events so far. -/
theorem prefix_inv (Inv : List ε → σ → Prop) (start : Inv [] init)
    (keep : ∀ done s e s', done ++ [e] <+: events → done.foldlM step init = some s → Inv done s →
      step s e = some s' → Inv (done ++ [e]) s')
    {done : List ε} (part : done <+: events) (h : done.foldlM step init = some s) : Inv done s := by
  induction done using List.reverseRecOn generalizing s with
  | nil => exact Option.some.inj h ▸ start
  | append_singleton done e ih =>
    rw [List.foldlM_append] at h
    obtain ⟨before, reach, h⟩ := Option.bind_eq_some_iff.mp h
    rw [List.foldlM_cons] at h
    obtain ⟨after, pass, h⟩ := Option.bind_eq_some_iff.mp h
    obtain rfl := Option.some.inj h
    exact keep done before e after part reach (ih ((List.prefix_append done [e]).trans part) reach) pass

/-- The invariant rule of a run. -/
theorem reached_inv (Inv : σ → Prop) (start : Inv init)
    (keep : ∀ s e s', Comes step init events s e → Inv s → step s e = some s' → Inv s')
    (h : Reached step init events s) : Inv s := by
  obtain ⟨done, part, h⟩ := h
  exact prefix_inv (fun _ => Inv) start (fun done s e s' part reach => keep s e s' ⟨done, part, reach⟩) part h

/-- **When a property holds in every state of a run:** in its first state, and every step that is taken meets the
condition under which one step keeps it. -/
theorem reached_iff (Inv P : σ → Prop) (C : σ → ε → Prop) (start : Inv init)
    (keep : ∀ s e s', Inv s → step s e = some s' → Inv s')
    (next : ∀ s e s', Inv s → P s → step s e = some s' → (P s' ↔ C s e)) :
    (∀ s, Reached step init events s → P s) ↔
      P init ∧ ∀ s e s', Comes step init events s e → step s e = some s' → C s e := by
  have inv : ∀ s, Reached step init events s → Inv s := fun s =>
    reached_inv Inv start fun s e s' _ => keep s e s'
  constructor
  · intro all
    refine ⟨all init ⟨[], List.nil_prefix, rfl⟩, fun s e s' comes pass => ?_⟩
    exact (next s e s' (inv s comes.reached) (all s comes.reached) pass).mp (all s' (comes.next pass))
  · rintro ⟨first, each⟩ s reached
    refine (reached_inv (fun s => Inv s ∧ P s) ⟨start, first⟩ (fun s e s' comes here pass => ?_) reached).2
    exact ⟨keep s e s' here.1 pass, (next s e s' here.1 here.2 pass).mpr (each s e s' comes pass)⟩

end Singa.Events
