import Mathlib.Data.List.GetD
import Mathlib.Order.Defs.PartialOrder
import Mathlib.Tactic

/-!
# Next-fit packing in a fixed order

Items arrive in order and each goes into the current box or, when the current
box refuses it, into a later one; boxes are never reopened. `Placed` is the
greedy run that opens a box only when it must. It is optimal among all packings
that keep the order (`Placed.le_of_packs`), as long as a box with more room
never refuses what a fuller one takes (`Boxes.Monotone`).
-/

namespace NextFit
set_option autoImplicit false

variable {β ι : Type*}

/-- `put b x` is box `b` after it took `x`, `none` when it refuses; `fresh` is an empty box. -/
structure Boxes (β ι : Type*) where
  put : β → ι → Option β
  fresh : β

/-- Box states are ordered by room: more room takes more, and taking leaves less. -/
structure Boxes.Monotone [Preorder β] (B : Boxes β ι) : Prop where
  takes : ∀ {b b' c : β} {x : ι}, b ≤ b' → B.put b x = some c → ∃ c', B.put b' x = some c' ∧ c ≤ c'
  shrinks : ∀ {b c : β} {x : ι}, B.put b x = some c → c ≤ b

variable {B : Boxes β ι}

/-- One box, from state `b`, takes the whole run. -/
def Boxes.Holds (B : Boxes β ι) : β → List ι → Prop
  | _, [] => True
  | b, x :: run => ∃ c, B.put b x = some c ∧ B.Holds c run

/-- The greedy run: box `id` is in state `b`, and `ids` are the boxes of the items. -/
inductive Placed (B : Boxes β ι) : β → Nat → List ι → List Nat → Prop
  | nil {b : β} {id : Nat} : Placed B b id [] []
  | put {b c : β} {id : Nat} {x : ι} {items : List ι} {ids : List Nat} :
      B.put b x = some c → Placed B c id items ids → Placed B b id (x :: items) (id :: ids)
  | next {b : β} {id : Nat} {x : ι} {items : List ι} {ids : List Nat} :
      B.put b x = none → Placed B B.fresh (id + 1) (x :: items) ids → Placed B b id (x :: items) ids

/-- Any packing in order, which may close a box early: `n` more boxes are opened. -/
inductive Packs (B : Boxes β ι) : β → List ι → Nat → Prop
  | nil {b : β} : Packs B b [] 0
  | put {b c : β} {x : ι} {items : List ι} {n : Nat} :
      B.put b x = some c → Packs B c items n → Packs B b (x :: items) n
  | next {b : β} {items : List ι} {n : Nat} : Packs B B.fresh items n → Packs B b items (n + 1)

theorem Placed.length_eq {b : β} {id : Nat} {items : List ι} {ids : List Nat}
    (h : Placed B b id items ids) : ids.length = items.length := by
  induction h with
  | nil => rfl
  | put _ _ ih => simp [ih]
  | next _ _ ih => exact ih

theorem Placed.le_mem {b : β} {id : Nat} {items : List ι} {ids : List Nat}
    (h : Placed B b id items ids) : ∀ i ∈ ids, id ≤ i := by
  induction h with
  | nil => simp
  | put _ _ ih =>
    intro i mem
    rcases List.mem_cons.mp mem with rfl | mem
    · exact Nat.le_refl _
    · exact ih i mem
  | next _ _ ih =>
    intro i mem
    exact Nat.le_of_succ_le (ih i mem)

/-- Boxes are filled in order. -/
theorem Placed.pairwise {b : β} {id : Nat} {items : List ι} {ids : List Nat}
    (h : Placed B b id items ids) : ids.Pairwise (· ≤ ·) := by
  induction h with
  | nil => exact List.Pairwise.nil
  | put _ rest ih => exact List.pairwise_cons.mpr ⟨rest.le_mem, ih⟩
  | next _ _ ih => exact ih

/-- The greedy run cuts the items into the runs of its boxes. -/
theorem Placed.runs {b : β} {id : Nat} {items : List ι} {ids : List Nat}
    (h : Placed B b id items ids) {n : Nat} (below : ∀ i ∈ ids, i < n) (start : id < n) :
    ∃ run runs, items = run ++ List.flatten runs ∧ B.Holds b run ∧
      (∀ r ∈ runs, B.Holds B.fresh r) ∧ id + runs.length < n := by
  induction h with
  | nil => exact ⟨[], [], rfl, trivial, by simp, by simpa using start⟩
  | put takes _ ih =>
    obtain ⟨run, runs, split, held, all, few⟩ := ih (fun i mem => below i (List.mem_cons_of_mem _ mem)) start
    exact ⟨_ :: run, runs, by simp [split], ⟨_, takes, held⟩, all, few⟩
  | @next _ id x items ids _ rest ih =>
    have opened : id + 1 < n := by
      -- the item that opened the box has an id, and it is at least `id + 1`
      have len := rest.length_eq
      obtain ⟨i, ids, rfl⟩ : ∃ i t, ids = i :: t := by
        cases ids with
        | nil => simp at len
        | cons i t => exact ⟨i, t, rfl⟩
      exact Nat.lt_of_le_of_lt (rest.le_mem i (by simp)) (below i (by simp))
    obtain ⟨run, runs, split, held, all, few⟩ := ih below opened
    refine ⟨[], run :: runs, by simpa using split, trivial, ?_, ?_⟩
    · intro r mem
      rcases List.mem_cons.mp mem with rfl | mem
      · exact held
      · exact all r mem
    · simp only [List.length_cons]
      omega

/-- Runs that fit one box each are a packing. -/
theorem Packs.of_runs {runs : List (List ι)} (all : ∀ r ∈ runs, B.Holds B.fresh r) {b : β}
    {run : List ι} (held : B.Holds b run) : Packs B b (run ++ runs.flatten) runs.length := by
  induction runs generalizing b run with
  | nil =>
    induction run generalizing b with
    | nil => exact .nil
    | cons x run ih =>
      obtain ⟨c, takes, held⟩ := held
      exact .put takes (ih held)
  | cons r runs ih =>
    induction run generalizing b with
    | nil => exact .next (ih (fun t mem => all t (List.mem_cons_of_mem _ mem)) (all r (by simp)))
    | cons x run ihr =>
      obtain ⟨c, takes, held⟩ := held
      exact .put takes (ihr held)

/-- The greedy run is determined by the items. -/
theorem Placed.det {b : β} {id : Nat} {items : List ι} {ids ids' : List Nat} (h : Placed B b id items ids)
    (h' : Placed B b id items ids') : ids = ids' := by
  induction h generalizing ids' with
  | nil =>
    cases h'
    rfl
  | put takes _ ih =>
    cases h' with
    | put takes' rest =>
      rw [takes] at takes'
      cases takes'
      rw [ih rest]
    | next refuses _ =>
      rw [takes] at refuses
      cases refuses
  | next refuses _ ih =>
    cases h' with
    | put takes _ =>
      rw [refuses] at takes
      cases takes
    | next _ rest => exact ih rest

/-- The items in box `k`. -/
def inBox (k : Nat) (ids : List Nat) (items : List ι) : List ι := ((ids.zip items).filter (·.1 = k)).map Prod.snd

theorem inBox_cons (k id : Nat) (ids : List Nat) (x : ι) (items : List ι) :
    inBox k (id :: ids) (x :: items) = if id = k then x :: inBox k ids items else inBox k ids items := by
  rw [inBox, List.zip_cons_cons, List.filter_cons]
  split_ifs <;> simp_all [inBox]

theorem inBox_eq_nil {k : Nat} {ids : List Nat} (none : ∀ i ∈ ids, i ≠ k) (items : List ι) : inBox k ids items = [] := by
  rw [inBox, List.map_eq_nil_iff, List.filter_eq_nil_iff]
  intro e mem
  simpa using none e.1 (List.of_mem_zip mem).1

section Optimal

variable [Preorder β]

/-- The greedy run stays ahead of any packing: it is in an earlier box, or in the
same one with at least as much room. -/
theorem Placed.le_of_packs (mono : B.Monotone) {c : β} {items : List ι} {n : Nat}
    (packs : Packs B c items n) {b : β} {id j : Nat} {ids : List Nat} (h : Placed B b id items ids)
    (ahead : id < j ∨ id = j ∧ c ≤ b) (room : c ≤ B.fresh) : ∀ i ∈ ids, i ≤ j + n := by
  induction packs generalizing b id j ids with
  | nil => cases h; simp
  | next _ ih =>
    intro i mem
    have := ih h (j := j + 1) (.inl (by omega)) le_rfl i mem
    omega
  | @put c d x items n takes _ ih =>
    -- the case where the greedy box takes the item too
    have both : ∀ {b id ids}, Placed B b id (x :: items) ids → (id < j ∨ id = j ∧ c ≤ b) →
        (∃ b', B.put b x = some b') → ∀ i ∈ ids, i ≤ j + n := by
      rintro b id ids h ahead ⟨b', hb⟩
      cases h with
      | next refuses _ => rw [hb] at refuses; cases refuses
      | put takes' rest =>
        rw [hb] at takes'
        cases takes'
        intro i mem
        rcases List.mem_cons.mp mem with rfl | mem
        · omega
        · refine ih rest ?_ (le_trans (mono.shrinks takes) room) i mem
          rcases ahead with less | ⟨same, le⟩
          · exact .inl less
          · obtain ⟨c', hc', le'⟩ := mono.takes le takes
            rw [hb] at hc'
            cases hc'
            exact .inr ⟨same, le'⟩
    cases hput : B.put b x with
    | some b' => exact both h ahead ⟨b', hput⟩
    | none =>
      cases h with
      | put takes' _ => rw [hput] at takes'; cases takes'
      | next _ rest =>
        have less : id < j := by
          rcases ahead with less | ⟨_, le⟩
          · exact less
          · obtain ⟨c', hc', _⟩ := mono.takes le takes
            rw [hput] at hc'
            cases hc'
        obtain ⟨c', hc', _⟩ := mono.takes room takes
        exact both rest (by rcases Nat.lt_or_ge (id + 1) j with lt | ge
                            · exact .inl lt
                            · exact .inr ⟨by omega, room⟩) ⟨c', hc'⟩

/-- **Next fit is optimal in order**: the greedy run uses boxes below `n` exactly when
the items can be cut into at most `n` runs of one box each. -/
theorem Placed.below_iff (mono : B.Monotone) {items : List ι} {ids : List Nat}
    (h : Placed B B.fresh 0 items ids) {n : Nat} (pos : 0 < n) :
    (∀ i ∈ ids, i < n) ↔
      ∃ runs : List (List ι), runs.flatten = items ∧ runs.length ≤ n ∧ ∀ r ∈ runs, B.Holds B.fresh r := by
  constructor
  · intro below
    obtain ⟨run, runs, split, held, all, few⟩ := h.runs below pos
    refine ⟨run :: runs, by simp [split], by simp only [List.length_cons]; omega, ?_⟩
    intro r mem
    rcases List.mem_cons.mp mem with rfl | mem
    · exact held
    · exact all r mem
  · rintro ⟨runs, rfl, few, all⟩ i mem
    cases runs with
    | nil => cases h; simp at mem
    | cons r runs =>
      have packs := Packs.of_runs (fun t mem => all t (List.mem_cons_of_mem _ mem)) (all r (by simp))
      have := Placed.le_of_packs mono packs h (j := 0) (.inr ⟨rfl, le_rfl⟩) le_rfl i mem
      simp only [List.length_cons] at few
      omega

end Optimal

end NextFit
