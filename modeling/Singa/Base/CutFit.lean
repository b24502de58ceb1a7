import Singa.Base.NextFit

/-!
# Packing in a fixed order with cuts

Items go into boxes of the same room, in order and without going back. A box
takes an item that is at most `slack` larger than what is left of it; a larger
one may be cut, so that its first part fills the box exactly, unless the part
would be smaller than `slack`. `Dealt` is the greedy run, which opens a box only
when it must. It needs no more boxes than any other packing (`Packs`), although
it cuts in other places: it stays ahead of every one of them. Packing its
pieces again by next fit, without cuts, finds the same boxes (`Dealt.placed`).
-/

namespace CutFit
set_option autoImplicit false

variable {room slack : Nat}

/-- The greedy run: `c` is left of box `id`, `out` are the pieces with their boxes, `last` is the last box. -/
inductive Dealt (room slack : Nat) : Nat → Nat → List Nat → List (Nat × Nat) → Nat → Prop
  | nil {c id : Nat} : Dealt room slack c id [] [] id
  | put {c id x last : Nat} {items : List Nat} {out : List (Nat × Nat)} :
      x ≤ c + slack → Dealt room slack (c - x) id items out last →
        Dealt room slack c id (x :: items) ((x, id) :: out) last
  | cut {c id x last : Nat} {items : List Nat} {out : List (Nat × Nat)} :
      0 < c → slack ≤ c → c + slack < x → Dealt room slack room (id + 1) ((x - c) :: items) out last →
        Dealt room slack c id (x :: items) ((c, id) :: out) last
  | next {c id x last : Nat} {items : List Nat} {out : List (Nat × Nat)} :
      (c = 0 ∨ c < slack) → c + slack < x → Dealt room slack room (id + 1) (x :: items) out last →
        Dealt room slack c id (x :: items) out last

/-- Any packing in order, which may close a box early: `n` more boxes are opened. -/
inductive Packs (room slack : Nat) : Nat → List Nat → Nat → Prop
  | nil {c : Nat} : Packs room slack c [] 0
  | put {c x n : Nat} {items : List Nat} :
      x ≤ c + slack → Packs room slack (c - x) items n → Packs room slack c (x :: items) n
  | cut {c x n : Nat} {items : List Nat} :
      slack ≤ c → c + slack < x → Packs room slack room ((x - c) :: items) n →
        Packs room slack c (x :: items) (n + 1)
  | next {c n : Nat} {items : List Nat} : Packs room slack room items n → Packs room slack c items (n + 1)

variable {b c id j n last x y : Nat} {items l : List Nat} {out : List (Nat × Nat)}

/-- The greedy run is a packing. -/
theorem Dealt.packs (h : Dealt room slack c id items out last) : ∃ n, last = id + n ∧ Packs room slack c items n := by
  induction h with
  | nil => exact ⟨0, rfl, .nil⟩
  | put takes _ ih =>
    obtain ⟨n, rfl, packs⟩ := ih
    exact ⟨n, rfl, .put takes packs⟩
  | cut _ enough large _ ih =>
    obtain ⟨n, rfl, packs⟩ := ih
    exact ⟨n + 1, by omega, .cut enough large packs⟩
  | next _ _ _ ih =>
    obtain ⟨n, rfl, packs⟩ := ih
    exact ⟨n + 1, by omega, .next packs⟩

/-- Less than `slack` of a box is given away when the next one is opened. -/
theorem Dealt.mul_le_sum (h : Dealt room slack c id items out last) (inside : c ≤ room) :
    id ≤ last ∧ (last - id) * (room - (slack - 1)) ≤ items.sum + (room - c) := by
  have opened {id last used k : Nat} (before : id + 1 ≤ last ∧ (last - (id + 1)) * used ≤ k) {m : Nat}
      (enough : k + used ≤ m) : id ≤ last ∧ (last - id) * used ≤ m := by
    obtain ⟨le, few⟩ := before
    refine ⟨by omega, ?_⟩
    calc (last - id) * used = (last - (id + 1)) * used + used := by
          rw [show last - id = last - (id + 1) + 1 by omega, Nat.succ_mul]
      _ ≤ k + used := Nat.add_le_add_right few used
      _ ≤ m := enough
  induction h with
  | nil => simp
  | put takes _ ih =>
    obtain ⟨le, few⟩ := ih (by omega)
    exact ⟨le, few.trans (by rw [List.sum_cons]; omega)⟩
  | cut _ _ large _ ih => exact opened (ih le_rfl) (by simp only [List.sum_cons]; omega)
  | next tight large _ ih => exact opened (ih le_rfl) (by simp only [List.sum_cons]; omega)

/-- The items of the first list are still to come when those of the second are; only the first item of
a fresh box can be the rest of a larger one. -/
inductive Ahead (room : Nat) : Nat → List Nat → List Nat → Prop
  | refl {b : Nat} {items : List Nat} : Ahead room b items items
  | part {x y : Nat} {items : List Nat} : y ≤ x → Ahead room room (y :: items) (x :: items)
  | later {b x : Nat} {l items : List Nat} : Ahead room b l items → Ahead room b l (x :: items)

theorem Ahead.sum_le (h : Ahead room b l items) : l.sum ≤ items.sum := by
  induction h with
  | refl => exact le_rfl
  | part le => simpa using le
  | later _ ih =>
    rw [List.sum_cons]
    omega

/-- What is left to do, of the same items or of fewer. -/
theorem Ahead.cases_cons (h : Ahead room b l (x :: items)) :
    Ahead room b l items ∨ ∃ y, l = y :: items ∧ y ≤ x ∧ (y = x ∨ b = room) := by
  cases h with
  | refl => exact .inr ⟨x, rfl, le_rfl, .inl rfl⟩
  | part le => exact .inr ⟨_, rfl, le, .inr rfl⟩
  | later rest => exact .inl rest

/-- An item that a fresh box takes is dealt in the current box or in the next one. -/
theorem Dealt.catch_up (h : Dealt room slack b id (y :: items) out last)
    (small : y ≤ room + slack) : ∃ b' id' out', Dealt room slack b' id' items out' last ∧
      (id' = id ∧ b' = b - y ∨ id' = id + 1 ∧ room - y ≤ b' ∧ b + slack < y) := by
  cases h with
  | put takes rest => exact ⟨_, _, _, rest, .inl ⟨rfl, rfl⟩⟩
  | cut _ _ large rest =>
    cases rest with
    | put _ rest => exact ⟨_, _, _, rest, .inr ⟨rfl, by omega, large⟩⟩
    | cut _ _ large' _ => omega
    | next _ large' _ => omega
  | next _ large rest =>
    cases rest with
    | put _ rest => exact ⟨_, _, _, rest, .inr ⟨rfl, le_rfl, large⟩⟩
    | cut _ _ large' _ => omega
    | next _ large' _ => omega

/-- The greedy run stays ahead of any packing: it is in an earlier box, or in one that reaches as far. -/
theorem Dealt.le_of_packs (fresh : slack ≤ room) (some : 0 < room) (packs : Packs room slack c items n) (inside : c ≤ room)
    (h : Dealt room slack b id l out last) (ahead : Ahead room b l items)
    (earlier : id < j ∨ id = j ∧ c + l.sum ≤ b + items.sum) : last ≤ j + n := by
  induction packs generalizing b id l out j with
  | nil =>
    cases ahead
    cases h
    omega
  | next _ ih =>
    have := ih le_rfl h ahead (j := j + 1) (.inl (by omega))
    omega
  | @put c x n items takes _ ih =>
    have inside' : c - x ≤ room := by omega
    rcases ahead.cases_cons with rest | ⟨y, rfl, le, whole⟩
    · refine ih inside' h rest (earlier.imp_right fun ⟨same, reach⟩ => ⟨same, ?_⟩)
      have := rest.sum_le
      rw [List.sum_cons] at reach
      omega
    · obtain ⟨b', id', out', rest, stays | ⟨opens, free, large⟩⟩ := h.catch_up (by omega)
      · refine ih inside' rest .refl ?_
        simp only [List.sum_cons] at earlier
        omega
      · refine ih inside' rest .refl ?_
        simp only [List.sum_cons] at earlier
        omega
  | @cut c x n items enough large _ ih =>
    have fromFresh {k z : Nat} {out : List (Nat × Nat)} (h : Dealt room slack room k (z :: items) out last) (le : z ≤ x)
        (before : k < j + 1) : last ≤ j + 1 + n := by
      cases h with
      | put _ rest => exact ih le_rfl rest (.later .refl) (.inl before)
      | cut _ _ _ rest =>
        have part : Ahead room room ((z - room) :: items) ((x - c) :: items) := .part (by omega)
        refine ih le_rfl rest part ?_
        have := part.sum_le
        omega
      | next tight _ _ => omega
    suffices bound : last ≤ j + 1 + n by omega
    rcases ahead.cases_cons with rest | ⟨y, rfl, le, whole⟩
    · exact ih le_rfl h (.later rest) (.inl (by omega))
    by_cases past : y ≤ x - c
    · have ahead' : Ahead room b (y :: items) ((x - c) :: items) := by
        rcases whole with rfl | rfl
        · rw [show y - c = y by omega]
          exact .refl
        · exact .part past
      exact ih le_rfl h ahead' (.inl (by omega))
    simp only [List.sum_cons] at earlier
    cases h with
    | put _ rest => exact ih le_rfl rest (.later .refl) (.inl (by omega))
    | cut _ _ _ rest =>
      rcases earlier with less | ⟨rfl, reach⟩
      · exact fromFresh rest (by omega) (by omega)
      · have part : Ahead room room ((y - b) :: items) ((x - c) :: items) := .part (by omega)
        refine ih le_rfl rest part (.inr ⟨rfl, ?_⟩)
        have := part.sum_le
        omega
    | next tight _ rest =>
      rcases earlier with less | ⟨rfl, reach⟩
      · exact fromFresh rest le (by omega)
      · omega

/-- **The greedy run needs no more boxes than any packing.** -/
theorem Dealt.last_le_iff (fresh : slack ≤ room) (some : 0 < room) (h : Dealt room slack room 0 items out last) {num : Nat} :
    last ≤ num ↔ ∃ n ≤ num, Packs room slack room items n := by
  constructor
  · intro le
    obtain ⟨n, same, packs⟩ := h.packs
    exact ⟨n, by omega, packs⟩
  · rintro ⟨n, le, packs⟩
    have := Dealt.le_of_packs fresh some packs le_rfl h .refl (j := 0) (.inr ⟨rfl, le_rfl⟩)
    omega

/-! ## Packing the pieces again -/

/-- No piece is larger than what a fresh box takes. -/
theorem Dealt.piece_le (h : Dealt room slack c id items out last) (inside : c ≤ room) : ∀ e ∈ out, e.1 ≤ room + slack := by
  induction h with
  | nil => simp
  | put takes _ ih => exact List.forall_mem_cons.mpr ⟨by simp only; omega, ih (by omega)⟩
  | cut _ _ _ _ ih => exact List.forall_mem_cons.mpr ⟨by simp only; omega, ih le_rfl⟩
  | next _ _ _ ih => exact ih le_rfl

/-- The boxes without cuts: a box is what is left of it, and the last item may take `slack` more. -/
def boxes (room slack : Nat) : NextFit.Boxes Nat Nat where
  put b x := if x ≤ b + slack then some (b - x) else none
  fresh := room

theorem boxes_put : (boxes room slack).put b x = some c ↔ x ≤ b + slack ∧ b - x = c := by
  show (if x ≤ b + slack then some (b - x) else none) = some c ↔ _
  split_ifs with le <;> simp [le]

theorem boxes_takes (le : x ≤ b + slack) : (boxes room slack).put b x = some (b - x) := boxes_put.mpr ⟨le, rfl⟩

theorem boxes_refuses (large : b + slack < x) : (boxes room slack).put b x = none := if_neg (by omega)

theorem boxes_monotone : (boxes room slack).Monotone where
  takes le takes := by
    obtain ⟨small, rfl⟩ := boxes_put.mp takes
    exact ⟨_, boxes_takes (by omega), Nat.sub_le_sub_right le _⟩
  shrinks takes := by
    obtain ⟨-, rfl⟩ := boxes_put.mp takes
    exact Nat.sub_le _ _

/-- The first piece of a fresh box is the item or fills the box. -/
theorem Dealt.first_piece (h : Dealt room slack room id (x :: items) out last) (some : 0 < room) (fresh : slack ≤ room) :
    ∃ y rest, out = (y, id) :: rest ∧ (y = x ∨ y = room) := by
  cases h with
  | put _ _ => exact ⟨_, _, rfl, .inl rfl⟩
  | cut _ _ _ _ => exact ⟨_, _, rfl, .inr rfl⟩
  | next tight _ _ => omega

/-- What next fit does with pieces of which the current box refuses the first. -/
theorem placed_next (large : c + slack < x) {ids : List Nat}
    (h : NextFit.Placed (boxes room slack) room (id + 1) (x :: items) ids) :
    NextFit.Placed (boxes room slack) c id (x :: items) ids :=
  .next (boxes_refuses large) h

/-- **Next fit puts every piece back into the box it was cut for**: the greedy run with cuts fills a box before
it cuts, so the first piece of the next box is one that the box refuses. -/
theorem Dealt.placed (some : 0 < room) (fresh : 2 * slack ≤ room) (h : Dealt room slack c id items out last) :
    NextFit.Placed (boxes room slack) c id (out.map Prod.fst) (out.map Prod.snd) := by
  induction h with
  | nil => exact .nil
  | put takes _ ih => exact .put (boxes_takes takes) ih
  | @cut c id x last items out _ enough large rest ih =>
    -- the box is full when the rest of the item comes
    refine .put (boxes_takes (Nat.le_add_right c slack)) ?_
    obtain ⟨y, out, rfl, whole⟩ := rest.first_piece some (by omega)
    exact placed_next (by omega) ih
  | @next c id x last items out tight large rest ih =>
    obtain ⟨y, out, rfl, whole⟩ := rest.first_piece some (by omega)
    exact placed_next (by omega) ih

/-! ## The load of a box -/

/-- The items that a total of at most `cap` does not admit, from `load` on: each of them starts a new total. -/
def starters (cap : Nat) : Nat → List Nat → List Nat
  | _, [] => []
  | load, x :: items => if load + x ≤ cap then starters cap (load + x) items else x :: starters cap x items

/-- **The load of the boxes**: none holds more than its room and `slack` exactly if every item that such a total does
not admit is larger than `slack`. A smaller one goes into the full box all the same. -/
theorem placed_load_iff {b load : Nat} {ids : List Nat} (h : NextFit.Placed (boxes room slack) b id items ids)
    (left : b = room - load) (low : load ≤ room + slack) (fits : ∀ x ∈ items, x ≤ room + slack) :
    (∀ k, (if k = id then load else 0) + (NextFit.inBox k ids items).sum ≤ room + slack) ↔
      ∀ x ∈ starters (room + slack) load items, slack < x := by
  induction h generalizing load with
  | nil =>
    refine iff_of_true (fun k => ?_) (by simp [starters])
    rw [NextFit.inBox]
    split_ifs <;> simp [low]
  | @put b c id x items ids takes rest ih =>
    obtain ⟨small, rfl⟩ := boxes_put.mp takes
    obtain ⟨-, fits⟩ := List.forall_mem_cons.mp fits
    rw [starters]
    split_ifs with inside
    · rw [← ih (by omega) inside fits]
      refine forall_congr' fun k => ?_
      rw [NextFit.inBox_cons]
      by_cases here : id = k
      · rw [if_pos here.symm, if_pos here, if_pos here.symm, List.sum_cons, Nat.add_assoc]
      · rw [if_neg (Ne.symm here), if_neg here, if_neg (Ne.symm here)]
    · -- the box is full, and takes the item all the same
      apply iff_of_false
      · intro all
        have here := all id
        rw [NextFit.inBox_cons, if_pos rfl, if_pos rfl, List.sum_cons] at here
        omega
      · intro large
        have here := large x List.mem_cons_self
        omega
  | @next b id x items ids refuses rest ih =>
    have large : b + slack < x := by
      by_contra small
      rw [boxes_takes (not_lt.mp small)] at refuses
      cases refuses
    have admitted := fits x List.mem_cons_self
    rw [starters, if_neg (by omega), List.forall_mem_cons, and_iff_right (show slack < x by omega)]
    have fresh := ih (show room = room - 0 from rfl) (Nat.zero_le _) fits
    rw [starters, if_pos (by omega), Nat.zero_add] at fresh
    rw [← fresh]
    have none : NextFit.inBox id ids (x :: items) = [] :=
      NextFit.inBox_eq_nil (fun i mem => by have := rest.le_mem i mem; omega) _
    constructor
    · intro all k
      have here := all k
      split_ifs at here ⊢ with same new
      · rw [same] at new
        omega
      all_goals omega
    · intro all k
      have here := all k
      by_cases same : k = id
      · rw [if_pos same, same, none]
        exact low
      · rw [if_neg same]
        split_ifs at here <;> omega

end CutFit
