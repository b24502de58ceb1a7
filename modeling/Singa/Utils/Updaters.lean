import Singa.Base.Momentum
import Singa.Base.Regret
import Singa.Base.Vec
import Singa.Utils.Updater

/-!
# `utils/updater.cc`: updaters with a history

The history of a parameter is cleared at step 0, so a run depends on nothing that
was there before. `NesterovUpdater` keeps the parameter at the point where the
next gradient is taken, `AdaGradUpdater` and `RMSPropUpdater` divide a gradient
by the root of the squares that they have collected. A float is an element of an
ordered field here, and a real number where a root is taken: nothing is rounded.
-/

namespace Singa
set_option autoImplicit false

open Vec Finset

variable {α : Type}

/-- `momentum_` is not set by `Init`. -/
structure NesterovUpdater (α : Type) extends UpdaterRates α where
  momentum : α

/-- `NesterovUpdater::Update`: new data, gradient and history. -/
def NesterovUpdater.update [Field α] [LinearOrder α] (u : NesterovUpdater α) (step : Int) (proto : ParamProto α)
    (data grad history : List α) : List α × List α × List α :=
  let history := cleared step history
  let lr := u.lr step proto
  let grad := u.decayed proto grad data
  let tmp := history
  let history := List.zipWith (fun h g => h * u.momentum + lr * g) history grad
  let tmp := List.zipWith (fun h t => h * (1 + u.momentum) - t * u.momentum) history tmp
  (List.zipWith (· - ·) data tmp, grad, history)

/-- `AdaGradUpdater` and `RMSPropUpdater`: they collect squares in different ways. -/
structure SquaresUpdater (α : Type) extends UpdaterRates α where
  delta : α
  collect : α → α → α

/-- `history+=F<op::square>(grad*grad_scale)`. -/
def AdaGradUpdater [Add α] (rates : UpdaterRates α) (delta : α) : SquaresUpdater α := ⟨rates, delta, fun h s => h + s⟩

/-- `history=history*rho_+(1-rho_)*F<op::square>(grad*grad_scale)`. -/
def RMSPropUpdater [Ring α] (rates : UpdaterRates α) (delta rho : α) : SquaresUpdater α :=
  ⟨rates, delta, fun h s => h * rho + (1 - rho) * s⟩

/-- `Update` of both: the squares are those of the gradient without the weight decay. -/
def SquaresUpdater.update [Field α] [LinearOrder α] (sqrt : α → α) (u : SquaresUpdater α) (gradScale : α) (step : Int)
    (proto : ParamProto α) (data grad history : List α) : List α × List α × List α :=
  let history := cleared step history
  let history := List.zipWith (fun h g => u.collect h (g * gradScale * (g * gradScale))) history grad
  let lr := u.lr step proto
  let grad := u.decayed proto grad data
  let steps := List.zipWith (fun g h => lr * g / sqrt (h + u.delta)) grad history
  (List.zipWith (· - ·) data steps, grad, history)

/-! ## Runs -/

/-- Data and history after `t` updates, where the gradient of step `t` is taken at the data of that step. -/
def trained (update : Int → List α → List α → List α → List α × List α × List α) (grad : ℕ → List α → List α)
    (data history : List α) : ℕ → List α × List α
  | 0 => (data, history)
  | t + 1 =>
    let s := trained update grad data history t
    let next := update t s.1 (grad t s.1) s.2
    (next.1, next.2.2)

theorem coord_zipWith [Zero α] (f : α → α → α) {l l' : List α} {i : ℕ} (lt : i < l.length) (lt' : i < l'.length) :
    coord (List.zipWith f l l') i = f (coord l i) (coord l' i) := by
  rw [coord_of_lt lt, coord_of_lt lt', coord_of_lt (by rw [List.length_zipWith]; exact lt_min lt lt'), List.getElem_zipWith]

theorem length_cleared [Zero α] (step : Int) (history : List α) : (cleared step history).length = history.length := by
  unfold cleared
  split
  · exact List.length_map _
  · rfl

theorem coord_cleared [Zero α] (step : Int) {history : List α} {i : ℕ} :
    coord (cleared step history) i = if step = 0 then 0 else coord history i := by
  unfold cleared
  split
  · by_cases lt : i < history.length
    · rw [coord_of_lt (by rwa [List.length_map]), List.getElem_map]
    · rw [coord_of_le (by rw [List.length_map]; exact Nat.le_of_not_lt lt)]
  · rfl

section Rates

variable [Field α] [LinearOrder α] {u : UpdaterRates α} {proto : ParamProto α} {grad data : List α}

theorem length_decayed (same : grad.length = data.length) : (u.decayed proto grad data).length = data.length := by
  unfold UpdaterRates.decayed
  split
  · rw [List.length_zipWith, same, min_self]
  · exact same

theorem decayed_of_nonpos (none : u.wd proto ≤ 0) : u.decayed proto grad data = grad := if_neg none.not_gt

end Rates

/-! ## `NesterovUpdater` -/

/-- An operation that keeps zeros works on all elements, those past the end too. -/
theorem coord_zipWith_zero [Zero α] {f : α → α → α} (zero : f 0 0 = 0) {l l' : List α} (same : l.length = l'.length) :
    coord (List.zipWith f l l') = fun i => f (coord l i) (coord l' i) := by
  funext i
  by_cases lt : i < l.length
  · exact coord_zipWith f lt (same ▸ lt)
  · have le := Nat.le_of_not_lt lt
    have past : (List.zipWith f l l').length ≤ i := by
      rw [List.length_zipWith, ← same, min_self]
      exact le
    rw [coord_of_le le, coord_of_le (same.symm.le.trans le), coord_of_le past, zero]

section Nesterov

variable [Field α] [LinearOrder α] (u : NesterovUpdater α) (proto : ParamProto α) {n : ℕ}

/-- One update, as vectors. -/
theorem NesterovUpdater.update_vectors (step : ℤ) {data grad history : List α} (sizeData : data.length = n) (sizeGrad : grad.length = n)
    (sizeHistory : history.length = n) :
    let next := u.update step proto data grad history
    next.1.length = n ∧ next.2.2.length = n ∧
      coord next.2.2 = u.momentum • (if step = 0 then 0 else coord history) + u.lr step proto • coord (u.decayed proto grad data) ∧
      coord next.1 = coord data - ((1 + u.momentum) • coord next.2.2 - u.momentum • if step = 0 then 0 else coord history) := by
  have sizeDecayed : (u.decayed proto grad data).length = n := (length_decayed (sizeGrad.trans sizeData.symm)).trans sizeData
  have sizeCleared : (cleared step history).length = n := (length_cleared step history).trans sizeHistory
  have start : coord (cleared step history) = if step = 0 then 0 else coord history := by
    funext i
    rw [coord_cleared]
    split <;> rfl
  unfold update
  dsimp only
  set history' := List.zipWith (fun h g => h * u.momentum + u.lr step proto * g) (cleared step history) (u.decayed proto grad data)
  have sizeHistory' : history'.length = n := by simp [history', sizeCleared, sizeDecayed]
  set tmp := List.zipWith (fun h t => h * (1 + u.momentum) - t * u.momentum) history' (cleared step history)
  have sizeTmp : tmp.length = n := by simp [tmp, sizeCleared, sizeHistory']
  refine ⟨by simp [sizeData, sizeTmp], sizeHistory', ?_, ?_⟩
  · rw [← start, coord_zipWith_zero (by simp) (sizeCleared.trans sizeDecayed.symm)]
    funext i
    simp [mul_comm]
  · rw [← start, coord_zipWith_sub (sizeData.trans sizeTmp.symm), coord_zipWith_zero (by simp) (sizeHistory'.trans sizeCleared.symm)]
    funext i
    simp [mul_comm]

/-- **`NesterovUpdater` runs Nesterov's method**, from any history: the data is the place ahead of the point, where the method
takes its slopes, and the history is the velocity. -/
theorem NesterovUpdater.accelerates {grad : ℕ → List α → List α} {data history : List α}
    (sized : ∀ t d, d.length = n → (grad t d).length = n) (sizeData : data.length = n) (sizeHistory : history.length = n)
    (slope : ℕ → (ℕ → α) → ℕ → α) (gradient : ∀ t d, d.length = n → coord (u.decayed proto (grad t d) d) = slope t (coord d)) (t : ℕ) :
    let now := trained (fun step => u.update step proto) grad data history t
    let method := Momentum.accelerated u.momentum (fun t => u.lr t proto) slope (coord data) t
    coord now.1 = method.1 - u.momentum • method.2 ∧ (0 < t → coord now.2 = method.2) := by
  set run := trained (fun step => u.update step proto) grad data history with run_eq
  have kept : ∀ t, (run t).1.length = n ∧ (run t).2.length = n := by
    intro t
    induction t with
    | zero => exact ⟨sizeData, sizeHistory⟩
    | succ t ih =>
      obtain ⟨data', history', -⟩ := u.update_vectors proto t ih.1 (sized t _ ih.1) ih.2
      exact ⟨data', history'⟩
  -- the history that the next step starts from
  set velocity : ℕ → ℕ → α := fun t => if t = 0 then 0 else coord (run t).2 with velocity_eq
  have each : ∀ t, velocity (t + 1) = u.momentum • velocity t + u.lr t proto • slope t (coord (run t).1) ∧
      coord (run (t + 1)).1 = coord (run t).1 - ((1 + u.momentum) • velocity (t + 1) - u.momentum • velocity t) := by
    intro t
    obtain ⟨-, -, history', data'⟩ := u.update_vectors proto t (kept t).1 (sized t _ (kept t).1) (kept t).2
    have same : ((t : ℤ) = 0) = (t = 0) := propext Int.natCast_eq_zero
    simp only [same] at history' data'
    rw [gradient t _ (kept t).1] at history'
    have now : velocity (t + 1) = coord (run (t + 1)).2 := if_neg (Nat.succ_ne_zero t)
    rw [now]
    exact ⟨history', data'⟩
  have point : Momentum.accelerated u.momentum (fun t => u.lr t proto) slope (coord data) t =
      (coord (run t).1 + u.momentum • velocity t, velocity t) :=
    @Momentum.ahead _ _ _ _ _ _ _ _ _ (fun t => coord (run t).1) velocity rfl (if_pos rfl) (fun t => (each t).1) (fun t => (each t).2) t
  dsimp only
  rw [point]
  refine ⟨(add_sub_cancel_right _ _).symm, fun pos => ?_⟩
  exact (if_neg pos.ne').symm

/-- Two elements of which the halves of the squares are to become small. -/
theorem NesterovUpdater.accelerates_squares :
    coord (trained (fun step => (⟨⟨fun _ => 1 / 10, 0⟩, 9 / 10⟩ : NesterovUpdater ℚ).update step .default) (fun _ d => d)
      [1, -1] [5, 5] 3).1 =
      (Momentum.accelerated (9 / 10 : ℚ) (fun _ => 1 / 10 * 1) (fun _ y => y) (coord [1, -1]) 3).1 -
        (9 / 10 : ℚ) • (Momentum.accelerated (9 / 10 : ℚ) (fun _ => 1 / 10 * 1) (fun _ y => y) (coord [1, -1]) 3).2 := by
  have size : ([1, -1] : List ℚ).length = 2 := rfl
  have size' : ([5, 5] : List ℚ).length = 2 := rfl
  have decay : (⟨fun _ => 1 / 10, 0⟩ : UpdaterRates ℚ).wd .default ≤ 0 := by simp [UpdaterRates.wd]
  have gradient : ∀ (_ : ℕ) (d : List ℚ), d.length = 2 →
      coord ((⟨fun _ => 1 / 10, 0⟩ : UpdaterRates ℚ).decayed .default d d) = coord d := by
    intro _ d _
    rw [decayed_of_nonpos decay]
  exact (NesterovUpdater.accelerates ⟨⟨fun _ => 1 / 10, 0⟩, 9 / 10⟩ .default (fun _ _ size => size) size size' (fun _ y => y) gradient 3).1

end Nesterov

/-! ## `AdaGradUpdater` and `RMSPropUpdater` -/

namespace SquaresUpdater

variable (u : SquaresUpdater ℝ) (gradScale : ℝ) (proto : ParamProto ℝ) {n : ℕ} {grad : ℕ → List ℝ → List ℝ} {data history : List ℝ}

/-- One update, element by element. -/
theorem update_at (step : ℤ) {grad : List ℝ} (sizeData : data.length = n) (sizeGrad : grad.length = n)
    (sizeHistory : history.length = n) :
    let next := u.update Real.sqrt gradScale step proto data grad history
    next.1.length = n ∧ next.2.2.length = n ∧ ∀ k < n,
      coord next.2.2 k = u.collect (if step = 0 then 0 else coord history k) (coord grad k * gradScale * (coord grad k * gradScale)) ∧
      coord next.1 k = coord data k - u.lr step proto * coord (u.decayed proto grad data) k / √(coord next.2.2 k + u.delta) := by
  have sizeDecayed : (u.decayed proto grad data).length = n := (length_decayed (sizeGrad.trans sizeData.symm)).trans sizeData
  have sizeCleared : (cleared step history).length = n := (length_cleared step history).trans sizeHistory
  unfold update
  dsimp only
  set history' := List.zipWith (fun h g => u.collect h (g * gradScale * (g * gradScale))) (cleared step history) grad
  have sizeHistory' : history'.length = n := by simp [history', sizeCleared, sizeGrad]
  set steps := List.zipWith (fun g h => u.lr step proto * g / √(h + u.delta)) (u.decayed proto grad data) history'
  have sizeSteps : steps.length = n := by simp [steps, sizeDecayed, sizeHistory']
  refine ⟨by simp [sizeData, sizeSteps], sizeHistory', fun k lt => ⟨?_, ?_⟩⟩
  · rw [coord_zipWith _ (sizeCleared.symm ▸ lt) (sizeGrad.symm ▸ lt), coord_cleared]
  · rw [coord_zipWith _ (sizeData.symm ▸ lt) (sizeSteps.symm ▸ lt),
      coord_zipWith _ (sizeDecayed.symm ▸ lt) (sizeHistory'.symm ▸ lt)]

/-- The data and the history keep their length, and the gradient of step `t` is taken at the data of that step. -/
theorem trained_at (sized : ∀ t d, d.length = n → (grad t d).length = n) (sizeData : data.length = n)
    (sizeHistory : history.length = n) (t : ℕ) :
    let before := trained (fun step => u.update Real.sqrt gradScale step proto) grad data history t
    let after := trained (fun step => u.update Real.sqrt gradScale step proto) grad data history (t + 1)
    (before.1.length = n ∧ before.2.length = n) ∧ ∀ k < n,
      coord after.2 k = u.collect (if t = 0 then 0 else coord before.2 k)
        (coord (grad t before.1) k * gradScale * (coord (grad t before.1) k * gradScale)) ∧
      coord after.1 k = coord before.1 k -
        u.lr t proto * coord (u.decayed proto (grad t before.1) before.1) k / √(coord after.2 k + u.delta) := by
  have kept : ∀ t, (trained (fun step => u.update Real.sqrt gradScale step proto) grad data history t).1.length = n ∧
      (trained (fun step => u.update Real.sqrt gradScale step proto) grad data history t).2.length = n := by
    intro t
    induction t with
    | zero => exact ⟨sizeData, sizeHistory⟩
    | succ t ih =>
      obtain ⟨data', history', -⟩ := update_at u gradScale proto t ih.1 (sized t _ ih.1) ih.2
      exact ⟨data', history'⟩
  refine ⟨kept t, fun k lt => ?_⟩
  obtain ⟨-, -, values⟩ := update_at u gradScale proto t (kept t).1 (sized t _ (kept t).1)
    (kept t).2
  have same : ((t : ℤ) = 0) = (t = 0) := propext Int.natCast_eq_zero
  simp only [same] at values
  exact values k lt

/-- A step that is divided by the root of a sum that has a share of its own square. -/
theorem abs_step_le {lr g h c δ : ℝ} (rate : 0 ≤ lr) (share : 0 < c) (pos : 0 < δ) (collected : c * g ^ 2 ≤ h) :
    |lr * g / √(h + δ)| ≤ lr / √c := by
  have square : 0 ≤ c * g ^ 2 := mul_nonneg share.le (sq_nonneg g)
  have root : √c * |g| ≤ √(h + δ) := by
    rw [← Real.sqrt_sq_eq_abs, ← Real.sqrt_mul share.le]
    exact Real.sqrt_le_sqrt (by linarith)
  have positive : 0 < √(h + δ) := Real.sqrt_pos.mpr (by linarith)
  rw [abs_div, abs_mul, abs_of_nonneg rate, abs_of_pos positive, div_le_div_iff₀ positive (Real.sqrt_pos.mpr share)]
  calc lr * |g| * √c = lr * (√c * |g|) := by ring
    _ ≤ lr * √(h + δ) := mul_le_mul_of_nonneg_left root rate

end SquaresUpdater

/-- **The history of `AdaGrad`**: the squares of all gradients so far. -/
theorem AdaGradUpdater.history_eq (rates : UpdaterRates ℝ) (delta : ℝ) (proto : ParamProto ℝ) {n : ℕ} {grad : ℕ → List ℝ → List ℝ}
    {data history : List ℝ} (sized : ∀ t d, d.length = n → (grad t d).length = n) (sizeData : data.length = n)
    (sizeHistory : history.length = n) {k : ℕ} (lt : k < n) (t : ℕ) :
    coord (trained (fun step => (AdaGradUpdater rates delta).update Real.sqrt 1 step proto) grad data history (t + 1)).2 k =
      ∑ i ∈ range (t + 1), coord (grad i
        (trained (fun step => (AdaGradUpdater rates delta).update Real.sqrt 1 step proto) grad data history i).1) k ^ 2 := by
  induction t with
  | zero =>
    obtain ⟨-, values⟩ := SquaresUpdater.trained_at (AdaGradUpdater rates delta) 1 proto sized sizeData sizeHistory 0
    rw [(values k lt).1, if_pos rfl, sum_range_one]
    simp [AdaGradUpdater, sq]
  | succ t ih =>
    obtain ⟨-, values⟩ := SquaresUpdater.trained_at (AdaGradUpdater rates delta) 1 proto sized sizeData sizeHistory (t + 1)
    rw [(values k lt).1, if_neg (Nat.succ_ne_zero t), ih, sum_range_succ _ (t + 1)]
    simp [AdaGradUpdater, sq]

/-- No step of `AdaGrad` is longer than the rate: the history has the square of the last gradient. -/
theorem AdaGradUpdater.moved_le (rates : UpdaterRates ℝ) {delta : ℝ} (proto : ParamProto ℝ) {n : ℕ} {grad : ℕ → List ℝ → List ℝ}
    {data history : List ℝ} (sized : ∀ t d, d.length = n → (grad t d).length = n) (sizeData : data.length = n)
    (sizeHistory : history.length = n) {η : ℝ} (constant : ∀ t : ℕ, rates.lr t proto = η) (rate : 0 ≤ η) (pos : 0 < delta)
    (decay : rates.wd proto ≤ 0) {k : ℕ} (lt : k < n) (t : ℕ) :
    |coord (trained (fun step => (AdaGradUpdater rates delta).update Real.sqrt 1 step proto) grad data history (t + 1)).1 k -
      coord (trained (fun step => (AdaGradUpdater rates delta).update Real.sqrt 1 step proto) grad data history t).1 k| ≤ η := by
  obtain ⟨-, values⟩ := SquaresUpdater.trained_at (AdaGradUpdater rates delta) 1 proto sized sizeData sizeHistory t
  have none : (AdaGradUpdater rates delta).wd proto ≤ 0 := decay
  have same : (AdaGradUpdater rates delta).lr t proto = η := constant t
  have collected := AdaGradUpdater.history_eq rates delta proto sized sizeData sizeHistory lt t
  rw [(values k lt).2, decayed_of_nonpos none, sub_sub_cancel_left, abs_neg, same]
  refine (SquaresUpdater.abs_step_le rate one_pos pos ?_).trans_eq (by rw [Real.sqrt_one, div_one])
  rw [collected, sum_range_succ, one_mul]
  exact le_add_of_nonneg_left (sum_nonneg fun i _ => sq_nonneg _)

/-- After `t` steps the data is at most `t` times the rate from where it was. -/
theorem AdaGradUpdater.within (rates : UpdaterRates ℝ) {delta : ℝ} (proto : ParamProto ℝ) {n : ℕ} {grad : ℕ → List ℝ → List ℝ}
    {data history : List ℝ} (sized : ∀ t d, d.length = n → (grad t d).length = n) (sizeData : data.length = n)
    (sizeHistory : history.length = n) {η : ℝ} (constant : ∀ t : ℕ, rates.lr t proto = η) (rate : 0 ≤ η) (pos : 0 < delta)
    (decay : rates.wd proto ≤ 0) {k : ℕ} (lt : k < n) (t : ℕ) :
    |coord (trained (fun step => (AdaGradUpdater rates delta).update Real.sqrt 1 step proto) grad data history t).1 k - coord data k| ≤
      t * η := by
  induction t with
  | zero => simp [trained]
  | succ t ih =>
    have step := AdaGradUpdater.moved_le rates proto sized sizeData sizeHistory constant rate pos decay lt t
    refine (abs_sub_le _ _ _).trans ((add_le_add step ih).trans_eq ?_)
    push_cast
    ring

/-- **The regret of `AdaGrad`.** As long as the data stays within `D` of some other data, element by element, the losses of the
steps exceed the losses there by no more than the rate and the roots of the collected squares allow, whatever the losses are,
if only the gradients are subgradients of them. -/
theorem AdaGradUpdater.regret (rates : UpdaterRates ℝ) (delta : ℝ) (proto : ParamProto ℝ) {n : ℕ} {grad : ℕ → List ℝ → List ℝ}
    {data history : List ℝ} (sized : ∀ t d, d.length = n → (grad t d).length = n) (sizeData : data.length = n)
    (sizeHistory : history.length = n) {η D : ℝ} (constant : ∀ t : ℕ, rates.lr t proto = η) (rate : 0 < η) (pos : 0 < delta)
    (decay : rates.wd proto ≤ 0) (loss : ℕ → List ℝ → ℝ) (best : List ℝ) (T : ℕ)
    (near : ∀ t ≤ T, ∀ k < n, |coord (trained (fun step => (AdaGradUpdater rates delta).update Real.sqrt 1 step proto) grad data
      history t).1 k - coord best k| ≤ D)
    (convex : ∀ t < T, ∀ d, d.length = n →
      loss t d - loss t best ≤ ∑ k ∈ range n, coord (grad t d) k * (coord d k - coord best k)) :
    ∑ t ∈ range T, (loss t (trained (fun step => (AdaGradUpdater rates delta).update Real.sqrt 1 step proto) grad data history t).1 -
        loss t best) ≤
      (D ^ 2 / (2 * η) + η) * ∑ k ∈ range n, √(∑ t ∈ range T, coord (grad t
        (trained (fun step => (AdaGradUpdater rates delta).update Real.sqrt 1 step proto) grad data history t).1) k ^ 2 + delta) := by
  set run := trained (fun step => (AdaGradUpdater rates delta).update Real.sqrt 1 step proto) grad data history with run_eq
  have each : ∀ t, _ := SquaresUpdater.trained_at (AdaGradUpdater rates delta) 1 proto sized sizeData sizeHistory
  have moved : ∀ k < n, ∀ t, coord (run (t + 1)).1 k = coord (run t).1 k -
      η * coord (grad t (run t).1) k / Regret.scale delta (fun t => coord (grad t (run t).1) k) (t + 1) := by
    intro k lt t
    obtain ⟨-, values⟩ := each t
    have none : (AdaGradUpdater rates delta).wd proto ≤ 0 := decay
    rw [(values k lt).2, decayed_of_nonpos none, AdaGradUpdater.history_eq rates delta proto sized sizeData sizeHistory lt t]
    have same : (AdaGradUpdater rates delta).lr t proto = η := constant t
    rw [same]
    rfl
  calc ∑ t ∈ range T, (loss t (run t).1 - loss t best)
      ≤ ∑ t ∈ range T, ∑ k ∈ range n, coord (grad t (run t).1) k * (coord (run t).1 k - coord best k) :=
        sum_le_sum fun t mem => convex t (mem_range.mp mem) _ (each t).1.1
    _ = ∑ k ∈ range n, ∑ t ∈ range T, coord (grad t (run t).1) k * (coord (run t).1 k - coord best k) := sum_comm
    _ ≤ ∑ k ∈ range n, (D ^ 2 / (2 * η) + η) * Regret.scale delta (fun t => coord (grad t (run t).1) k) T :=
        sum_le_sum fun k mem => Regret.adaptive rate pos (moved k (mem_range.mp mem)) T fun t le => near t le k (mem_range.mp mem)
    _ = (D ^ 2 / (2 * η) + η) * ∑ k ∈ range n, √(∑ t ∈ range T, coord (grad t (run t).1) k ^ 2 + delta) := (mul_sum _ _ _).symm

/-- The history of `RMSProp` has its share of the last square, and has not become negative. -/
theorem RMSPropUpdater.share_le (rates : UpdaterRates ℝ) (delta : ℝ) {rho : ℝ} (proto : ParamProto ℝ) {n : ℕ}
    {grad : ℕ → List ℝ → List ℝ} {data history : List ℝ} (sized : ∀ t d, d.length = n → (grad t d).length = n)
    (sizeData : data.length = n) (sizeHistory : history.length = n) (keep : 0 ≤ rho) (take : rho < 1) {k : ℕ} (lt : k < n) (t : ℕ) :
    (1 - rho) * coord (grad t
        (trained (fun step => (RMSPropUpdater rates delta rho).update Real.sqrt 1 step proto) grad data history t).1) k ^ 2 ≤
      coord (trained (fun step => (RMSPropUpdater rates delta rho).update Real.sqrt 1 step proto) grad data history (t + 1)).2 k := by
  have each : ∀ t, _ := fun t => (SquaresUpdater.trained_at (RMSPropUpdater rates delta rho) 1 proto sized sizeData sizeHistory t).2 k lt
  set run := trained (fun step => (RMSPropUpdater rates delta rho).update Real.sqrt 1 step proto) grad data history with run_eq
  have value : ∀ t, coord (run (t + 1)).2 k =
      (if t = 0 then 0 else coord (run t).2 k) * rho + (1 - rho) * coord (grad t (run t).1) k ^ 2 := by
    intro t
    rw [(each t).1]
    simp [RMSPropUpdater, sq]
  have nonneg : ∀ t, 0 ≤ coord (run (t + 1)).2 k := by
    intro t
    have square : 0 ≤ (1 - rho) * coord (grad t (run t).1) k ^ 2 := mul_nonneg (by linarith) (sq_nonneg _)
    rw [value]
    induction t with
    | zero =>
      rw [if_pos rfl, zero_mul, zero_add]
      exact square
    | succ t ih =>
      rw [if_neg (Nat.succ_ne_zero t)]
      have before := ih (mul_nonneg (by linarith) (sq_nonneg _))
      rw [← value] at before
      exact add_nonneg (mul_nonneg before keep) square
  rw [value]
  have earlier : 0 ≤ (if t = 0 then 0 else coord (run t).2 k) * rho := by
    refine mul_nonneg ?_ keep
    cases t with
    | zero => exact le_rfl
    | succ t => exact nonneg t
  linarith

/-- **No step of `RMSProp` is longer than the rate allows**, in any run and whatever the gradients are. -/
theorem RMSPropUpdater.step_le (rates : UpdaterRates ℝ) {delta rho : ℝ} (proto : ParamProto ℝ) {n : ℕ} {grad : ℕ → List ℝ → List ℝ}
    {data history : List ℝ} (sized : ∀ t d, d.length = n → (grad t d).length = n) (sizeData : data.length = n)
    (sizeHistory : history.length = n) (rate : ∀ t : ℕ, 0 ≤ rates.lr t proto) (pos : 0 < delta) (keep : 0 ≤ rho) (take : rho < 1)
    (decay : rates.wd proto ≤ 0) (t : ℕ) {k : ℕ} (lt : k < n) :
    |coord (trained (fun step => (RMSPropUpdater rates delta rho).update Real.sqrt 1 step proto) grad data history (t + 1)).1 k -
      coord (trained (fun step => (RMSPropUpdater rates delta rho).update Real.sqrt 1 step proto) grad data history t).1 k| ≤
      rates.lr t proto / √(1 - rho) := by
  obtain ⟨-, value⟩ := (SquaresUpdater.trained_at (RMSPropUpdater rates delta rho) 1 proto sized sizeData sizeHistory t).2 k lt
  have none : (RMSPropUpdater rates delta rho).wd proto ≤ 0 := decay
  rw [value, decayed_of_nonpos none, sub_sub_cancel_left, abs_neg]
  exact SquaresUpdater.abs_step_le (rate t) (by linarith) pos
    (RMSPropUpdater.share_le rates delta proto sized sizeData sizeHistory keep take lt t)

/-- A rate of 1 and no weight decay. -/
def unitRates : UpdaterRates ℝ := ⟨fun _ => 1, 0⟩

theorem unitRates_lr (t : ℕ) : unitRates.lr t .default = 1 := by simp [UpdaterRates.lr, unitRates, ParamProto.default]

theorem unitRates_wd : unitRates.wd .default ≤ 0 := by simp [UpdaterRates.wd, unitRates]

/-- Two elements of which the halves of the squares are to become small. -/
noncomputable def squaresRun : ℕ → List ℝ × List ℝ :=
  trained (fun step => (AdaGradUpdater unitRates 1).update Real.sqrt 1 step .default) (fun _ d => d) [1, -1] [7, 7]

/-- Two steps of two elements, against the data that is best for all steps. -/
theorem AdaGradUpdater.regret_squares :
    ∑ t ∈ range 2, ((coord (squaresRun t).1 0 ^ 2 + coord (squaresRun t).1 1 ^ 2) / 2 - (coord [0, 0] 0 ^ 2 + coord [0, 0] 1 ^ 2) / 2) ≤
      (3 ^ 2 / (2 * 1) + 1) * ∑ k ∈ range 2, √(∑ t ∈ range 2, coord (squaresRun t).1 k ^ 2 + 1) := by
  have size : ([1, -1] : List ℝ).length = 2 := rfl
  have size' : ([7, 7] : List ℝ).length = 2 := rfl
  have near : ∀ t ≤ 2, ∀ k < 2, |coord (squaresRun t).1 k - coord [0, 0] k| ≤ (3 : ℝ) := by
    intro t le k lt
    have moved : |coord (squaresRun t).1 k - coord [1, -1] k| ≤ t * 1 :=
      AdaGradUpdater.within unitRates .default (fun _ _ size => size) size size' unitRates_lr zero_le_one one_pos unitRates_wd lt t
    have start : |coord [1, -1] k - coord [0, 0] k| ≤ (1 : ℝ) := by
      interval_cases k <;> simp [coord]
    have few : (t : ℝ) ≤ 2 := by exact_mod_cast le
    refine (abs_sub_le _ (coord [1, -1] k) _).trans ?_
    linarith
  have convex : ∀ t < 2, ∀ d : List ℝ, d.length = 2 →
      (coord d 0 ^ 2 + coord d 1 ^ 2) / 2 - (coord [0, 0] 0 ^ 2 + coord [0, 0] 1 ^ 2) / 2 ≤
        ∑ k ∈ range 2, coord d k * (coord d k - coord [0, 0] k) := by
    intro _ _ d _
    rw [sum_range_succ, sum_range_one]
    nlinarith [sq_nonneg (coord d 0 - coord [0, 0] 0), sq_nonneg (coord d 1 - coord [0, 0] 1)]
  exact AdaGradUpdater.regret unitRates 1 .default (fun _ _ size => size) size size' unitRates_lr one_pos one_pos unitRates_wd
    (fun _ d => (coord d 0 ^ 2 + coord d 1 ^ 2) / 2) [0, 0] 2 near convex

/-- An element that is pushed to 0. -/
theorem RMSPropUpdater.step_le_halves :
    |coord (trained (fun step => (RMSPropUpdater unitRates 1 (1 / 2)).update Real.sqrt 1 step .default) (fun _ d => d) [3] [5] 4).1 0 -
      coord (trained (fun step => (RMSPropUpdater unitRates 1 (1 / 2)).update Real.sqrt 1 step .default) (fun _ d => d) [3] [5] 3).1 0| ≤
      unitRates.lr (3 : ℕ) .default / √(1 - 1 / 2) := by
  have size : ([3] : List ℝ).length = 1 := rfl
  have size' : ([5] : List ℝ).length = 1 := rfl
  have keep : (0 : ℝ) ≤ 1 / 2 := by norm_num
  have take : (1 / 2 : ℝ) < 1 := by norm_num
  exact RMSPropUpdater.step_le unitRates .default (fun _ _ size => size) size size' (fun t => (unitRates_lr t).symm ▸ zero_le_one) one_pos
    keep take unitRates_wd 3 Nat.one_pos

end Singa
