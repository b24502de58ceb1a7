import Singa.Trainer.ForwardMoves

/-!
# Back propagation

`Backward` keeps an account: what the loss layers give is, at any time, what has
arrived at the params and what is still at the gradients that have been written
and not been read. At the end everything has arrived at the params.
-/

namespace Singa
set_option autoImplicit false

open Mshadow

namespace BPWorker

section Gradients

variable {α : Type} [Field α] [LinearOrder α] {w : BPWorker α} {S S' : NetState α}

/-- `Backward` without the updates: all layers compute their gradients. -/
def gradients (w : BPWorker α) (net : List (WorkerLayer α)) (S : NetState α) : Run (NetState α) :=
  net.reverse.foldlM w.computeGradient S

/-- `ComputeGradient` of some layers writes the gradients of their targets and of their params. -/
structure GradFrame (targets : List (Option ℕ)) (params : List ℕ) (S S' : NetState α) : Prop where
  data : S'.data = S.data
  own : S'.own = S.own
  param : S'.param = S.param
  history : S'.history = S.history
  perf : S'.perf = S.perf
  grad : ∀ i, some i ∉ targets → S'.grad i = S.grad i
  null : ∀ i, S'.grad i = none ↔ S.grad i = none
  paramGrad : ∀ p ∉ params, S'.paramGrad p = S.paramGrad p
  counts : ∀ p, (S'.paramGrad p).count = (S.paramGrad p).count

omit [Field α] [LinearOrder α] in
/-- The gradients of a layer are as long as the ones they replace. -/
theorem count_assign {grads : ℕ → LayerBlob α} {params : List ℕ} {gparams : List (LayerBlob α)}
    (same : gparams.map LayerBlob.count = params.map fun p => (grads p).count) (p : ℕ) :
    (assign grads params gparams p).count = (grads p).count := by
  unfold assign
  have sized : ∀ pg ∈ params.zip gparams, pg.2.count = (grads pg.1).count := by
    induction params generalizing gparams with
    | nil => simp
    | cons q params ih =>
      cases gparams with
      | nil => simp
      | cons g gparams =>
        obtain ⟨first, rest⟩ := List.cons.inj same
        rw [List.zip_cons_cons, List.forall_mem_cons]
        exact ⟨first, ih rest⟩
  generalize params.zip gparams = pairs at sized
  suffices kept : ∀ now : ℕ → LayerBlob α, (now p).count = (grads p).count →
      (pairs.foldl (fun now pg => Function.update now pg.1 pg.2) now p).count = (grads p).count from kept grads rfl
  induction pairs with
  | nil => exact fun _ same => same
  | cons pg pairs ih =>
    intro now same
    refine ih (fun pg mem => sized pg (List.mem_cons_of_mem _ mem)) _ ?_
    dsimp only
    by_cases here : p = pg.1
    · rw [here, Function.update_self]
      exact sized pg List.mem_cons_self
    · rw [Function.update_of_ne here, same]

theorem computeGradient_frame {l : WorkerLayer α} (run : w.computeGradient S l = .ok S') :
    GradFrame [l.target] l.params S S' := by
  obtain ⟨id, partitionId, kind, srclayers, params⟩ := l
  cases kind with
  | parser records =>
    obtain rfl : S = S' := Except.ok.inj run
    exact ⟨rfl, rfl, rfl, rfl, rfl, fun _ _ => rfl, fun _ => Iff.rfl, fun _ _ => rfl, fun _ => rfl⟩
  | neuron layer =>
    cases srclayers with
    | nil => cases run
    | cons src srclayers =>
      obtain ⟨g, grad, rest⟩ := Run.do_ok.mp run
      obtain ⟨⟨gparams', gsrc'⟩, wrote, last⟩ := Run.do_ok.mp rest
      have nulls := (NeuronLayer.computeGradient_ok wrote).2
      rw [← Except.ok.inj last]
      have counts := NeuronLayer.computeGradient_counts wrote
      rw [List.map_map] at counts
      refine ⟨rfl, rfl, rfl, rfl, rfl, fun i other => ?_, fun i => ?_, fun p fresh => assign_of_notMem fresh, count_assign counts⟩
      · refine Function.update_of_ne ?_ _ _
        rintro rfl
        exact other (List.mem_singleton.mpr rfl)
      · dsimp only
        by_cases same : i = src
        · subst same
          rw [Function.update_self]
          exact nulls
        · rw [Function.update_of_ne same]
  | softmaxLoss layer =>
    rcases srclayers with _ | ⟨src, _ | ⟨label, _ | _⟩⟩
    case cons.cons.nil =>
      obtain ⟨g, grad, rest⟩ := Run.do_ok.mp run
      obtain ⟨g', wrote, last⟩ := Run.do_ok.mp rest
      rw [← Except.ok.inj last]
      refine ⟨rfl, rfl, rfl, rfl, rfl, fun i other => ?_, fun i => ?_, fun p _ => rfl, fun _ => rfl⟩
      · refine Function.update_of_ne ?_ _ _
        rintro rfl
        exact other (List.mem_singleton.mpr rfl)
      · dsimp only
        by_cases same : i = src
        · subst same
          rw [Function.update_self, deref_ok.mp grad]
          simp
        · rw [Function.update_of_ne same]
    all_goals cases run

theorem gradients_cons {l : WorkerLayer α} {net : List (WorkerLayer α)} (run : w.gradients (l :: net) S = .ok S') :
    ∃ S₁, w.gradients net S = .ok S₁ ∧ w.computeGradient S₁ l = .ok S' := by
  unfold gradients at run
  rw [List.reverse_cons, List.foldlM_append] at run
  obtain ⟨S₁, first, last⟩ := Run.do_ok.mp run
  rw [List.foldlM_cons] at last
  obtain ⟨S₂, here, done⟩ := Run.do_ok.mp last
  cases done
  exact ⟨S₁, first, here⟩

theorem gradients_frame {net : List (WorkerLayer α)} (run : w.gradients net S = .ok S') :
    GradFrame (net.map WorkerLayer.target) (net.flatMap WorkerLayer.params) S S' := by
  induction net generalizing S' with
  | nil =>
    obtain rfl : S = S' := Except.ok.inj run
    exact ⟨rfl, rfl, rfl, rfl, rfl, fun _ _ => rfl, fun _ => Iff.rfl, fun _ _ => rfl, fun _ => rfl⟩
  | cons l net ih =>
    obtain ⟨S₁, before, last⟩ := gradients_cons run
    obtain ⟨data, own, param, history, perf, grad, null, paramGrad, counts⟩ := ih before
    obtain ⟨data', own', param', history', perf', grad', null', paramGrad', counts'⟩ := computeGradient_frame last
    refine ⟨data'.trans data, own'.trans own, param'.trans param, history'.trans history, perf'.trans perf, fun i other => ?_,
      fun i => (null' i).trans (null i), fun p fresh => ?_, fun p => (counts' p).trans (counts p)⟩
    · rw [List.map_cons, List.mem_cons, not_or] at other
      exact (grad' i (List.mem_singleton.not.mpr other.1)).trans (grad i other.2)
    · rw [List.flatMap_cons, List.mem_append, not_or] at fresh
      exact (paramGrad' p fresh.1).trans (paramGrad p fresh.2)

end Gradients

section Balance

variable {w : BPWorker ℝ} {S S' : NetState ℝ} {dθ dy : ℕ → ℕ → ℝ} {dloss : ℕ → ℝ}

/-- What is at a gradient that has been written, and not been read by its layer. -/
def openFlow (ids : List ℕ) (S : NetState ℝ) (dy : ℕ → ℕ → ℝ) (l : WorkerLayer ℝ) : ℝ :=
  match l.target with
  | none => 0
  | some i => if i ∈ ids then 0 else paired (S.grad i) (dy i)

/-- A sum over a list in which one element counts. -/
theorem sum_single {β : Type} {p : β → Prop} [DecidablePred p] {l : List β} (x : ℝ) (one : ∃ b ∈ l, p b)
    (unique : l.Pairwise fun a b => p a → ¬p b) : (l.map fun b => if p b then x else 0).sum = x := by
  induction l with
  | nil => simp at one
  | cons b l ih =>
    obtain ⟨first, unique⟩ := List.pairwise_cons.mp unique
    rw [List.map_cons, List.sum_cons]
    by_cases here : p b
    · have others : l.map (fun b => if p b then x else 0) = l.map fun _ => 0 :=
        List.map_congr_left fun c mem => if_neg (first c mem here)
      rw [if_pos here, others]
      simp
    · obtain ⟨c, mem, there⟩ := one
      rw [if_neg here, zero_add]
      rcases List.mem_cons.mp mem with rfl | mem
      · exact absurd there here
      · exact ih ⟨c, mem, there⟩ unique

/-- **The account of `Backward`.** -/
theorem gradients_balance (net : List (WorkerLayer ℝ)) (wired : Wired net S.grad) (balanced : ∀ l ∈ net, Balanced w S dθ dy dloss l)
    (still : ∀ l ∈ net, ∀ i, l.target = some i → S.grad i = none → dy i = fun _ => 0) (run : w.gradients net S = .ok S') :
    (net.map fun l => dloss l.id).sum =
      (net.map (openFlow (net.map WorkerLayer.id) S' dy)).sum + (net.map (paramFlow w S' dθ)).sum := by
  induction net generalizing S' with
  | nil => simp
  | cons l net ih =>
    obtain ⟨S₁, before, last⟩ := gradients_cons run
    have account := ih wired.tail (fun a mem => balanced a (List.mem_cons_of_mem l mem))
      (fun a mem => still a (List.mem_cons_of_mem l mem)) before
    have frame := gradients_frame before
    have frame' := computeGradient_frame last
    obtain ⟨after, -⟩ := List.pairwise_cons.mp wired.order
    obtain ⟨alone, -⟩ := List.pairwise_cons.mp wired.single
    have distinct := wired.params
    rw [List.flatMap_cons, List.nodup_append] at distinct
    -- the gradient that `l` writes has not been written before
    have unwritten : ∀ i, l.target = some i → S₁.grad i = S.grad i := by
      intro i here
      by_cases other : some i ∈ net.map WorkerLayer.target
      · obtain ⟨a, mem, there⟩ := List.mem_map.mp other
        have none := alone a mem i here there
        rw [none, (frame.null i).mpr none]
      · exact frame.grad i other
    have agrees : Agrees w S₁ S l := ⟨congrFun frame.data _, congrFun frame.own _, fun i _ => congrFun frame.data i,
      fun p _ => congrFun frame.param _, unwritten⟩
    have balance := balanced l List.mem_cons_self S₁ S' agrees
      (fun other => by rw [frame.null]; exact wired.null l List.mem_cons_self other) distinct.1
      (fun i here none => still l List.mem_cons_self i here ((frame.null i).mp none)) last
    have params : net.map (paramFlow w S' dθ) = net.map (paramFlow w S₁ dθ) := by
      refine List.map_congr_left fun a mem => ?_
      unfold paramFlow
      rw [List.map_congr_left fun p listed => frame'.paramGrad p fun own =>
        distinct.2.2 p own p (List.mem_flatMap.mpr ⟨a, mem, listed⟩) rfl]
    have own : openFlow ((l :: net).map WorkerLayer.id) S' dy l = targetFlow S' dy l := by
      unfold openFlow targetFlow
      cases here : l.target with
      | none => rfl
      | some i =>
        have read : i ∈ l.sources := List.mem_of_mem_head? here
        refine if_neg fun mem => ?_
        rcases List.mem_cons.mp mem with rfl | mem
        · exact wired.apart l List.mem_cons_self read
        · obtain ⟨a, listed, rfl⟩ := List.mem_map.mp mem
          exact (after a listed).2 read
    set x := paired (S₁.grad l.id) (dy l.id) with x_eq
    have fresh : l.id ∉ net.map WorkerLayer.id := fun mem => by
      obtain ⟨a, listed, same⟩ := List.mem_map.mp mem
      exact (after a listed).1 same.symm
    -- what is read now goes, and everything else stays where it is
    have each : ∀ a ∈ net, openFlow (net.map WorkerLayer.id) S₁ dy a =
        openFlow ((l :: net).map WorkerLayer.id) S' dy a + if a.target = some l.id then x else 0 := by
      intro a mem
      unfold openFlow
      cases there : a.target with
      | none => simp
      | some i =>
        dsimp only
        rw [List.map_cons]
        by_cases here : i = l.id
        · subst here
          rw [if_neg fresh, if_pos List.mem_cons_self, if_pos rfl, zero_add]
        · rw [if_neg (fun same => here (Option.some.inj same)), add_zero]
          by_cases inside : i ∈ net.map WorkerLayer.id
          · rw [if_pos inside, if_pos (List.mem_cons_of_mem _ inside)]
          · rw [if_neg inside, if_neg (List.mem_cons.not.mpr (not_or.mpr ⟨here, inside⟩))]
            by_cases same : l.target = some i
            · have none := alone a mem i same there
              rw [(frame.null i).mpr none, (frame'.null i).mpr ((frame.null i).mpr none)]
            · rw [frame'.grad i (List.mem_singleton.not.mpr (Ne.symm same))]
    have reads : (net.map fun a => if a.target = some l.id then x else 0).sum = x := by
      by_cases none : S.grad l.id = none
      · have zero : x = 0 := by rw [x_eq, (frame.null _).mpr none, paired]
        rw [zero]
        simp
      · obtain ⟨a, mem, there⟩ := wired.fed l List.mem_cons_self none
        rcases List.mem_cons.mp mem with rfl | mem
        · exact absurd (List.mem_of_mem_head? there) (wired.apart a List.mem_cons_self)
        · exact sum_single x ⟨a, mem, there⟩ (wired.tail.single.imp fun unique here there => none (unique _ here there))
    have moved : (net.map (openFlow (net.map WorkerLayer.id) S₁ dy)).sum =
        (net.map (openFlow ((l :: net).map WorkerLayer.id) S' dy)).sum + x := by
      rw [List.map_congr_left each, List.sum_map_add, reads]
    have ids : (l :: net).map WorkerLayer.id = l.id :: net.map WorkerLayer.id := rfl
    rw [ids] at moved own ⊢
    rw [List.map_cons, List.map_cons, List.map_cons, List.sum_cons, List.sum_cons, List.sum_cons, account, moved, params, own]
    linarith

/-- **At the end everything has arrived at the params.** -/
theorem gradients_total {net : List (WorkerLayer ℝ)} (wired : Wired net S.grad) (balanced : ∀ l ∈ net, Balanced w S dθ dy dloss l)
    (outside : ∀ i ∉ net.map WorkerLayer.id, dy i = fun _ => 0)
    (parsers : ∀ l ∈ net, l.isParser = true → dy l.id = fun _ => 0) (run : w.gradients net S = .ok S') :
    (net.map fun l => dloss l.id).sum = (net.map (paramFlow w S' dθ)).sum := by
  have still : ∀ l ∈ net, ∀ i, l.target = some i → S.grad i = none → dy i = fun _ => 0 := by
    intro l mem i there none
    by_cases inside : i ∈ net.map WorkerLayer.id
    · obtain ⟨a, listed, rfl⟩ := List.mem_map.mp inside
      exact parsers a listed (wired.input l mem a.id there none a listed rfl)
    · exact outside i inside
  have closed : net.map (openFlow (net.map WorkerLayer.id) S' dy) = net.map fun _ => 0 := by
    refine List.map_congr_left fun l _ => ?_
    unfold openFlow
    cases l.target with
    | none => rfl
    | some i =>
      dsimp only
      split
      · rfl
      · next out =>
        rw [outside i out]
        cases S'.grad i with
        | none => rfl
        | some g => exact Pairing.pairing_zero _
  rw [gradients_balance net wired balanced still run, closed]
  simp

end Balance

end BPWorker

/-! ## Partial derivatives -/

/-- A blob with one element replaced. -/
def LayerBlob.replace {α : Type} (b : LayerBlob α) (k : ℕ) (x : α) : LayerBlob α :=
  ⟨b.shape, b.values.set k x, by rw [List.length_set, b.sized]⟩

theorem LayerBlob.dptr_replace {α : Type} [Zero α] {b : LayerBlob α} {k : ℕ} (lt : k < b.count) (x : α) :
    (b.replace k x).dptr = Function.update b.dptr k x := by
  have inside : k < b.values.length := by rwa [b.length_values]
  funext i
  unfold LayerBlob.dptr LayerBlob.replace
  by_cases same : i = k
  · subst same
    rw [Function.update_self, List.getD_eq_getElem _ _ (by rwa [List.length_set]), List.getElem_set_self]
  · rw [Function.update_of_ne same, List.getD_eq_getElem?_getD, List.getD_eq_getElem?_getD, List.getElem?_set_ne (Ne.symm same)]

theorem LayerBlob.replace_self {α : Type} [Zero α] (b : LayerBlob α) (k : ℕ) : b.replace k (b.dptr k) = b := by
  refine LayerBlob.ext rfl (List.ext_getElem? fun i => ?_)
  unfold LayerBlob.replace LayerBlob.dptr
  dsimp only
  by_cases same : k = i
  · subst same
    rw [List.getElem?_set_self', List.getD_eq_getElem?_getD]
    cases b.values[k]? <;> rfl
  · rw [List.getElem?_set_ne same]

/-- The net with another value for one element of a param. -/
def NetState.withParam {α : Type} (S : NetState α) (o k : ℕ) (x : α) : NetState α :=
  { S with param := Function.update S.param o ((S.param o).replace k x) }

theorem NetState.withParam_self {α : Type} (S : NetState α) (o k : ℕ) (x : α) :
    (S.withParam o k x).param o = (S.param o).replace k x := Function.update_self _ _ _

theorem NetState.withParam_of_ne {α : Type} (S : NetState α) {o i : ℕ} (other : i ≠ o) (k : ℕ) (x : α) :
    (S.withParam o k x).param i = S.param i := Function.update_of_ne other _ _

namespace BPWorker

variable {w : BPWorker ℝ} {fltMin : ℝ}

/-- The labels are from a parser layer, or from outside. -/
def Fixed {α : Type} (net : List (WorkerLayer α)) (i : ℕ) : Prop := ∀ l ∈ net, l.id = i → l.isParser = true

/-- The gradients of the params that share one owner, at one element. -/
def gradientAt (w : BPWorker ℝ) (net : List (WorkerLayer ℝ)) (S : NetState ℝ) (o k : ℕ) : ℝ :=
  (((w.layers net).flatMap WorkerLayer.params).map fun p => if w.owner p = o then (S.paramGrad p).dptr k else 0).sum

theorem pairedParams_map (params : List ℕ) (g : ℕ → LayerBlob ℝ) (d : ℕ → ℕ → ℝ) :
    NeuronLayer.pairedParams (params.map g) (params.map d) =
      (params.map fun p => Pairing.pairing (g p).count (g p).dptr (d p)).sum := by
  unfold NeuronLayer.pairedParams
  rw [List.zipWith_map, List.zipWith_self]

theorem paramFlow_sum (w : BPWorker ℝ) (G : NetState ℝ) (dθ : ℕ → ℕ → ℝ) (layers : List (WorkerLayer ℝ)) :
    (layers.map (paramFlow w G dθ)).sum = ((layers.flatMap WorkerLayer.params).map fun p =>
      Pairing.pairing (G.paramGrad p).count (G.paramGrad p).dptr (dθ (w.owner p))).sum := by
  induction layers with
  | nil => rfl
  | cons l layers ih =>
    rw [List.map_cons, List.sum_cons, ih, List.flatMap_cons, List.map_append, List.sum_append, paramFlow, pairedParams_map]

/-- **Back propagation computes the partial derivatives of the loss.** After `Forward` and `Backward` the gradients of
the params of an owner add up, at every element, to the derivative of the loss with respect to that element. -/
theorem gradient_is_derivative (real : ∀ i, (w.env i).math = FloatMath.real) (realOps : w.ops = FloatOps.real fltMin)
    {net : List (WorkerLayer ℝ)} {S₀ S G : NetState ℝ} (wired : Wired (w.layers net) S₀.grad)
    (forward : w.forward true net S₀ = .ok S) (smooth : ∀ l ∈ w.layers net, w.Smooth fltMin (Fixed (w.layers net)) S l)
    (backward : w.gradients (w.layers net) S = .ok G) {o k : ℕ} (lt : k < (S₀.param o).count) :
    ∃ next : ℝ → NetState ℝ, (∀ x, w.forward true net (S₀.withParam o k x) = .ok (next x)) ∧
      HasDerivAt (fun x => lossSum (next x)) (w.gradientAt net G o k) ((S₀.param o).dptr k) := by
  set layers := w.layers net with layers_eq
  set t := (S₀.param o).dptr k with t_eq
  have same : S₀.withParam o k t = S₀ := by
    unfold NetState.withParam
    rw [t_eq, LayerBlob.replace_self, Function.update_eq_self]
  have alike : ∀ x, Alike (Fixed layers) S₀ (S₀.withParam o k x) := by
    refine fun x => ⟨fun _ => rfl, fun _ => rfl, fun o' => ?_, fun _ _ => rfl⟩
    by_cases here : o' = o
    · subst here
      rw [S₀.withParam_self]
      rfl
    · rw [S₀.withParam_of_ne here]
  have stays : ∀ l ∈ layers, Fixed layers l.id → l.isParser = true := fun l mem fixed => fixed l mem rfl
  choose next run _ using fun x => forward_alike realOps layers (alike x) forward wired.order wired.apart stays smooth
  have here : next t = S := by
    have := run t
    rw [same] at this
    exact Except.ok.inj (this.symm.trans forward)
  refine ⟨next, run, ?_⟩
  have moving : Moving w t (fun x => S₀.withParam o k x) (fun i => if i = o then fun j => if j = k then 1 else 0 else fun _ => 0)
      (fun _ _ => 0) (Fixed layers) := by
    refine ⟨fun i => ?_, fun i => Velocity.Moves.const t (S₀.data i).dptr, fun _ _ => rfl, fun _ _ _ => rfl⟩
    by_cases own : i = o
    · subst own
      have values : (fun x => ((S₀.withParam i k x).param i).dptr) = fun x => Function.update (S₀.param i).dptr k x := by
        funext x
        rw [S₀.withParam_self, LayerBlob.dptr_replace lt]
      show Velocity.Moves t (fun x => ((S₀.withParam i k x).param i).dptr) _
      rw [values, if_pos rfl]
      exact Velocity.Moves.one _ k
    · have values : (fun x => ((S₀.withParam o k x).param i).dptr) = fun _ => (S₀.param i).dptr :=
        funext fun x => congrArg LayerBlob.dptr (S₀.withParam_of_ne own k x)
      show Velocity.Moves t (fun x => ((S₀.withParam o k x).param i).dptr) _
      rw [values, if_neg own]
      exact Velocity.Moves.const t _
  obtain ⟨dy, dloss, outside, parsers, balanced, total⟩ := forward_moves real realOps layers moving (fun _ _ _ => ⟨rfl, rfl⟩)
    (hasDerivAt_const t (lossSum S₀)) run wired.order wired.apart stays (here ▸ smooth)
  rw [here] at balanced
  have grads : S.grad = S₀.grad := (forward_frame forward).1
  rw [gradients_total (grads ▸ wired) balanced outside parsers backward, zero_add] at total
  refine total.congr_deriv ((paramFlow_sum w G _ layers).trans ?_)
  unfold gradientAt
  refine congrArg List.sum (List.map_congr_left fun p _ => ?_)
  split
  · by_cases inside : k < (G.paramGrad p).count
    · exact Pairing.pairing_unit _ inside
    · rw [LayerBlob.dptr_of_le _ (Nat.le_of_not_lt inside)]
      unfold Pairing.pairing
      refine Finset.sum_eq_zero fun i mem => ?_
      have := Finset.mem_range.mp mem
      dsimp only
      rw [if_neg (by omega), mul_zero]
  · exact Pairing.pairing_zero _

end BPWorker
end Singa
