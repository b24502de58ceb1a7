import Singa.Base.Loop

/-!
# A queue of tasks that wait for one another

A task waits for the tasks in its `gate` and announces those in `next` when it
is done. The loop takes the task at the head of the queue: when all it waits for
is done, it is done too and what it announces is queued, unless it was before;
otherwise it goes back to the end. A task is `Ready` when no chain of waiting
goes on for ever from it. The loop ends exactly when every task that can be
announced is `Ready`, and has then done those, each after what it waits for.
-/

namespace Requeue
set_option autoImplicit false

open Relation

variable {α : Type*}

structure Line (α : Type*) where
  queue : List α
  done : List α
  seen : List α

/-- `w` is one of the tasks that `u` waits for. -/
def Waits (gate : α → List α) (u w : α) : Prop := w ∈ gate u

inductive Ready (gate : α → List α) : α → Prop
  | intro {u : α} (waits : ∀ w, Waits gate u w → Ready gate w) : Ready gate u

/-- A chain of announcements leads from `start` to the task. -/
inductive Reached (next : α → List α) (start : List α) : α → Prop
  | start {u : α} : u ∈ start → Reached next start u
  | next {u v : α} : Reached next start u → v ∈ next u → Reached next start v

/-- Every task stands after those it waits for. -/
inductive Ordered (gate : α → List α) : List α → Prop
  | nil : Ordered gate []
  | snoc {done : List α} {u : α} : Ordered gate done → gate u ⊆ done → Ordered gate (done ++ [u])

/-- Tasks among `tasks`; each is announced by those it waits for, and starts when there are none. -/
structure Linked (gate next : α → List α) (start tasks : List α) : Prop where
  first : start ⊆ tasks
  closed : ∀ u ∈ tasks, next u ⊆ tasks
  inside : ∀ u ∈ tasks, gate u ⊆ tasks
  heard : ∀ u ∈ tasks, ∀ w ∈ gate u, u ∈ next w
  free : ∀ u ∈ tasks, gate u = [] → u ∈ start

variable {gate next : α → List α} {start tasks : List α} {u v w : α}

section Order

theorem Ready.chain (h : Ready gate u) (chain : ReflTransGen (Waits gate) u w) : Ready gate w := by
  induction chain with
  | refl => exact h
  | tail _ last ih =>
    cases ih with
    | intro waits => exact waits _ last

theorem Ready.irrefl (h : Ready gate u) : ¬ TransGen (Waits gate) u u := by
  induction h with
  | intro waits ih =>
    intro cycle
    obtain ⟨x, first, rest⟩ := TransGen.head'_iff.mp cycle
    exact ih x first (TransGen.tail' rest first)

/-- Among finitely many tasks only a cycle waits for ever. -/
theorem ready_iff (inside : ∀ u ∈ tasks, gate u ⊆ tasks) (mem : u ∈ tasks) :
    Ready gate u ↔ ∀ w, ReflTransGen (Waits gate) u w → ¬ TransGen (Waits gate) w w := by
  constructor
  · intro ready w chain
    exact (ready.chain chain).irrefl
  · intro acyclic
    let Below := { w : α // w ∈ tasks ∧ ReflTransGen (Waits gate) u w }
    let before : Below → Below → Prop := fun x y => TransGen (Waits gate) y.1 x.1
    have finite : Finite Below := (tasks.finite_toSet.subset fun _ mem => mem.1).to_subtype
    have : IsTrans Below before := ⟨fun _ _ _ xy yz => yz.trans xy⟩
    have : Std.Irrefl before := ⟨fun x => acyclic x.1 x.2.2⟩
    have wf := Finite.wellFounded_of_trans_of_irrefl before
    suffices all : ∀ x : Below, Ready gate x.1 from all ⟨u, mem, .refl⟩
    intro x
    induction x using wf.induction with
    | h x ih =>
      refine .intro fun w waits => ?_
      exact ih ⟨w, inside x.1 x.2.1 waits, x.2.2.tail waits⟩ (.single waits)

/-- Where waiting follows an acyclic relation, nothing waits for ever. -/
theorem ready_of_acyclic {r : α → α → Prop} (inside : ∀ u ∈ tasks, gate u ⊆ tasks)
    (follows : ∀ u ∈ tasks, ∀ w ∈ gate u, r w u) (acyclic : ∀ u ∈ tasks, ¬ TransGen r u u)
    (mem : u ∈ tasks) : Ready gate u := by
  rw [ready_iff inside mem]
  intro w chain cycle
  have stays {x y : α} (path : ReflTransGen (Waits gate) x y) (mem : x ∈ tasks) : y ∈ tasks := by
    induction path with
    | refl => exact mem
    | tail _ last ih => exact inside _ ih last
  have back {x : α} (path : TransGen (Waits gate) w x) : TransGen r x w := by
    induction path with
    | single last => exact .single (follows w (stays chain mem) _ last)
    | tail path last ih => exact .head (follows _ (stays (chain.trans path.to_reflTransGen) mem) _ last) ih
  exact acyclic w (stays chain mem) (back cycle)

theorem Ordered.split {done pre post : List α} (h : Ordered gate done) (whole : done = pre ++ u :: post) :
    gate u ⊆ pre := by
  induction h generalizing post with
  | nil => simp at whole
  | @snoc done v before waits ih =>
    rcases post.eq_nil_or_concat with rfl | ⟨post, x, rfl⟩
    · obtain ⟨rfl, last⟩ := List.append_inj' whole rfl
      cases last
      exact waits
    · have front : done ++ [v] = (pre ++ u :: post) ++ [x] := by simpa using whole
      exact ih (List.append_inj' front rfl).1

theorem Ordered.front {pre post : List α} (h : Ordered gate (pre ++ post)) : Ordered gate pre := by
  induction post using List.reverseRecOn with
  | nil => rwa [List.append_nil] at h
  | append_singleton post x ih =>
    generalize whole : pre ++ (post ++ [x]) = done at h
    cases h with
    | nil => simp at whole
    | snoc before _ =>
      rw [← List.append_assoc] at whole
      obtain ⟨rfl, -⟩ := List.append_inj' whole rfl
      exact ih before

/-- Whatever a task of the order waits for, at any distance, is in the order. -/
theorem Ordered.chain {done : List α} (h : Ordered gate done) (mem : u ∈ done)
    (path : ReflTransGen (Waits gate) u w) : w ∈ done := by
  induction path with
  | refl => exact mem
  | @tail v w _ last ih =>
    obtain ⟨pre, post, whole⟩ := List.append_of_mem ih
    rw [whole]
    exact List.mem_append_left _ (h.split whole last)

/-- What is done waits for no cycle. -/
theorem Ordered.ready {done : List α} (h : Ordered gate done) : ∀ u ∈ done, Ready gate u := by
  induction h with
  | nil => simp
  | @snoc done v _ waits ih =>
    intro u mem
    rcases List.mem_append.mp mem with old | new
    · exact ih u old
    · obtain rfl := List.mem_singleton.mp new
      exact .intro fun w wait => ih w (waits wait)

end Order

section Passes

/-- What holds between two passes. -/
structure Kept (gate next : α → List α) (start : List α) (s : Line α) : Prop where
  once : (s.queue ++ s.done).Nodup
  seen : ∀ u, u ∈ s.seen ↔ u ∈ s.queue ∨ u ∈ s.done
  first : start ⊆ s.seen
  heard : ∀ u ∈ s.done, next u ⊆ s.seen
  reached : ∀ u ∈ s.seen, Reached next start u
  order : Ordered gate s.done

theorem Kept.begin (once : start.Nodup) : Kept gate next start ⟨start, [], start⟩ where
  once := by simpa using once
  seen := by simp
  first := List.Subset.refl start
  heard := by simp
  reached _ mem := .start mem
  order := .nil

theorem Kept.requeue {s : Line α} {rest : List α} (h : Kept gate next start s) (queue : s.queue = u :: rest) :
    Kept gate next start { s with queue := rest ++ [u] } := by
  have moved : (rest ++ [u]).Perm s.queue := queue ▸ List.perm_append_singleton u rest
  refine ⟨?_, fun x => ?_, h.first, h.heard, h.reached, h.order⟩
  · exact (moved.append_right s.done).nodup_iff.mpr h.once
  · rw [h.seen x, moved.mem_iff]

theorem Linked.reached_mem (linked : Linked gate next start tasks) (h : Reached next start u) : u ∈ tasks := by
  induction h with
  | start mem => exact linked.first mem
  | next _ mem ih => exact linked.closed _ ih mem

/-- A task that waits for no cycle is announced. -/
theorem Linked.reached (linked : Linked gate next start tasks) (ready : Ready gate u) (mem : u ∈ tasks) :
    Reached next start u := by
  induction ready with
  | @intro u _ ih =>
    cases gates : gate u with
    | nil => exact .start (linked.free u mem gates)
    | cons w rest =>
      have waits : w ∈ gate u := gates ▸ List.mem_cons_self
      exact .next (ih w waits (linked.inside u mem waits)) (linked.heard u mem w waits)

theorem Kept.length_le {s : Line α} (h : Kept gate next start s) (linked : Linked gate next start tasks) :
    s.queue.length + s.done.length ≤ tasks.length := by
  rw [← List.length_append]
  refine (h.once.subperm fun u mem => ?_).length_le
  exact linked.reached_mem (h.reached u ((h.seen u).mpr (List.mem_append.mp mem)))

end Passes

section Loop

variable [DecidableEq α]

def Line.push (s : Line α) (t : α) : Line α :=
  if t ∈ s.seen then s else { s with queue := s.queue ++ [t], seen := s.seen ++ [t] }

/-- One pass of the loop. -/
def body (gate next : α → List α) (s : Line α) : Line α ⊕ List α :=
  match s.queue with
  | [] => .inr s.done
  | u :: rest =>
    if ∀ w ∈ gate u, w ∈ s.done then .inl ((next u).foldl Line.push { s with queue := rest, done := s.done ++ [u] })
    else .inl { s with queue := rest ++ [u] }

/-- What the pushes of one pass add. -/
theorem push_all (ts : List α) (s : Line α) : ∃ new,
    ts.foldl Line.push s = { s with queue := s.queue ++ new, seen := s.seen ++ new } ∧ new.Nodup ∧
      (∀ t ∈ new, t ∈ ts ∧ t ∉ s.seen) ∧ ts ⊆ s.seen ++ new := by
  induction ts generalizing s with
  | nil => exact ⟨[], by simp⟩
  | cons t ts ih =>
    obtain ⟨new, fold, once, fresh, all⟩ := ih (s.push t)
    rw [List.foldl_cons, fold]
    by_cases old : t ∈ s.seen
    · have same : s.push t = s := if_pos old
      rw [same] at fresh all ⊢
      refine ⟨new, rfl, once, fun x hx => ⟨List.mem_cons_of_mem t (fresh x hx).1, (fresh x hx).2⟩, ?_⟩
      exact List.cons_subset.mpr ⟨List.mem_append_left new old, all⟩
    · have added : s.push t = { s with queue := s.queue ++ [t], seen := s.seen ++ [t] } := if_neg old
      rw [added] at fresh all ⊢
      refine ⟨t :: new, by simp, List.nodup_cons.mpr ⟨fun mem => ?_, once⟩, fun x hx => ?_, ?_⟩
      · exact (fresh t mem).2 (by simp)
      · rcases List.mem_cons.mp hx with rfl | hx
        · exact ⟨List.mem_cons_self, old⟩
        · obtain ⟨announced, unseen⟩ := fresh x hx
          exact ⟨List.mem_cons_of_mem t announced, fun mem => unseen (List.mem_append_left [t] mem)⟩
      · intro x hx
        rcases List.mem_cons.mp hx with rfl | hx
        · simp
        · simpa using all hx

theorem Kept.visit {s : Line α} {rest : List α} (h : Kept gate next start s) (queue : s.queue = u :: rest)
    (waits : gate u ⊆ s.done) :
    Kept gate next start ((next u).foldl Line.push { s with queue := rest, done := s.done ++ [u] }) := by
  obtain ⟨new, fold, newOnce, fresh, all⟩ := push_all (next u) { s with queue := rest, done := s.done ++ [u] }
  rw [fold]
  have once := h.once
  have seen := h.seen
  rw [queue] at once seen
  have mem : u ∈ s.seen := (seen u).mpr (by simp)
  refine ⟨?_, ?_, ?_, ?_, ?_, h.order.snoc waits⟩
  · have moved : (rest ++ new ++ (s.done ++ [u])).Perm (new ++ (u :: rest ++ s.done)) := by
      have : (rest ++ new ++ (s.done ++ [u])).Perm (new ++ (rest ++ (s.done ++ [u]))) := by
        rw [List.append_assoc]
        exact List.perm_append_comm_assoc rest new _
      refine this.trans (List.Perm.append_left new ?_)
      rw [← List.append_assoc]
      exact List.perm_append_singleton u (rest ++ s.done)
    rw [moved.nodup_iff]
    refine newOnce.append once fun x hnew hold => (fresh x hnew).2 ((seen x).mpr ?_)
    simpa [or_assoc] using hold
  · intro x
    simp only [List.mem_append, seen x, List.mem_cons, List.not_mem_nil, or_false]
    tauto
  · exact fun x hx => List.mem_append_left new (h.first hx)
  · intro x hx
    rcases List.mem_append.mp hx with old | last
    · exact fun y hy => List.mem_append_left new (h.heard x old hy)
    · obtain rfl := List.mem_singleton.mp last
      exact all
  · intro x hx
    rcases List.mem_append.mp hx with old | hnew
    · exact h.reached x old
    · exact .next (h.reached u mem) (fresh x hnew).1

theorem Kept.pass {s s' : Line α} (h : Kept gate next start s) (pass : body gate next s = .inl s') :
    Kept gate next start s' := by
  rw [body] at pass
  split at pass
  · cases pass
  · rename_i u rest queue
    split at pass
    · rename_i waits
      cases pass
      exact h.visit queue waits
    · cases pass
      exact h.requeue queue

/-- What the loop has done at its end. -/
theorem result {fuel : Nat} {done : List α} (once : start.Nodup)
    (h : Loop.run (body gate next) fuel ⟨start, [], start⟩ = some done) :
    done.Nodup ∧ (∀ u, u ∈ done ↔ Reached next start u) ∧ Ordered gate done := by
  obtain ⟨last, kept, leave⟩ :=
    Loop.run_inv (Kept gate next start) (fun _ _ => Kept.pass) (Kept.begin once) h
  rw [body] at leave
  split at leave
  · rename_i queue
    cases leave
    have seen := kept.seen
    have nodup := kept.once
    simp only [queue, List.not_mem_nil, false_or, List.nil_append] at seen nodup
    refine ⟨nodup, fun u => ⟨fun mem => kept.reached u ((seen u).mpr mem), fun reached => ?_⟩, kept.order⟩
    induction reached with
    | start mem => exact (seen _).mp (kept.first mem)
    | next _ mem ih => exact (seen _).mp (kept.heard _ ih mem)
  · split at leave <;> cases leave

end Loop
end Requeue
