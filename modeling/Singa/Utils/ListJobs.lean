import Singa.Base.Decimal
import Singa.Base.PathTree
import Singa.Utils.ClusterRt

/-!
# `utils/cluster_rt.cc`: listing the jobs

`JobManager::ListJobs` and the two requests it makes of ZooKeeper, over the tree
of all nodes. ZooKeeper lists the children of a node in any order, and a node
that has children is not deleted. A request that fails in another way than with
`ZNONODE` on a deletion stops the program, so that no function returns `false`.
-/

namespace Singa
set_option autoImplicit false

variable {δ : Type}

/-- The nodes of ZooKeeper; `δ` is what a node carries beside its name. -/
abbrev ZooTree (δ : Type) := PathTree (List Char) δ

/-- The path of a node: the names from the node up to the root. -/
abbrev ZooPath := List (List Char)

/-- A part of `JobManager`. -/
abbrev ZooProg (δ β : Type) := StateT (ZooTree δ) Run β

/-- In which order a server lists children. -/
structure ZooServer (δ : Type) where
  order : ZooTree δ → ZooPath → List (List Char)
  perm : ∀ zk p, (order zk p).Perm (zk.children p)

/-- `kZKPathApp`. -/
def kZKPathApp : ZooPath := ["app".toList, "singa".toList]

/-- The name of the node of a job. -/
def jobName (id : Nat) : List Char := "job-".toList ++ padded 10 id

/-- `GetZKJobWorkspace`. -/
def getZKJobWorkspace (id : Nat) : ZooPath := jobName id :: kZKPathApp

/-- `kZKPathJobProc`, without the slash. -/
def kZKPathJobProc : List Char := "proc".toList

/-- `JobInfo`, less the name, which is not set. -/
structure JobInfo where
  id : Int
  procs : Nat
  deriving DecidableEq, Repr

/-- `ZKService::GetChild`. -/
def getChild (server : ZooServer δ) (path : ZooPath) : ZooProg δ (List (List Char)) := fun zk =>
  if path ∈ zk.paths then .ok (server.order zk path, zk) else .error .zkError

/-- `ZKService::DeleteNode`. -/
def deleteNode (path : ZooPath) : ZooProg δ Bool := fun zk =>
  -- `ZNONODE` is reported by a warning only
  if path ∉ zk.paths then .ok (true, zk)
  else if leaf : zk.children path = [] then .ok (true, zk.erase path leaf)
  else .error .zkError

namespace JobManager

/-- `kJobsNotRemoved`. -/
def kJobsNotRemoved : Nat := 10

/-- `JobManager::CleanPath`. -/
def cleanPath (server : ZooServer δ) : Nat → ZooPath → Bool → ZooProg δ Bool
  | 0, _, _ => fun _ => .error .fuel
  | fuel + 1, path, remove => do
    let child ← getChild server path
    if ← child.allM fun c => cleanPath server fuel (c :: path) true then
      if remove then deleteNode path else pure true
    else pure false

/-- One pass of the loop of `ListJobs`, for the name `vt[i]` of `size`. -/
def listJob (server : ZooServer δ) (fuel size : Nat) (jobs : List JobInfo) (name : List Char) (i : Nat) :
    ZooProg δ (List JobInfo) := do
  let procs ← getChild server (kZKPathJobProc :: name :: kZKPathApp)
  if name.length < 10 then fun _ => .error .range
  else
    let jid := name.drop (name.length - 10)
    -- `atoi` converts a `long` to an `int`
    let job : JobInfo := ⟨(Decimal.atoi jid).bmod (2 ^ 32), procs.length⟩
    if job.procs = 0 ∧ i + kJobsNotRemoved < size then
      let _ ← cleanPath server fuel (name :: kZKPathApp) true
    return jobs ++ [job]

/-- `JobManager::ListJobs`. -/
def listJobs (server : ZooServer δ) (fuel : Nat) : ZooProg δ (List JobInfo) := do
  let vt ← getChild server kZKPathApp
  let vt := vt.insertionSort (· ≤ ·)
  vt.zipIdx.foldlM (fun jobs (name, i) => listJob server fuel vt.length jobs name i) []

end JobManager

/-! ## Requests -/

theorem ZooProg.bind_ok {β γ : Type} {m : ZooProg δ β} {f : β → ZooProg δ γ} {zk zk' : ZooTree δ} {b : β}
    (h : m zk = .ok (b, zk')) : (m >>= f) zk = f b zk' := by
  show (m zk >>= fun r => f r.1 r.2) = f b zk'
  rw [h]
  rfl

theorem getChild_ok (server : ZooServer δ) {zk : ZooTree δ} {path : ZooPath} (mem : path ∈ zk.paths) :
    getChild server path zk = .ok (server.order zk path, zk) := if_pos mem

/-- A node without children is deleted. -/
theorem deleteNode_ok {zk : ZooTree δ} {path : ZooPath} (mem : path ∈ zk.paths) (leaf : zk.children path = []) :
    ∃ zk', deleteNode path zk = .ok (true, zk') ∧ PathTree.Pruned (fun q => q = path) zk zk' := by
  refine ⟨zk.erase path leaf, ?_, PathTree.erase_pruned leaf⟩
  unfold deleteNode
  rw [if_neg (not_not.mpr mem), dif_pos leaf]

namespace JobManager

/-! ## Deleting a subtree -/

/-- What `CleanPath` deletes: the subtree, or all of it but its root. -/
def Cleaned (path : ZooPath) (remove : Bool) (q : ZooPath) : Prop := path <:+ q ∧ (remove = true ∨ q ≠ path)

instance (path : ZooPath) (remove : Bool) : DecidablePred (Cleaned path remove) :=
  fun q => inferInstanceAs (Decidable (path <:+ q ∧ (remove = true ∨ q ≠ path)))

/-- The loop of `CleanPath` over children. -/
theorem cleanChildren_ok (server : ZooServer δ) {fuel : Nat} {path : ZooPath}
    (ih : ∀ {path : ZooPath} {zk : ZooTree δ} (remove : Bool), path ∈ zk.paths →
      (∀ q ∈ zk.paths, path <:+ q → q.length < path.length + fuel) →
      ∃ zk', cleanPath server fuel path remove zk = .ok (true, zk') ∧ PathTree.Pruned (Cleaned path remove) zk zk')
    {child : List (List Char)} (nodup : child.Nodup) {zk : ZooTree δ} (present : ∀ c ∈ child, c :: path ∈ zk.paths)
    (deep : ∀ q ∈ zk.paths, path <:+ q → q.length < path.length + (fuel + 1)) :
    ∃ zk', child.allM (fun c => cleanPath server fuel (c :: path) true) zk = .ok (true, zk') ∧
      PathTree.Pruned (fun q => ∃ c ∈ child, c :: path <:+ q) zk zk' := by
  induction child generalizing zk with
  | nil => exact ⟨zk, rfl, .nothing fun q _ => by simp⟩
  | cons c child loop =>
    obtain ⟨new, nodup⟩ := List.nodup_cons.mp nodup
    have deep_child : ∀ q ∈ zk.paths, c :: path <:+ q → q.length < (c :: path).length + fuel := by
      intro q mem below
      have := deep q mem ((List.suffix_cons c path).trans below)
      rw [List.length_cons]
      omega
    obtain ⟨zk₁, ran, pruned⟩ := ih true (present c List.mem_cons_self) deep_child
    have kept : ∀ d ∈ child, d :: path ∈ zk₁.paths := by
      intro d mem
      refine pruned.mem.mpr ⟨present d (List.mem_cons_of_mem c mem), fun cleaned => ?_⟩
      have same := PathTree.siblings_apart cleaned.1 (List.suffix_refl (d :: path))
      exact new (same ▸ mem)
    obtain ⟨zk₂, ran', pruned'⟩ := loop nodup kept fun q mem => deep q (pruned.mem.mp mem).1
    refine ⟨zk₂, ?_, (pruned.trans pruned').congr fun q _ => ?_⟩
    · rw [List.allM, ZooProg.bind_ok ran]
      exact ran'
    · simp [Cleaned]

/-- **`CleanPath` deletes exactly a subtree**, in whatever order children are listed. -/
theorem cleanPath_ok (server : ZooServer δ) {fuel : Nat} {path : ZooPath} {zk : ZooTree δ} (remove : Bool)
    (mem : path ∈ zk.paths) (deep : ∀ q ∈ zk.paths, path <:+ q → q.length < path.length + fuel) :
    ∃ zk', cleanPath server fuel path remove zk = .ok (true, zk') ∧ PathTree.Pruned (Cleaned path remove) zk zk' := by
  induction fuel generalizing path zk remove with
  | zero => exact absurd (deep path mem (List.suffix_refl path)) (lt_irrefl _)
  | succ fuel ih =>
    have listed : ∀ c, c ∈ server.order zk path ↔ c :: path ∈ zk.paths := fun c => by
      rw [(server.perm zk path).mem_iff, PathTree.mem_children]
    obtain ⟨zk₁, ran, pruned⟩ := cleanChildren_ok server ih
      ((server.perm zk path).nodup_iff.mpr (zk.nodup_children path)) (fun c => (listed c).mp) deep
    -- what is strictly below the path is below one of the children
    have below : ∀ q ∈ zk.paths, (∃ c ∈ server.order zk path, c :: path <:+ q) ↔ path <:+ q ∧ q ≠ path := by
      intro q there
      constructor
      · rintro ⟨c, -, below⟩
        refine ⟨(List.suffix_cons c path).trans below, ?_⟩
        rintro rfl
        have := below.length_le
        simp at this
      · rintro ⟨below, strict⟩
        obtain ⟨c, below⟩ := PathTree.suffix_split below strict
        exact ⟨c, (listed c).mpr (PathTree.above below there), below⟩
    rw [cleanPath, ZooProg.bind_ok (getChild_ok server mem), ZooProg.bind_ok ran]
    cases remove with
    | false => exact ⟨zk₁, rfl, pruned.congr fun q there => by rw [below q there]; simp [Cleaned]⟩
    | true =>
      have mem₁ : path ∈ zk₁.paths := pruned.mem.mpr ⟨mem, by rw [below path mem]; simp⟩
      have leaf : zk₁.children path = [] := by
        rw [List.eq_nil_iff_forall_not_mem]
        intro c child
        obtain ⟨there, kept⟩ := pruned.mem.mp (PathTree.mem_children.mp child)
        exact kept ⟨c, (listed c).mpr there, List.suffix_refl _⟩
      obtain ⟨zk₂, ran', pruned'⟩ := deleteNode_ok mem₁ leaf
      refine ⟨zk₂, ran', (pruned.trans pruned').congr fun q there => ?_⟩
      rw [below q there]
      by_cases same : q = path
      · simp [Cleaned, same]
      · simp [Cleaned, same]

/-! ## Names of jobs -/

theorem length_padded (w n : Nat) : (padded w n).length = w := by
  induction w generalizing n with
  | zero => rfl
  | succ w ih => rw [padded, List.length_cons, ih]

theorem digitChar_isDigit {d : Nat} (digit : d < 10) : (Nat.digitChar d).isDigit = true := by
  interval_cases d <;> rfl

/-- A padded number that fits has digits only and its value. -/
theorem padded_digits {w n : Nat} (fits : n < 10 ^ w) :
    (∀ c ∈ padded w n, c.isDigit = true) ∧ ∀ m, Nat.ofDigitChars 10 (padded w n) m = 10 ^ w * m + n := by
  induction w generalizing n with
  | zero =>
    refine ⟨by simp [padded], fun m => ?_⟩
    rw [padded, Nat.ofDigitChars_nil]
    omega
  | succ w ih =>
    have pow : 0 < 10 ^ w := by positivity
    have top : n / 10 ^ w < 10 := (Nat.div_lt_iff_lt_mul pow).mpr (by rwa [Nat.mul_comm, ← Nat.pow_succ])
    obtain ⟨digits, value⟩ := ih (Nat.mod_lt n pow)
    refine ⟨fun c mem => ?_, fun m => ?_⟩
    · rcases List.mem_cons.mp mem with rfl | mem
      · exact digitChar_isDigit top
      · exact digits c mem
    · rw [padded, Nat.ofDigitChars_cons_digitChar_of_lt_ten top, value]
      have := Nat.div_add_mod n (10 ^ w)
      rw [Nat.pow_succ]
      linarith [Nat.mul_add (10 ^ w) (10 * m) (n / 10 ^ w)]

/-- The id is read back from the name. -/
theorem atoi_padded {id : Nat} (small : id < 2 ^ 31) : (Decimal.atoi (padded 10 id)).bmod (2 ^ 32) = id := by
  obtain ⟨digits, value⟩ := padded_digits (show id < 10 ^ 10 by omega)
  obtain ⟨c, cs, whole⟩ := List.exists_cons_of_ne_nil (l := padded 10 id) (by simp [padded])
  have scanned : Decimal.scanNat (padded 10 id) = some (id, []) := by
    unfold Decimal.scanNat
    rw [List.takeWhile_eq_self_iff.mpr digits, List.dropWhile_eq_nil_iff.mpr digits]
    dsimp only
    rw [value]
    simp [padded]
  unfold Decimal.atoi
  rw [whole, Decimal.scanInt_digit (digits c (by rw [whole]; exact List.mem_cons_self)), ← whole, scanned]
  show (id : Int).bmod (2 ^ 32) = id
  apply Int.bmod_eq_of_le <;> omega

theorem jobName_lt {m n : Nat} (lt : m < n) (fits : n < 10 ^ 10) : jobName m < jobName n := by
  have order := padded_lt lt fits
  unfold jobName
  simpa using order

/-! ## Listing -/

/-- The folder of the processes of a job. -/
def procPath (id : Nat) : ZooPath := kZKPathJobProc :: getZKJobWorkspace id

/-- A job without processes that is not among the last `kJobsNotRemoved` ones. -/
def Finished (zk : ZooTree δ) (ids : List Nat) (id : Nat) : Prop :=
  zk.children (procPath id) = [] ∧ kJobsNotRemoved ≤ ids.countP (id < ·)

instance (zk : ZooTree δ) (ids : List Nat) : DecidablePred (Finished zk ids) :=
  fun id => inferInstanceAs (Decidable (zk.children (procPath id) = [] ∧ kJobsNotRemoved ≤ ids.countP (id < ·)))

/-- The jobs below `/singa/app` are `ids`, in increasing order, and each has its folder of processes. -/
structure Jobs (zk : ZooTree δ) (ids : List Nat) : Prop where
  app : kZKPathApp ∈ zk.paths
  sorted : ids.Pairwise (· < ·)
  digits : ∀ id ∈ ids, id < 10 ^ 10
  children : (zk.children kZKPathApp).Perm (ids.map jobName)
  procs : ∀ id ∈ ids, procPath id ∈ zk.paths

/-- What is said of a job. -/
def info (zk : ZooTree δ) (id : Nat) : JobInfo := ⟨(Decimal.atoi (padded 10 id)).bmod (2 ^ 32), (zk.children (procPath id)).length⟩

variable {zk : ZooTree δ} {ids : List Nat}

theorem jobName_injective {m n : Nat} (hm : m < 10 ^ 10) (hn : n < 10 ^ 10) (same : jobName m = jobName n) : m = n := by
  rcases lt_trichotomy m n with less | equal | less
  · exact absurd same (jobName_lt less hn).ne
  · exact equal
  · exact absurd same (jobName_lt less hm).ne'

/-- The names are sorted as the ids are. -/
theorem sort_names (jobs : Jobs zk ids) {names : List (List Char)} (perm : names.Perm (zk.children kZKPathApp)) :
    names.insertionSort (· ≤ ·) = ids.map jobName := by
  have sorted : (ids.map jobName).Pairwise (· < ·) := by
    rw [List.pairwise_map]
    exact jobs.sorted.imp_of_mem fun _ mem less => jobName_lt less (jobs.digits _ mem)
  exact List.Perm.eq_of_pairwise (fun _ _ _ _ => le_antisymm) (List.pairwise_insertionSort _ names)
    (sorted.imp le_of_lt) ((List.perm_insertionSort _ names).trans (perm.trans jobs.children))

/-- How many jobs come behind one, by its place in the order. -/
theorem countP_after {first rest : List Nat} {id : Nat} (sorted : (first ++ id :: rest).Pairwise (· < ·)) :
    (first ++ id :: rest).countP (id < ·) = rest.length := by
  obtain ⟨-, tail, before⟩ := List.pairwise_append.mp sorted
  obtain ⟨after, -⟩ := List.pairwise_cons.mp tail
  have none_before : first.countP (id < ·) = 0 := by
    rw [List.countP_eq_zero]
    intro m mem
    have := before m mem id List.mem_cons_self
    simp only [decide_eq_true_eq]
    omega
  have all_after : rest.countP (id < ·) = rest.length := by
    rw [List.countP_eq_length]
    exact fun m mem => decide_eq_true (after m mem)
  rw [List.countP_append, List.countP_cons_of_neg (by simp), none_before, all_after, Nat.zero_add]

/-- What is gone when the jobs `done` have been listed. -/
def Gone (zk : ZooTree δ) (ids done : List Nat) (q : ZooPath) : Prop :=
  ∃ id ∈ done, Finished zk ids id ∧ getZKJobWorkspace id <:+ q

instance (zk : ZooTree δ) (ids done : List Nat) : DecidablePred (Gone zk ids done) :=
  fun q => inferInstanceAs (Decidable (∃ id ∈ done, Finished zk ids id ∧ getZKJobWorkspace id <:+ q))

/-- Nothing of a job is gone before its turn. -/
theorem not_gone (jobs : Jobs zk ids) {first rest : List Nat} {id : Nat} (split : ids = first ++ id :: rest) {q : ZooPath}
    (below : getZKJobWorkspace id <:+ q) : ¬ Gone zk ids first q := by
  rintro ⟨other, mem, -, below'⟩
  have member : ∀ m ∈ first ++ [id], m ∈ ids := by
    intro m mem
    rw [split]
    simp only [List.mem_append, List.mem_cons, List.mem_nil_iff, or_false] at mem ⊢
    tauto
  have same := jobName_injective (jobs.digits other (member other (by simp [mem])))
    (jobs.digits id (member id (by simp))) (PathTree.siblings_apart below' below)
  have sorted := jobs.sorted
  rw [split] at sorted
  have := (List.pairwise_append.mp sorted).2.2 other mem id List.mem_cons_self
  omega

/-- One pass: the job is listed as it was at first, and is deleted if it is an old finished one. -/
theorem listJob_ok (server : ZooServer δ) (jobs : Jobs zk ids) {fuel : Nat} (deep : ∀ q ∈ zk.paths, q.length < fuel)
    {first rest : List Nat} {id : Nat} (split : ids = first ++ id :: rest) {zk₁ : ZooTree δ}
    (pruned : PathTree.Pruned (Gone zk ids first) zk zk₁) (infos : List JobInfo) :
    ∃ zk₂, listJob server fuel ids.length infos (jobName id) first.length zk₁ = .ok (infos ++ [info zk id], zk₂) ∧
      PathTree.Pruned (Gone zk ids (first ++ [id])) zk zk₂ := by
  have listed : id ∈ ids := by simp [split]
  have proc_below : getZKJobWorkspace id <:+ procPath id := List.suffix_cons _ _
  have proc : procPath id ∈ zk₁.paths := pruned.mem.mpr ⟨jobs.procs id listed, not_gone jobs split proc_below⟩
  have same : zk₁.children (procPath id) = zk.children (procPath id) :=
    pruned.children fun c _ => not_gone jobs split (proc_below.trans (List.suffix_cons c _))
  have count : (server.order zk₁ (procPath id)).length = (zk.children (procPath id)).length := by
    rw [(server.perm zk₁ (procPath id)).length_eq, same]
  have length : (jobName id).length = 14 := by
    rw [jobName, List.length_append, length_padded]
    rfl
  have jid : (jobName id).drop ((jobName id).length - 10) = padded 10 id := by
    rw [length]
    exact List.drop_left' rfl
  have old : first.length + kJobsNotRemoved < ids.length ↔ kJobsNotRemoved ≤ ids.countP (id < ·) := by
    have sorted := jobs.sorted
    rw [split] at sorted ⊢
    rw [countP_after sorted, List.length_append, List.length_cons]
    omega
  have gone : ∀ q, Gone zk ids first q ∨ Finished zk ids id ∧ getZKJobWorkspace id <:+ q ↔
      Gone zk ids (first ++ [id]) q := by
    intro q
    simp only [Gone, List.mem_append, List.mem_singleton, or_and_right, exists_or, exists_eq_left]
  have listing : listJob server fuel ids.length infos (jobName id) first.length zk₁ =
      ((do
        if (zk.children (procPath id)).length = 0 ∧ first.length + kJobsNotRemoved < ids.length then
          let _ ← cleanPath server fuel (getZKJobWorkspace id) true
        return infos ++ [info zk id]) : ZooProg δ _) zk₁ := by
    apply (ZooProg.bind_ok (getChild_ok server proc)).trans
    rw [if_neg (by omega)]
    dsimp only
    rw [count, jid]
    rfl
  rw [listing]
  by_cases finished : Finished zk ids id
  · rw [if_pos ⟨by rw [finished.1]; rfl, old.mpr finished.2⟩]
    have mem : getZKJobWorkspace id ∈ zk₁.paths := PathTree.above proc_below proc
    have enough : ∀ q ∈ zk₁.paths, getZKJobWorkspace id <:+ q → q.length < (getZKJobWorkspace id).length + fuel := by
      intro q there _
      have := deep q (pruned.mem.mp there).1
      omega
    obtain ⟨zk₂, ran, pruned'⟩ := cleanPath_ok server true mem enough
    refine ⟨zk₂, ZooProg.bind_ok ran, (pruned.trans pruned').congr fun q _ => ?_⟩
    · rw [← gone q]
      simp [Cleaned, finished]
  · rw [if_neg]
    · refine ⟨zk₁, rfl, pruned.congr fun q _ => ?_⟩
      rw [← gone q]
      simp [finished]
    · rintro ⟨empty, late⟩
      exact finished ⟨List.length_eq_zero_iff.mp empty, old.mp late⟩

/-- The passes from the job behind `first` on. -/
theorem passes_ok (server : ZooServer δ) (jobs : Jobs zk ids) {fuel : Nat} (deep : ∀ q ∈ zk.paths, q.length < fuel)
    {first rest : List Nat} (split : ids = first ++ rest) {zk₁ : ZooTree δ}
    (pruned : PathTree.Pruned (Gone zk ids first) zk zk₁) (infos : List JobInfo) :
    ∃ zk₂, (((rest.map jobName).zipIdx first.length).foldlM
        (fun infos (name, i) => listJob server fuel ids.length infos name i) infos : ZooProg δ (List JobInfo)) zk₁ =
      .ok (infos ++ rest.map (info zk), zk₂) ∧ PathTree.Pruned (Gone zk ids ids) zk zk₂ := by
  induction rest generalizing first zk₁ infos with
  | nil =>
    rw [List.append_nil] at split
    subst split
    refine ⟨zk₁, ?_, pruned⟩
    show Except.ok (infos, zk₁) = .ok (infos ++ [].map (info zk), zk₁)
    rw [List.map_nil, List.append_nil]
  | cons id rest ih =>
    obtain ⟨zk₂, ran, pruned₂⟩ := listJob_ok server jobs deep split pruned infos
    obtain ⟨zk₃, ran', pruned₃⟩ := ih (by rw [split]; simp) pruned₂ (infos ++ [info zk id])
    refine ⟨zk₃, ?_, pruned₃⟩
    rw [List.map_cons, List.zipIdx_cons, List.foldlM_cons, ZooProg.bind_ok ran]
    rw [List.length_append, List.length_singleton, List.append_assoc] at ran'
    exact ran'

/-- **Listing jobs** lists every job in the order of the ids with the number of its processes, and deletes the
whole subtrees of the old finished ones and nothing else. -/
theorem listJobs_ok (server : ZooServer δ) (jobs : Jobs zk ids) {fuel : Nat} (deep : ∀ q ∈ zk.paths, q.length < fuel) :
    ∃ infos zk', listJobs server fuel zk = .ok (infos, zk') ∧
      List.Forall₂ (fun id (info : JobInfo) => info.procs = (zk.children (procPath id)).length ∧
        (id < 2 ^ 31 → info.id = id)) ids infos ∧
      zk'.nodes = zk.nodes.filter fun node => ¬ ∃ id ∈ ids, Finished zk ids id ∧ getZKJobWorkspace id <:+ node.path := by
  have names := sort_names jobs (server.perm zk kZKPathApp)
  obtain ⟨zk', ran, pruned⟩ := passes_ok server jobs deep (show ids = [] ++ ids from rfl)
    (.nothing fun q _ => by simp [Gone]) []
  refine ⟨ids.map (info zk), zk', ?_, ?_, pruned⟩
  · unfold listJobs
    rw [ZooProg.bind_ok (getChild_ok server jobs.app)]
    dsimp only
    rw [names, List.length_map]
    exact ran
  · rw [List.forall₂_map_right_iff]
    exact List.forall₂_same.mpr fun id _ => ⟨rfl, atoi_padded⟩

/-- Eleven jobs without processes; the first has a group. -/
def elevenJobs : ZooTree Unit where
  nodes := ([[], ["singa".toList], kZKPathApp, "group".toList :: getZKJobWorkspace 0] ++
    (List.range 11).flatMap fun id => [getZKJobWorkspace id, procPath id]).map fun path => ⟨path, ()⟩
  nodup := by decide +kernel
  closed := by
    have tails : ∀ p ∈ ([[], ["singa".toList], kZKPathApp, "group".toList :: getZKJobWorkspace 0] ++
        (List.range 11).flatMap fun id => [getZKJobWorkspace id, procPath id]),
        p.tail ∈ ([[], ["singa".toList], kZKPathApp, "group".toList :: getZKJobWorkspace 0] ++
        (List.range 11).flatMap fun id => [getZKJobWorkspace id, procPath id]) := by decide +kernel
    intro c q mem
    rw [List.map_map] at mem ⊢
    simpa using tails (c :: q) (by simpa using mem)

/-- All eleven are listed, and the first is deleted with its group. -/
theorem elevenJobs_listed : ∃ infos zk', listJobs ⟨fun zk p => zk.children p, fun _ _ => .refl _⟩ 5 elevenJobs =
      .ok (infos, zk') ∧
    List.Forall₂ (fun id (info : JobInfo) => info.procs = (elevenJobs.children (procPath id)).length ∧
      (id < 2 ^ 31 → info.id = id)) (List.range 11) infos ∧
    zk'.nodes = elevenJobs.nodes.filter fun node => ¬ ∃ id ∈ List.range 11,
      Finished elevenJobs (List.range 11) id ∧ getZKJobWorkspace id <:+ node.path := by
  have jobs : Jobs elevenJobs (List.range 11) :=
    ⟨by decide +kernel, by decide, by decide, by decide +kernel, by decide +kernel⟩
  exact listJobs_ok ⟨fun zk p => zk.children p, fun _ _ => .refl _⟩ jobs (by decide +kernel)

example : Finished elevenJobs (List.range 11) 0 ∧ ¬ Finished elevenJobs (List.range 11) 1 := by decide +kernel

end JobManager
end Singa
