import Mathlib.Tactic

/-!
# Ways a run can stop

Every `CHECK` and `LOG(FATAL)` of the modelled functions has its own
constructor, so that a theorem about an abort says which one it is. A read
through an iterator or index past the end is undefined behaviour in the source;
the model stops there too (`range`). `fuel` is no behaviour of the program: a
loop of the model was given too few passes.
-/

namespace Singa
set_option autoImplicit false

inductive Abort where
  /-- `Slice`: `CHECK_LE(nbox, num)`. -/
  | boxes
  /-- `PartitionSlices`: `CHECK_EQ(slice2box.size(), slices.size())`. -/
  | sliceCount
  /-- `Param::AddSlice`: `CHECK_EQ(slice_start_+num_slices_, slice_id)`. -/
  | sliceOrder
  /-- `CreateGraph`: `LOG(FATAL)` on a partition dimension other than -1, 0 and 1. -/
  | partitionDim
  /-- `CreateGraph`: `CHECK_EQ(srcnodes.size(), nodes.size())`. -/
  | nodeCount
  /-- `Graph::Sort`: `CHECK_EQ(nodes_.size(), n)`. -/
  | sortCount
  /-- `Msg::ParseFormatFrame`: a `CHECK` on the marker or on a tag. -/
  | format
  /-- `Msg::AddFormatFrame`: `CHECK_LE(size, kMaxFrameLen)`. -/
  | frameLength
  /-- `va_arg` with a type that the argument does not have. -/
  | argument
  /-- `Router::Send`: `CHECK_LE(nBufmsg_, bufsize_)`. -/
  | bufferSize
  /-- `CHECK(msg->NextFrame())`. -/
  | nextFrame
  /-- `CHECK_EQ` on the size of a data frame. -/
  | frameSize
  /-- `Msg::AddFrame` with a count of bytes that is negative as an `int`. -/
  | frameBytes
  /-- `Blob::Reshape`: `CHECK(shape[i])`. -/
  | shape
  /-- `Param::Gen*Msg`: `CHECK_LT(idx, num_slices_)`. -/
  | sliceIndex
  /-- `Param::Parse*ResponseMsg`: `CHECK_EQ(pending_*_[slice_idx], true)`. -/
  | pending
  /-- `Trainer::GenMsgs`: `CHECK_GT(entry->num_total, 0)`. -/
  | numTotal
  /-- `Trainer::GenMsgs`: `LOG(FATAL) << "Wrong type"`. -/
  | wrongType
  /-- `Server::HandlePut`: `LOG(FATAL)`, the slice is put more than once. -/
  | putTwice
  /-- `Server::HandleUpdate`: `CHECK_EQ(entry->num_update, entry->num_total)`. -/
  | numUpdate
  /-- `Cluster::has_server`: `CHECK_LT(procs_id_, nprocs_)`. -/
  | procsId
  /-- `Trainer::CreateWorkers`: `CHECK_EQ(procs_size % grp_size, 0)`. -/
  | groupSize
  /-- `NeuralNet::Create`: `CHECK`, the param name is repeated. -/
  | paramName
  /-- `NeuralNet::Create`: `CHECK`, can't find the param to share from. -/
  | shareConf
  /-- `CreateNetFromGraph`: `LOG(FATAL)`, no param with the name in `share_from`. -/
  | shareName
  /-- `Param::ShareFrom`: `CHECK(std::equal(…))` on the shapes. -/
  | shareShape
  /-- `CHECK_EQ` on the numbers of params of two layers. -/
  | paramCount
  /-- `Worker::InitLocalParams`: `CHECK`, two params of one name. -/
  | paramTwice
  /-- `DataShard`: `CHECK(fdat_.is_open())`. -/
  | shardFile
  /-- `DataShard::Insert`: `CHECK_LE(size, capacity_)`. -/
  | tupleSize
  /-- `DataShard::SeekToFirst`: `CHECK_EQ(mode_, kRead)`. -/
  | shardMode
  /-- `ShardDataLayer::ComputeFeature`: `CHECK(shard_->Next(&key, &record))`. -/
  | shardNext
  /-- `ZKClusterRT::GetProcHost`: `CHECK(len)`. -/
  | procHost
  /-- `Worker::ReceiveBlobs`: `CHECK_EQ(AddrGrp(msg->src()), grp_id_)`. -/
  | senderGroup
  /-- `Worker::ReceiveBlobs`: `CHECK(receive_layer->is_bridgelayer())`. -/
  | bridgeLayer
  /-- `Updater::GetLearningRate`: `CHECK_EQ(base, 2 * final_lr)`. -/
  | finalLr
  /-- A `CHECK` on the number of source layers. -/
  | srcLayers
  /-- `Layer::Setup`: `CHECK_GE(npartitions, 1)`. -/
  | npartitions
  /-- `SliceLayer::Setup`: `CHECK_GE(slice_dim_, 0)`. -/
  | sliceDim
  /-- `SliceLayer::Setup`: `CHECK_EQ(slice_num_, dstlayers_.size())`. -/
  | sliceNum
  /-- `SliceLayer::Setup`: `CHECK_EQ(data_.count() % slice_num_, 0)`. -/
  | equalSlicing
  /-- `ConcateLayer::Setup`: `CHECK_EQ(shape[j], srcshape[j])`. -/
  | concateShape
  /-- A `CHECK` on a label. -/
  | label
  /-- `mshadow`: `utils::Assert` on the shapes of tensors. -/
  | tensorShape
  /-- `LabelLayer::ParseRecords`: `CHECK_EQ(rid, blob->shape()[0])`. -/
  | recordCount
  /-- `RGBImageLayer::Setup`: `CHECK_EQ(shape.size(), 4)`. -/
  | imageShape
  /-- `RGBImageLayer::Setup`: `CHECK_EQ(mean_.count(), mean.data_size())`. -/
  | meanSize
  /-- `Blob::ShareData`, `Blob::Swap`: `CHECK_EQ` on the counts. -/
  | blobCount
  /-- `CHECK(data_)`: a blob without memory. -/
  | blobData
  /-- `Blob::Swap`: `CHECK(std::equal(…))` on the shapes. -/
  | swapShape
  /-- `Blob::CopyFrom`: `LOG(FATAL)`, blobs of different sizes. -/
  | copyShape
  /-- `ZKService`: `LOG(FATAL)`, unhandled ZooKeeper error code. -/
  | zkError
  /-- A call of a member of a null pointer. -/
  | nullPointer
  /-- A read through a pointer into an object that is gone. -/
  | dangling
  /-- An `IndexError` of the web server. -/
  | indexError
  /-- A `TypeError` of a script. -/
  | typeError
  /-- An assignment to `__proto__` in a script; what objects inherit then is not modelled. -/
  | prototype
  /-- A sum of two `int`s that is no `int`. -/
  | overflow
  /-- A division or remainder by zero. -/
  | divZero
  /-- `map::at` on a key that is not there. -/
  | missing
  /-- An iterator or index past the end of its vector. -/
  | range
  /-- The model's own loop bound. -/
  | fuel
  deriving DecidableEq, Repr

/-- The result of a modelled function that can abort. -/
abbrev Run := Except Abort

namespace Run

variable {α β : Type}

theorem bind_ok {x : Run α} {f : α → Run β} {b : β} :
    x.bind f = .ok b ↔ ∃ a, x = .ok a ∧ f a = .ok b := by
  cases x <;> simp [Except.bind]

theorem do_ok {x : Run α} {f : α → Run β} {b : β} :
    (x >>= f) = .ok b ↔ ∃ a, x = .ok a ∧ f a = .ok b :=
  bind_ok

/-- Where a sequence of two computations stops. -/
theorem do_error {x : Run α} {f : α → Run β} {e : Abort} :
    (x >>= f) = .error e ↔ x = .error e ∨ ∃ a, x = .ok a ∧ f a = .error e := by
  cases x <;> simp [bind, Except.bind]

theorem exists_of_isOk {r : Run α} (h : r.isOk = true) : ∃ a, r = .ok a := by
  cases r with
  | ok a => exact ⟨a, rfl⟩
  | error e => simp [Except.isOk, Except.toBool] at h

/-- A loop of the source: out of fuel is `Abort.fuel`. -/
def ofLoop (r : Option α) : Run α :=
  match r with
  | some a => .ok a
  | none => .error .fuel

@[simp] theorem ofLoop_eq_ok {r : Option α} {a : α} : ofLoop r = .ok a ↔ r = some a := by
  cases r <;> simp [ofLoop]

/-- The invariant rule of a `for` loop, with the elements done so far and those to come. -/
theorem foldlM_inv_split {f : β → α → Run β} {l : List α} (Inv : List α → β → Prop)
    (pass : ∀ done a rest s s', l = done ++ a :: rest → Inv done s → f s a = .ok s' → Inv (done ++ [a]) s')
    {s s' : β} (inv : Inv [] s) (h : l.foldlM f s = .ok s') : Inv l s' := by
  suffices from_done : ∀ rest done s, l = done ++ rest → Inv done s → rest.foldlM f s = .ok s' → Inv l s' from
    from_done l [] s rfl inv h
  intro rest
  induction rest with
  | nil =>
    intro done s whole inv h
    cases h
    rwa [whole, List.append_nil]
  | cons a rest ih =>
    intro done s whole inv h
    rw [List.foldlM_cons] at h
    obtain ⟨next, first, last⟩ := do_ok.mp h
    exact ih (done ++ [a]) next (by simp [whole]) (pass done a rest s next whole inv first) last

/-- The invariant rule of a `for` loop, with the elements done so far. -/
theorem foldlM_inv {f : β → α → Run β} (Inv : List α → β → Prop)
    (pass : ∀ done a s s', Inv done s → f s a = .ok s' → Inv (done ++ [a]) s')
    {l : List α} {s s' : β} (inv : Inv [] s) (h : l.foldlM f s = .ok s') : Inv l s' :=
  foldlM_inv_split Inv (fun done a _ s s' _ => pass done a s s') inv h

theorem foldlM_cons_ok {f : β → α → Run β} {a : α} {l : List α} {s next s' : β} (first : f s a = .ok next)
    (rest : l.foldlM f next = .ok s') : (a :: l).foldlM f s = .ok s' := by
  rw [List.foldlM_cons]
  exact do_ok.mpr ⟨next, first, rest⟩

/-- A `for` loop ends without an abort when each of its passes does. -/
theorem foldlM_ok {f : β → α → Run β} {l : List α} (pass : ∀ a ∈ l, ∀ s, ∃ s', f s a = .ok s') (s : β) :
    ∃ s', l.foldlM f s = .ok s' := by
  induction l generalizing s with
  | nil => exact ⟨s, rfl⟩
  | cons a l ih =>
    obtain ⟨next, first⟩ := pass a (by simp) s
    obtain ⟨s', rest⟩ := ih (fun b hb => pass b (List.mem_cons_of_mem a hb)) next
    refine ⟨s', ?_⟩
    rw [List.foldlM_cons]
    exact do_ok.mpr ⟨next, first, rest⟩

/-- Every pass of a `for` loop that ended was taken. -/
theorem foldlM_each {f : β → α → Run β} {l : List α} {s s' : β} (h : l.foldlM f s = .ok s') :
    ∀ a ∈ l, ∃ t t', f t a = .ok t' := by
  induction l generalizing s with
  | nil => simp
  | cons a l ih =>
    rw [List.foldlM_cons] at h
    obtain ⟨next, first, rest⟩ := do_ok.mp h
    intro b hb
    rcases List.mem_cons.mp hb with rfl | hb
    · exact ⟨s, next, first⟩
    · exact ih rest b hb

/-- Total correctness of a `for` loop, with the elements done so far. -/
theorem foldlM_prefix {f : β → α → Run β} {l : List α} (Inv : List α → β → Prop)
    (pass : ∀ done a rest s, l = done ++ a :: rest → Inv done s → ∃ s', f s a = .ok s' ∧ Inv (done ++ [a]) s')
    {s : β} (inv : Inv [] s) : ∃ s', l.foldlM f s = .ok s' ∧ Inv l s' := by
  suffices from_done : ∀ rest done s, l = done ++ rest → Inv done s →
      ∃ s', rest.foldlM f s = .ok s' ∧ Inv l s' from from_done l [] s rfl inv
  intro rest
  induction rest with
  | nil =>
    intro done s whole inv
    rw [List.append_nil] at whole
    exact ⟨s, rfl, whole ▸ inv⟩
  | cons a rest ih =>
    intro done s whole inv
    obtain ⟨next, first, inv'⟩ := pass done a rest s whole inv
    obtain ⟨s', run, last⟩ := ih (done ++ [a]) next (by simp [whole]) inv'
    exact ⟨s', foldlM_cons_ok first run, last⟩

/-- Total correctness of a `for` loop. -/
theorem foldlM_total {f : β → α → Run β} (Inv : β → Prop) (pass : ∀ s a, Inv s → ∃ s', f s a = .ok s' ∧ Inv s')
    (l : List α) {s : β} (inv : Inv s) : ∃ s', l.foldlM f s = .ok s' ∧ Inv s' :=
  foldlM_prefix (fun _ => Inv) (fun _ a _ s _ inv => pass s a inv) inv

/-- Nested `for` loops as one loop. -/
theorem foldlM_flatMap_ok {γ : Type} {f : β → α → Run β} {pass : β → γ → Run β} {parts : α → List γ}
    (each : ∀ s a s', f s a = .ok s' → (parts a).foldlM pass s = .ok s') {l : List α} {s s' : β}
    (h : l.foldlM f s = .ok s') : (l.flatMap parts).foldlM pass s = .ok s' := by
  induction l generalizing s with
  | nil => exact h
  | cons a l ih =>
    rw [List.foldlM_cons] at h
    obtain ⟨next, first, rest⟩ := do_ok.mp h
    rw [List.flatMap_cons, List.foldlM_append]
    exact do_ok.mpr ⟨next, each s a next first, ih rest⟩

theorem foldlM_flatten (f : β → α → Run β) (ls : List (List α)) (s : β) :
    ls.flatten.foldlM f s = ls.foldlM (fun s l => l.foldlM f s) s := by
  induction ls generalizing s with
  | nil => rfl
  | cons l ls ih =>
    rw [List.flatten_cons, List.foldlM_append, List.foldlM_cons]
    exact congrArg (Except.bind _) (funext ih)

theorem mapM_pure {f : α → Run β} {h : α → β} {l : List α} (pass : ∀ a ∈ l, f a = .ok (h a)) :
    l.mapM f = .ok (l.map h) := by
  induction l with
  | nil => rfl
  | cons a l ih =>
    rw [List.mapM_cons, pass a List.mem_cons_self, ih fun b hb => pass b (List.mem_cons_of_mem a hb)]
    rfl

/-- Every element of a list that was mapped has its image. -/
theorem mapM_ok {f : α → Run β} {l : List α} {r : List β} (h : l.mapM f = .ok r) :
    (∀ out : α → β, (∀ a ∈ l, ∀ b, f a = .ok b → b = out a) → r = l.map out) ∧ ∀ a ∈ l, ∃ b, f a = .ok b := by
  induction l generalizing r with
  | nil =>
    cases h
    exact ⟨fun _ _ => rfl, by simp⟩
  | cons a l ih =>
    rw [List.mapM_cons] at h
    obtain ⟨b, first, h⟩ := do_ok.mp h
    obtain ⟨bs, rest, h⟩ := do_ok.mp h
    cases h
    obtain ⟨map, each⟩ := ih rest
    refine ⟨fun out pass => ?_, fun c hc => ?_⟩
    · rw [List.map_cons, pass a (by simp) b first, map out fun c hc => pass c (List.mem_cons_of_mem a hc)]
    · rcases List.mem_cons.mp hc with rfl | hc
      · exact ⟨b, first⟩
      · exact each c hc

/-- A loop over all elements, element by element. -/
theorem mapM_forall₂ {f : α → Run β} {l : List α} {r : List β} :
    l.mapM f = .ok r ↔ List.Forall₂ (fun a b => f a = .ok b) l r := by
  induction l generalizing r with
  | nil =>
    rw [List.mapM_nil, List.forall₂_nil_left_iff]
    constructor
    · intro h
      cases h
      rfl
    · rintro rfl
      rfl
  | cons a l ih =>
    rw [List.mapM_cons, List.forall₂_cons_left_iff]
    constructor
    · intro h
      obtain ⟨b, first, h⟩ := do_ok.mp h
      obtain ⟨bs, rest, h⟩ := do_ok.mp h
      cases h
      exact ⟨b, bs, first, ih.mp rest, rfl⟩
    · rintro ⟨b, bs, first, rest, rfl⟩
      exact do_ok.mpr ⟨b, first, do_ok.mpr ⟨bs, ih.mpr rest, rfl⟩⟩

/-- A loop over all elements ends when each of its passes does. -/
theorem mapM_exists {f : α → Run β} {l : List α} {P : α → β → Prop} (pass : ∀ a ∈ l, ∃ b, f a = .ok b ∧ P a b) :
    ∃ r, l.mapM f = .ok r ∧ List.Forall₂ P l r := by
  induction l with
  | nil => exact ⟨[], rfl, .nil⟩
  | cons a l ih =>
    obtain ⟨b, first, good⟩ := pass a List.mem_cons_self
    obtain ⟨bs, rest, all⟩ := ih fun c mem => pass c (List.mem_cons_of_mem a mem)
    refine ⟨b :: bs, ?_, .cons good all⟩
    exact mapM_forall₂.mpr (.cons first (mapM_forall₂.mp rest))

/-- A loop over all elements that stops, stops at one of them. -/
theorem mapM_error {f : α → Run β} {l : List α} {e : Abort} (h : l.mapM f = .error e) : ∃ a ∈ l, f a = .error e := by
  induction l with
  | nil => cases h
  | cons a l ih =>
    rw [List.mapM_cons] at h
    rcases do_error.mp h with first | ⟨b, -, h⟩
    · exact ⟨a, List.mem_cons_self, first⟩
    · rcases do_error.mp h with rest | ⟨bs, -, last⟩
      · obtain ⟨c, mem, stopped⟩ := ih rest
        exact ⟨c, List.mem_cons_of_mem a mem, stopped⟩
      · cases last

/-- A `for` loop without an abort is a fold. -/
theorem foldlM_pure {f : β → α → Run β} {h : β → α → β} {l : List α} (pass : ∀ a ∈ l, ∀ s, f s a = .ok (h s a))
    (s : β) : l.foldlM f s = .ok (l.foldl h s) := by
  induction l generalizing s with
  | nil => rfl
  | cons a l ih =>
    refine foldlM_cons_ok (pass a List.mem_cons_self s) ?_
    exact ih (fun b hb => pass b (List.mem_cons_of_mem a hb)) (h s a)

/-- A `for` loop that never leaves its first state. -/
theorem foldlM_same {f : β → α → Run β} {l : List α} {s : β} (pass : ∀ a ∈ l, f s a = .ok s) : l.foldlM f s = .ok s := by
  induction l with
  | nil => rfl
  | cons a l ih =>
    exact foldlM_cons_ok (pass a List.mem_cons_self) (ih fun b hb => pass b (List.mem_cons_of_mem a hb))

/-- A loop over `0, .., k - 1` whose states are known. -/
theorem foldlM_range {f : β → Nat → Run β} (states : Nat → β) {k : Nat}
    (pass : ∀ i < k, f (states i) i = .ok (states (i + 1))) :
    (List.range k).foldlM f (states 0) = .ok (states k) := by
  induction k with
  | zero => rfl
  | succ k ih =>
    rw [List.range_succ, List.foldlM_append]
    refine do_ok.mpr ⟨states k, ih fun i hi => pass i (by omega), ?_⟩
    rw [List.foldlM_cons]
    exact do_ok.mpr ⟨states (k + 1), pass k (by omega), rfl⟩

end Run
end Singa
