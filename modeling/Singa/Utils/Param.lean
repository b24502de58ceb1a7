import Singa.Base.Memory
import Singa.Utils.Abort

/-!
# `utils/param.h`: parameters and their slice tables

A `Param` holds a data blob and a gradient blob, the table of its slices and the
request bookkeeping of the stub. A blob is the window of `count` floats at its
CPU pointer together with the version it carries; the pointer of a server's blob
may point into the memory of a worker (`set_cpu_data`). On the server side one
slice is a `Param` of its own.
-/

namespace Singa
set_option autoImplicit false

open Memory

variable {α : Type}

/-- `Blob<float>`: `count_`, `version_` and the CPU pointer of its `SyncedMemory`. -/
structure Blob where
  count : Nat
  version : Int
  ptr : Ptr
  deriving DecidableEq, Repr

/-- The fields of `ParamProto` that slices, servers and updaters read. -/
structure ParamProto (α : Type) where
  id : Int
  owner : Int
  learningRateMultiplier : α
  weightDecayMultiplier : α
  deriving DecidableEq, Repr

/-- A default-constructed `ParamProto`. -/
def ParamProto.default [One α] : ParamProto α := ⟨0, -1, 1, 1⟩

structure Param (α : Type) where
  localVersion : Int
  sliceStart : Nat
  numSlices : Nat
  sliceOffset : List Nat
  sliceSize : List Nat
  pendingPut : List Bool
  pendingGet : List Bool
  pendingUpdate : List Bool
  numPendingRequests : Int
  data : Blob
  grad : Blob
  /-- `history_` is never shared, so its values are kept directly. -/
  history : List α
  proto : ParamProto α

namespace Param

def id (p : Param α) : Int := p.proto.id

def owner (p : Param α) : Int := p.proto.owner

/-- `set_id` also makes the parameter its own owner. -/
def setId (p : Param α) (id : Int) : Param α :=
  { p with proto := { p.proto with id := id, owner := id } }

def version (p : Param α) : Int := p.data.version

def setVersion (p : Param α) (v : Int) : Param α := { p with data := { p.data with version := v } }

def setLocalVersion (p : Param α) (v : Int) : Param α := { p with localVersion := v }

/-- `size()`: number of floats. -/
def size (p : Param α) : Nat := p.data.count

/-- `Param()` followed by `Setup(proto, {size})`: fresh zeroed blobs of one dimension. -/
def setup [Zero α] (m : Mem α) (proto : ParamProto α) (size : Nat) : Mem α × Param α :=
  let (data, m) := m.alloc
  let (grad, m) := m.alloc
  (m, { localVersion := -1, sliceStart := 0, numSlices := 0, sliceOffset := [], sliceSize := []
        pendingPut := [], pendingGet := [], pendingUpdate := [], numPendingRequests := 0
        data := ⟨size, -1, data⟩, grad := ⟨size, -1, grad⟩
        history := List.replicate size 0, proto := proto })

/-- The tables after one more slice at `offset`. -/
def pushSlice (p : Param α) (offset size : Nat) : Param α :=
  { p with
    sliceOffset := p.sliceOffset ++ [offset]
    sliceSize := p.sliceSize ++ [size]
    pendingGet := p.pendingGet ++ [false]
    pendingUpdate := p.pendingUpdate ++ [false]
    pendingPut := p.pendingPut ++ [false]
    numSlices := p.numSlices + 1 }

/-- `Param::AddSlice`. -/
def addSlice (p : Param α) (sliceId size : Nat) : Run (Param α) :=
  if 0 < p.sliceSize.length then
    -- must be added in order
    if p.sliceStart + p.numSlices = sliceId then
      .ok (p.pushSlice (p.sliceOffset.getLastD 0 + p.sliceSize.getLastD 0) size)
    else .error .sliceOrder
  else
    .ok ({ p with sliceStart := sliceId }.pushSlice 0 size)

end Param

/-- Offsets of consecutive pieces of the given sizes, the first one at `start`. -/
def offsetsFrom (start : Nat) : List Nat → List Nat
  | [] => []
  | size :: sizes => start :: offsetsFrom (start + size) sizes

/-- **A slice table tiles its parameter**: the offsets are those of consecutive pieces from
0 on, no piece is empty, and together they are the whole parameter. -/
structure Param.Tiled (p : Param α) : Prop where
  count : p.numSlices = p.sliceSize.length
  offsets : p.sliceOffset = offsetsFrom 0 p.sliceSize
  positive : ∀ n ∈ p.sliceSize, 0 < n
  total : p.sliceSize.sum = p.size

/-- The fields of `ClusterProto` that the modelled functions read. -/
structure ClusterProto where
  nworkerGroups : Nat
  nserverGroups : Nat
  nworkersPerGroup : Nat
  nserversPerGroup : Nat
  deriving DecidableEq, Repr

/-- `Cluster::nworker_groups_per_server_group`. -/
def ClusterProto.nworkerGroupsPerServerGroup (c : ClusterProto) : Nat :=
  if c.nserverGroups = 0 ∨ c.nserversPerGroup = 0 then 1
  else c.nworkerGroups / c.nserverGroups

end Singa
