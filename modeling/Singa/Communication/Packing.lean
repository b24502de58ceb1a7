import Singa.Utils.Cluster

/-!
# `communication/msg.h`, `utils/param.h`: ids packed into an `int`

An address has eight bits for a worker, server or process and the sixteen above
them for the group; a target has sixteen for a slice and the upper half for a
param. Nothing is checked when they are packed. Shifts of negative numbers are
those of two's complement.
-/

namespace Singa
set_option autoImplicit false

/-- `Addr(grp, id_or_proc, type)`. -/
def addr (grp idOrProc : Int) (type : EntityType) : BitVec 32 :=
  (BitVec.ofInt 32 grp <<< 16) ||| (BitVec.ofInt 32 idOrProc <<< 8) ||| BitVec.ofNat 32 type.number

/-- `AddrGrp`. -/
def addrGrp (addr : BitVec 32) : Int := (addr.sshiftRight 16).toInt

/-- `AddrID`. -/
def addrID (addr : BitVec 32) : Int := (addr.sshiftRight 8 &&& BitVec.ofNat 32 (2 ^ 8 - 1)).toInt

/-- `AddrProc`. -/
def addrProc (addr : BitVec 32) : Int := addrID addr

/-- `AddrType`. -/
def addrType (addr : BitVec 32) : Int := (addr &&& BitVec.ofNat 32 (2 ^ 8 - 1)).toInt

/-- `ParamTrgt(param_id, slice_id)`. -/
def paramTrgt (paramId sliceId : Int) : BitVec 32 := (BitVec.ofInt 32 paramId <<< 16) ||| BitVec.ofInt 32 sliceId

/-- `ParamID`. -/
def paramID (paramTrgt : BitVec 32) : Int := (paramTrgt.sshiftRight 16).toInt

/-- `SliceID`. -/
def sliceID (paramTrgt : BitVec 32) : Int := (paramTrgt &&& BitVec.ofNat 32 (2 ^ 16 - 1)).toInt

/-- `src_` and `dst_` of a `Msg`. -/
structure Header where
  src : BitVec 32
  dst : BitVec 32

/-- `Msg::SwapAddr`. -/
def Header.swapAddr (m : Header) : Header := ⟨m.dst, m.src⟩

/-! ## Words as numbers -/

theorem toNat_addr {grp id : Nat} (group : grp < 2 ^ 15) (small : id < 2 ^ 8) (type : EntityType) :
    (addr grp id type).toNat = grp * 2 ^ 16 + (id * 2 ^ 8 + type.number) := by
  have number : type.number < 2 ^ 8 := by cases type <;> decide
  have low : id * 2 ^ 8 + type.number < 2 ^ 16 := by omega
  have inner : id <<< 8 ||| type.number = id * 2 ^ 8 + type.number := by
    rw [← Nat.shiftLeft_add_eq_or_of_lt number, Nat.shiftLeft_eq]
  have outer : grp <<< 16 ||| (id * 2 ^ 8 + type.number) = grp * 2 ^ 16 + (id * 2 ^ 8 + type.number) := by
    rw [← Nat.shiftLeft_add_eq_or_of_lt low, Nat.shiftLeft_eq]
  have shifted : grp <<< 16 < 2 ^ 32 ∧ id <<< 8 < 2 ^ 32 := by
    rw [Nat.shiftLeft_eq, Nat.shiftLeft_eq]
    omega
  rw [addr, BitVec.ofInt_natCast, BitVec.ofInt_natCast]
  simp only [BitVec.toNat_or, BitVec.toNat_shiftLeft, BitVec.toNat_ofNat]
  rw [Nat.mod_eq_of_lt (show grp < 2 ^ 32 by omega), Nat.mod_eq_of_lt (show id < 2 ^ 32 by omega),
    Nat.mod_eq_of_lt (show type.number < 2 ^ 32 by omega), Nat.mod_eq_of_lt shifted.1, Nat.mod_eq_of_lt shifted.2,
    Nat.or_assoc, inner, outer]

theorem toNat_paramTrgt {param slice : Nat} (owner : param < 2 ^ 15) (small : slice < 2 ^ 16) :
    (paramTrgt param slice).toNat = param * 2 ^ 16 + slice := by
  have outer : param <<< 16 ||| slice = param * 2 ^ 16 + slice := by
    rw [← Nat.shiftLeft_add_eq_or_of_lt small, Nat.shiftLeft_eq]
  have shifted : param <<< 16 < 2 ^ 32 := by
    rw [Nat.shiftLeft_eq]
    omega
  rw [paramTrgt, BitVec.ofInt_natCast, BitVec.ofInt_natCast]
  simp only [BitVec.toNat_or, BitVec.toNat_shiftLeft, BitVec.toNat_ofNat]
  rw [Nat.mod_eq_of_lt (show param < 2 ^ 32 by omega), Nat.mod_eq_of_lt (show slice < 2 ^ 32 by omega),
    Nat.mod_eq_of_lt shifted, outer]

/-- The upper bits of a word that is not negative. -/
theorem toInt_sshiftRight {x : BitVec 32} (positive : x.toNat < 2 ^ 31) (n : Nat) :
    (x.sshiftRight n).toInt = (x.toNat / 2 ^ n : Nat) := by
  have msb : x.msb = false := by
    rw [BitVec.msb_eq_decide]
    exact decide_eq_false (by omega)
  have below : x.toNat / 2 ^ n < 2 ^ 31 := lt_of_le_of_lt (Nat.div_le_self _ _) positive
  rw [BitVec.sshiftRight_eq_of_msb_false msb, BitVec.toInt_eq_toNat_of_lt]
  · rw [BitVec.toNat_ushiftRight, Nat.shiftRight_eq_div_pow]
  · rw [BitVec.toNat_ushiftRight, Nat.shiftRight_eq_div_pow]
    omega

/-- The lower bits of a word. -/
theorem toInt_mask (x : BitVec 32) {n : Nat} (few : n < 31) :
    (x &&& BitVec.ofNat 32 (2 ^ n - 1)).toInt = (x.toNat % 2 ^ n : Nat) := by
  have two : 2 ^ n < 2 ^ 31 := Nat.pow_lt_pow_right (by decide) few
  have pos : 0 < 2 ^ n := Nat.two_pow_pos n
  have mask : (x &&& BitVec.ofNat 32 (2 ^ n - 1)).toNat = x.toNat % 2 ^ n := by
    rw [BitVec.toNat_and, BitVec.toNat_ofNat, Nat.mod_eq_of_lt (a := 2 ^ n - 1) (by omega),
      Nat.and_two_pow_sub_one_eq_mod]
  have below := Nat.mod_lt x.toNat pos
  rw [BitVec.toInt_eq_toNat_of_lt, mask]
  rw [mask]
  omega

/-! ## What is unpacked -/

/-- An address gives back what was packed. -/
structure Unpacks (grp id : Int) (type : EntityType) : Prop where
  group : addrGrp (addr grp id type) = grp
  entity : addrID (addr grp id type) = id
  kind : addrType (addr grp id type) = type.number

/-- Eight bits are enough for an id exactly when it is below 256. -/
theorem unpacks_iff {grp : Nat} (group : grp < 2 ^ 15) (id : Nat) (type : EntityType) :
    Unpacks grp id type ↔ id < 2 ^ 8 := by
  constructor
  · intro unpacks
    have same := unpacks.entity
    rw [addrID, toInt_mask _ (by decide)] at same
    have below := Nat.mod_lt ((addr grp id type).sshiftRight 8).toNat (show 0 < 2 ^ 8 by decide)
    omega
  · intro small
    have number : type.number < 2 ^ 8 := by cases type <;> decide
    have word := toNat_addr group small type
    have positive : (addr grp id type).toNat < 2 ^ 31 := by omega
    refine ⟨?_, ?_, ?_⟩
    · rw [addrGrp, toInt_sshiftRight positive, word]
      omega
    · have shifted : ((addr grp id type).sshiftRight 8).toNat = grp * 2 ^ 8 + id := by
        have upper := toInt_sshiftRight positive 8
        have msb : (addr grp id type).msb = false := by
          rw [BitVec.msb_eq_decide]
          exact decide_eq_false (by omega)
        rw [BitVec.sshiftRight_eq_of_msb_false msb, BitVec.toNat_ushiftRight, Nat.shiftRight_eq_div_pow, word]
        omega
      rw [addrID, toInt_mask _ (by decide), shifted]
      omega
    · rw [addrType, toInt_mask _ (by decide), word]
      omega

/-- The halves of a target are enough exactly for a param below 2¹⁵ and a slice below 2¹⁶. -/
theorem paramTrgt_iff (param slice : Nat) :
    paramID (paramTrgt param slice) = param ∧ sliceID (paramTrgt param slice) = slice ↔
      param < 2 ^ 15 ∧ slice < 2 ^ 16 := by
  constructor
  · rintro ⟨owner, index⟩
    constructor
    · have high : ((paramTrgt param slice).sshiftRight 16).toInt < 2 ^ 15 := by
        rw [BitVec.toInt_sshiftRight, Int.shiftRight_eq_div_pow]
        have := (paramTrgt param slice).toInt_lt
        omega
      rw [paramID] at owner
      omega
    · rw [sliceID, toInt_mask _ (by decide)] at index
      have below := Nat.mod_lt (paramTrgt param slice).toNat (show 0 < 2 ^ 16 by decide)
      omega
  · rintro ⟨owner, index⟩
    have word := toNat_paramTrgt owner index
    constructor
    · rw [paramID, toInt_sshiftRight (by omega), word]
      omega
    · rw [sliceID, toInt_mask _ (by decide), word]
      omega

/-- Both unpack when the numbers are small enough. -/
theorem unpacks_of_small {grp id : Int} (group : 0 ≤ grp ∧ grp < 2 ^ 15) (small : 0 ≤ id ∧ id < 2 ^ 8)
    (type : EntityType) : Unpacks grp id type := by
  lift grp to Nat using group.1
  lift id to Nat using small.1
  exact (unpacks_iff (by omega) id type).mpr (by omega)

theorem paramTrgt_of_small {param slice : Int} (owner : 0 ≤ param ∧ param < 2 ^ 15) (index : 0 ≤ slice ∧ slice < 2 ^ 16) :
    paramID (paramTrgt param slice) = param ∧ sliceID (paramTrgt param slice) = slice := by
  lift param to Nat using owner.1
  lift slice to Nat using index.1
  exact (paramTrgt_iff param slice).mpr ⟨by omega, by omega⟩

/-- The address that stands for the stub of every process. -/
def anyStub : BitVec 32 := addr (-1) (-1) .kStub

theorem anyStub_unpacks : addrGrp anyStub = -1 ∧ addrType anyStub = EntityType.kStub.number := by decide

/-- The header of a message gives back what was packed into it; of the address of any stub the id is not read. -/
structure Msg.Survives {α : Type} (msg : Msg α) : Prop where
  src : Unpacks msg.src.grp msg.src.idOrProc msg.src.type
  dst : Unpacks msg.dst.grp msg.dst.idOrProc msg.dst.type ∨ msg.dst = ⟨-1, -1, .kStub⟩
  target : paramID (paramTrgt msg.paramId msg.sliceId) = msg.paramId ∧
    sliceID (paramTrgt msg.paramId msg.sliceId) = msg.sliceId

/-! ## The ids of a job -/

namespace ClusterConf

/-- The addresses in messages: workers and servers by their id, the stubs of processes with workers by the
id of the process. -/
def HasAddr (c : ClusterConf) (grp id : Nat) : EntityType → Prop
  | .kStub => grp < c.nworkerGroups ∧ id < c.nworkerProcs
  | type => c.IsEntity grp id type

/-- All ids of a job with `nparams` params and `nslices` slices survive packing. -/
structure IdsSurvive (c : ClusterConf) (nparams nslices : Nat) : Prop where
  unpacks : ∀ grp id type, c.HasAddr grp id type → Unpacks grp id type
  anyStub : addrGrp anyStub = -1 ∧ addrType anyStub = EntityType.kStub.number
  targets : ∀ owner < nparams, ∀ slice < nslices,
    paramID (paramTrgt owner slice) = owner ∧ sliceID (paramTrgt owner slice) = slice
  apart : ∀ grp id type grp' id' type', c.HasAddr grp id type → c.HasAddr grp' id' type' →
    addr grp id type = addr grp' id' type' → grp = grp' ∧ id = id' ∧ type = type'
  notAnyStub : ∀ grp id type, c.HasAddr grp id type → addr grp id type ≠ Singa.anyStub
  responses : ∀ grp procs, c.HasAddr grp procs .kStub → ∀ request : Header, request.src = addr grp procs .kStub →
    addrGrp request.swapAddr.dst = grp ∧ addrProc request.swapAddr.dst = procs

/-- Few enough workers, processes, servers, params and slices. -/
structure FewIds (c : ClusterConf) (nparams nslices : Nat) : Prop where
  workers : 0 < c.nworkerGroups → c.nworkersPerGroup ≤ 2 ^ 8 ∧ c.nworkerProcs ≤ 2 ^ 8
  servers : 0 < c.nserverGroups → c.nserversPerGroup ≤ 2 ^ 8
  params : 0 < nslices → nparams ≤ 2 ^ 15
  slices : 0 < nparams → nslices ≤ 2 ^ 16

variable {c : ClusterConf} {grp id : Nat} {type : EntityType}

theorem number_inj {type type' : EntityType} (h : type.number = type'.number) : type = type' := by
  cases type <;> cases type' <;> first | rfl | exact absurd h (by decide)

/-- The group of an address is one of the job. -/
theorem HasAddr.group (h : c.HasAddr grp id type) : grp < max c.nworkerGroups c.nserverGroups := by
  cases type with
  | kWorkerParam | kWorkerLayer | kStub => exact lt_max_of_lt_left h.1
  | kServer => exact lt_max_of_lt_right h.1
  | kRuntime => exact h.elim

theorem HasAddr.small {nparams nslices : Nat} (few : c.FewIds nparams nslices) (h : c.HasAddr grp id type) :
    id < 2 ^ 8 := by
  cases type with
  | kWorkerParam | kWorkerLayer => exact lt_of_lt_of_le h.2 (few.workers (by have := h.1; omega)).1
  | kStub => exact lt_of_lt_of_le h.2 (few.workers (by have := h.1; omega)).2
  | kServer => exact lt_of_lt_of_le h.2 (few.servers (by have := h.1; omega))
  | kRuntime => exact h.elim

/-- **Ids survive packing** exactly when every group has at most 256 workers and servers, at most 256 processes
have workers, and there are at most 2¹⁵ params and 2¹⁶ slices. -/
theorem idsSurvive_iff (c : ClusterConf) (nparams nslices : Nat) (workers : c.nworkerGroups ≤ 2 ^ 15)
    (servers : c.nserverGroups ≤ 2 ^ 15) : c.IdsSurvive nparams nslices ↔ c.FewIds nparams nslices := by
  have group {grp id : Nat} {type : EntityType} (h : c.HasAddr grp id type) : grp < 2 ^ 15 :=
    lt_of_lt_of_le h.group (max_le workers servers)
  constructor
  · intro survive
    -- the largest id of a kind is one that has to be unpacked
    have below (type : EntityType) {count : Nat} (all : ∀ id < count, c.HasAddr 0 id type) : count ≤ 2 ^ 8 := by
      by_contra more
      have here := all (2 ^ 8) (by omega)
      exact absurd ((unpacks_iff (group here) (2 ^ 8) type).mp (survive.unpacks _ _ _ here)) (by decide)
    refine ⟨fun some => ⟨?_, ?_⟩, fun some => ?_, fun some => ?_, fun some => ?_⟩
    · exact below .kWorkerParam fun id lt => ⟨some, lt⟩
    · exact below .kStub fun id lt => ⟨some, lt⟩
    · exact below .kServer fun id lt => ⟨some, lt⟩
    · by_contra more
      have owner := (paramTrgt_iff _ _).mp (survive.targets (2 ^ 15) (by omega) 0 some)
      omega
    · by_contra more
      have index := (paramTrgt_iff _ _).mp (survive.targets 0 some (2 ^ 16) (by omega))
      omega
  · intro few
    have unpacks (grp id : Nat) (type : EntityType) (h : c.HasAddr grp id type) : Unpacks grp id type :=
      (unpacks_iff (group h) id type).mpr (h.small few)
    refine ⟨unpacks, anyStub_unpacks, ?_, ?_, ?_, ?_⟩
    · intro owner below slice index
      have params := few.params (by omega)
      have slices := few.slices (by omega)
      exact (paramTrgt_iff owner slice).mpr ⟨by omega, by omega⟩
    · intro grp id type grp' id' type' h h' same
      have left := unpacks grp id type h
      have right := unpacks grp' id' type' h'
      have groups := left.group.symm.trans ((congrArg addrGrp same).trans right.group)
      have ids := left.entity.symm.trans ((congrArg addrID same).trans right.entity)
      have kinds := left.kind.symm.trans ((congrArg addrType same).trans right.kind)
      exact ⟨by exact_mod_cast groups, by exact_mod_cast ids, number_inj (by exact_mod_cast kinds)⟩
    · intro grp id type h same
      have group := (unpacks grp id type h).group
      rw [same, anyStub_unpacks.1] at group
      omega
    · intro grp procs h request src
      have back := unpacks grp procs .kStub h
      rw [Header.swapAddr, src]
      exact ⟨back.group, back.entity⟩

theorem twoByTwo_idsSurvive : twoByTwo.IdsSurvive 4 8 := by
  refine (idsSurvive_iff twoByTwo 4 8 (by decide) (by decide)).mpr ⟨?_, ?_, ?_, ?_⟩
  · exact fun _ => ⟨by decide, by decide⟩
  · exact fun _ => by decide
  · exact fun _ => by decide
  · exact fun _ => by decide

/-- Two groups of 257 servers. -/
def manyServers : ClusterConf :=
  { twoByTwo with nserverGroups := 2, nserversPerGroup := 257, serversPerGroup_pos := by decide }

/-- The last server of the first group has the address of the first server of the second group. -/
theorem manyServers_not_survive : addr 0 256 .kServer = addr 1 0 .kServer ∧ ¬ manyServers.IdsSurvive 4 8 := by
  have same : addr 0 256 .kServer = addr 1 0 .kServer := by decide
  refine ⟨same, fun survive => ?_⟩
  have groups := (survive.apart 0 256 .kServer 1 0 .kServer ⟨by decide, by decide⟩ ⟨by decide, by decide⟩ same).1
  exact absurd groups (by decide)

end ClusterConf
end Singa
