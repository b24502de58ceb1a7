import Mathlib.Data.Char
import Mathlib.Data.List.Lex
import Singa.Base.Rank
import Singa.Utils.Abort
import Singa.Utils.Metric

/-!
# `utils/cluster_rt.cc`: registering a process

The nodes below `/proc-lock` and `/proc` of one job, and the three requests of
`ZKClusterRT::RegistProc`. ZooKeeper numbers the locks with an `int` of its own,
and lists children in any order. The parents exist (`ZKClusterRT::Init`) and a
request that lost its connection is one that has not been made yet.
-/

namespace Singa
set_option autoImplicit false

/-- `kZKBufSize`. -/
def kZKBufSize : Nat := 100

/-- `%0<w>d`, for `n < 10 ^ w`. -/
def padded : Nat → Nat → List Char
  | 0, _ => []
  | w + 1, n => Nat.digitChar (n / 10 ^ w) :: padded w (n % 10 ^ w)

/-- Padded numbers are in the order of the numbers. -/
theorem padded_lt {w m n : Nat} (lt : m < n) (fits : n < 10 ^ w) : padded w m < padded w n := by
  induction w generalizing m n with
  | zero => omega
  | succ w ih =>
    have digits : ∀ b < 10, ∀ a < b, Nat.digitChar a < Nat.digitChar b := by decide
    have pow : 0 < 10 ^ w := by positivity
    have top : n / 10 ^ w < 10 := (Nat.div_lt_iff_lt_mul pow).mpr (by rwa [Nat.mul_comm, ← Nat.pow_succ])
    rw [padded, padded, List.cons_lt_cons_iff]
    rcases (Nat.div_le_div_right (c := 10 ^ w) lt.le).lt_or_eq with less | same
    · exact .inl (digits _ top _ less)
    · refine .inr ⟨by rw [same], ih ?_ (Nat.mod_lt n pow)⟩
      have hm := Nat.div_add_mod m (10 ^ w)
      have hn := Nat.div_add_mod n (10 ^ w)
      rw [same] at hm
      omega

/-! ## Nodes -/

/-- A node below one of the two folders, and the process whose session it belongs to. -/
structure ZNode where
  name : List Char
  val : List Char
  owner : Nat
  deriving DecidableEq, Repr

/-- The folders `/proc-lock` and `/proc` of a job. -/
structure ZooKeeper where
  /-- the number of the next lock -/
  counter : Nat
  locks : List ZNode
  procs : List ZNode
  deriving DecidableEq, Repr

/-- The answers to a request for a node that `ZKService::CreateNode` returns after. -/
inductive ZooCode where
  | ok
  | nodeExists
  deriving DecidableEq, Repr

/-- `ZKService::CreateNode`: an existing node is reported by a warning only. -/
def ZooCode.created : ZooCode → Bool
  | ok => true
  | nodeExists => true

/-- A lock's name: the number that ZooKeeper appends has ten digits. -/
def lockName (n : Nat) : List Char := "lock-".toList ++ padded 10 n

/-- `"/proc-" + to_string(id)`, without the folder. -/
def procName (id : Int) : List Char := "proc-".toList ++ Decimal.print id

theorem lockName_lt {m n : Nat} (lt : m < n) (fits : n < 10 ^ 10) : lockName m < lockName n := by
  have order := padded_lt lt fits
  unfold lockName
  simpa using order

namespace ZooKeeper

variable (zk : ZooKeeper)

/-- Numbers are given out while they are `int`s. -/
def maxCounter : Nat := 2 ^ 31

/-- `zoo_create` with `ZOO_EPHEMERAL | ZOO_SEQUENCE`. -/
def createLock (owner : Nat) : ZooKeeper :=
  { zk with counter := zk.counter + 1, locks := zk.locks ++ [⟨lockName zk.counter, [], owner⟩] }

/-- `zoo_create` with `ZOO_EPHEMERAL`. -/
def createProc (name val : List Char) (owner : Nat) : ZooKeeper × ZooCode :=
  if name ∈ zk.procs.map ZNode.name then (zk, .nodeExists)
  else ({ zk with procs := zk.procs ++ [⟨name, val, owner⟩] }, .ok)

/-- The end of a session. -/
def closeSession (owner : Nat) : ZooKeeper :=
  { zk with locks := zk.locks.filter (·.owner ≠ owner), procs := zk.procs.filter (·.owner ≠ owner) }

/-- `ZKService::GetNode`: what `zoo_get` read is ended by a character behind it. -/
def getNode (name : List Char) : Run (Option (List Char)) :=
  match zk.procs.find? (·.name == name) with
  | none => .ok none
  | some node => if node.val.length < kZKBufSize then .ok (some node.val) else .error .range

end ZooKeeper

/-! ## `RegistProc` and `GetProcHost` -/

/-- `proc_lock_path_`. -/
def procLockPath (job : Nat) : List Char := "/singa/app/job-".toList ++ padded 10 job ++ "/proc-lock".toList

/-- The search for the own lock `buf` among the children `vt`; -1 if it is not there. -/
def ownPosition (job : Nat) (buf : List Char) (vt : List (List Char)) : Int :=
  match (vt.insertionSort (· ≤ ·)).findIdx? fun child => procLockPath job ++ '/' :: child == buf with
  | some i => i
  | none => -1

/-- The loop of `GetProcHost` from `len` on. -/
def lastBar (val : List Char) : Nat → Nat
  | 0 => 0
  | len + 1 => if val[len + 1]? = some '|' then len + 1 else lastBar val len

/-- `ZKClusterRT::GetProcHost`. -/
def getProcHost (zk : ZooKeeper) (procId : Int) : Run (List Char) := do
  let val ← zk.getNode (procName procId)
  match val with
  | none => .ok []
  | some [] => .error .range
  | some (c :: cs) =>
    let len := lastBar (c :: cs) cs.length
    if len = 0 then .error .procHost else .ok ((c :: cs).take len)

/-- What `RegistProc` puts into its node. -/
def procContent (hostAddr : List Char) (pid : Int) : List Char := hostAddr ++ '|' :: Decimal.print pid

/-- A process that registers: its content fits into the buffer it is read with. -/
structure Identity where
  hostAddr : List Char
  pid : Int
  nonempty : hostAddr ≠ []
  fits : (procContent hostAddr pid).length < kZKBufSize

def Identity.content (who : Identity) : List Char := procContent who.hostAddr who.pid

/-- `inet_ntoa`. -/
def ipChars (a b c d : Fin 256) : List Char :=
  Nat.toDigits 10 a ++ '.' :: Nat.toDigits 10 b ++ '.' :: Nat.toDigits 10 c ++ '.' :: Nat.toDigits 10 d

/-- The endpoint that `Trainer::Start` registers, and the pid. -/
def Identity.ofEndpoint (a b c d : Fin 256) (port : Fin 65536) (pid : Fin (2 ^ 31)) : Identity where
  hostAddr := ipChars a b c d ++ ':' :: Nat.toDigits 10 port
  pid := pid
  nonempty := by simp
  fits := by
    have octet (n : Fin 256) : (Nat.toDigits 10 n).length ≤ 3 :=
      (Nat.length_toDigits_le_iff (by decide) (by decide)).mpr (by omega)
    have hport : (Nat.toDigits 10 port).length ≤ 5 :=
      (Nat.length_toDigits_le_iff (by decide) (by decide)).mpr (by omega)
    have hpid : (Decimal.print pid).length ≤ 10 := by
      rw [Decimal.print, if_neg (by omega)]
      exact (Nat.length_toDigits_le_iff (by decide) (by decide)).mpr (by omega)
    have ha := octet a
    have hb := octet b
    have hc := octet c
    have hd := octet d
    simp only [procContent, ipChars, List.length_append, List.length_cons, kZKBufSize]
    omega

theorem print_bar (i : Int) : '|' ∉ Decimal.print i := by
  intro bar
  have ascii := Decimal.print_ascii bar
  revert ascii
  decide

theorem procName_injective : Function.Injective procName := by
  intro i j same
  exact Decimal.print_injective (List.append_cancel_left same)

/-- A process finds its lock at the rank of its name, in whatever order the children are listed. -/
theorem ownPosition_rank {job : Nat} {names vt : List (List Char)} {name : List Char} (perm : vt.Perm names)
    (sorted : names.Pairwise (· < ·)) (mem : name ∈ names) :
    ownPosition job (procLockPath job ++ '/' :: name) vt = rank names name := by
  unfold ownPosition
  rw [findIdx?_insertionSort (a := name) (fun child => by simp) perm sorted mem]

/-- The search from the end stops at the bar in front of the pid. -/
theorem lastBar_content {host tail : List Char} (apart : '|' ∉ tail) (len : Nat) (from_tail : host.length ≤ len)
    (to_end : len ≤ host.length + tail.length) (nonempty : host ≠ []) :
    lastBar (host ++ '|' :: tail) len = host.length := by
  induction len with
  | zero => exact absurd (List.length_eq_zero_iff.mp (by omega)) nonempty
  | succ len ih =>
    rw [lastBar]
    by_cases here : host.length = len + 1
    · rw [if_pos, here]
      rw [← here]
      simp
    · rw [if_neg, ih (by omega) (by omega)]
      rw [List.getElem?_append_right (by omega)]
      obtain ⟨k, hk⟩ : ∃ k, len + 1 - host.length = k + 1 := ⟨len - host.length, by omega⟩
      rw [hk, List.getElem?_cons_succ]
      exact fun bar => apart (List.mem_of_getElem? bar)

/-- `GetProcHost` of a node with a content of `RegistProc`. -/
theorem getProcHost_content {zk : ZooKeeper} {id : Int} {who : Identity} {owner : Nat}
    (found : zk.procs.find? (·.name == procName id) = some ⟨procName id, who.content, owner⟩) :
    getProcHost zk id = .ok who.hostAddr := by
  have read : zk.getNode (procName id) = .ok (some who.content) := by
    unfold ZooKeeper.getNode
    rw [found]
    exact if_pos who.fits
  obtain ⟨c, cs, whole⟩ : ∃ c cs, who.content = c :: cs := by
    unfold Identity.content procContent
    exact List.exists_cons_of_ne_nil (by simp)
  have size : cs.length = who.hostAddr.length + (Decimal.print who.pid).length := by
    have := congrArg List.length whole
    simp only [Identity.content, procContent, List.length_append, List.length_cons] at this
    omega
  have stop : lastBar (c :: cs) cs.length = who.hostAddr.length := by
    rw [← whole, Identity.content, procContent]
    exact lastBar_content (print_bar who.pid) cs.length (by omega) (by omega) who.nonempty
  have some_host : who.hostAddr.length ≠ 0 := fun empty => who.nonempty (List.length_eq_zero_iff.mp empty)
  unfold getProcHost
  rw [read, whole]
  refine Run.do_ok.mpr ⟨_, rfl, ?_⟩
  dsimp only
  rw [stop, if_neg some_host, ← whole, Identity.content, procContent, List.take_left]

end Singa
