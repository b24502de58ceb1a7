import Singa.Trainer.Requests

/-!
# `nworker_groups_per_server_group`: who is served, who initialises

`GenMsgs` divides the number of a worker group by the quotient of the two group
counts to find its server group, and `InitLocalParams` takes the remainder to
find the worker groups that initialise. The quotient is zero where there are
more server groups than worker groups, and too small where there is a rest.
-/

namespace Singa.Trainer
set_option autoImplicit false

/-- Every worker group has a server group, and every server group one worker group that initialises its params. -/
structure Subscribed (t : Trainer) : Prop where
  per : t.cluster.proto.nworkerGroupsPerServerGroup ≠ 0
  served : ∀ src : Nat, src < t.cluster.proto.nworkerGroups →
    0 ≤ t.dstGrp src ∧ t.dstGrp src < t.cluster.proto.nserverGroups
  initialiser : ∀ grp : Nat, grp < t.cluster.proto.nserverGroups → ∃! src : Nat,
    src < t.cluster.proto.nworkerGroups ∧ t.dstGrp src = grp ∧
      src % t.cluster.proto.nworkerGroupsPerServerGroup = 0

theorem dstGrp_natCast (t : Trainer) (src : Nat) :
    t.dstGrp src = (src / t.cluster.proto.nworkerGroupsPerServerGroup : Nat) :=
  (Int.ofNat_tdiv src _).symm

/-- **Every worker group is served and every server group initialised once** exactly when the number of server
groups divides that of the worker groups. -/
theorem subscribed_iff (t : Trainer) (workers : 1 ≤ t.cluster.proto.nworkerGroups)
    (groups : 1 ≤ t.cluster.proto.nserverGroups) (servers : 1 ≤ t.cluster.proto.nserversPerGroup) :
    t.Subscribed ↔ t.cluster.proto.nserverGroups ∣ t.cluster.proto.nworkerGroups := by
  have quotient : t.cluster.proto.nworkerGroupsPerServerGroup =
      t.cluster.proto.nworkerGroups / t.cluster.proto.nserverGroups := by
    unfold ClusterProto.nworkerGroupsPerServerGroup
    rw [if_neg (by omega)]
  constructor
  · intro subscribed
    by_contra rest
    -- the worker group after the last whole share has no server group
    have short : t.cluster.proto.nserverGroups * t.cluster.proto.nworkerGroupsPerServerGroup <
        t.cluster.proto.nworkerGroups := by
      rw [quotient]
      refine lt_of_le_of_ne (Nat.mul_div_le _ _) fun whole => rest ?_
      exact ⟨_, whole.symm⟩
    have served := (subscribed.served _ short).2
    rw [dstGrp_natCast, Nat.mul_div_cancel _ (Nat.pos_of_ne_zero subscribed.per)] at served
    exact lt_irrefl _ served
  · rintro ⟨k, whole⟩
    have per : t.cluster.proto.nworkerGroupsPerServerGroup = k := by
      rw [quotient, whole]
      exact Nat.mul_div_cancel_left k groups
    have pos : 0 < k := by
      apply Nat.pos_of_ne_zero
      rintro rfl
      omega
    refine ⟨by omega, fun src lt => ?_, fun grp lt => ?_⟩
    · rw [dstGrp_natCast, per]
      refine ⟨Int.natCast_nonneg _, ?_⟩
      rw [whole, Nat.mul_comm] at lt
      exact_mod_cast Nat.div_lt_of_lt_mul lt
    · refine ⟨grp * k, ⟨?_, ?_, ?_⟩, ?_⟩
      · rw [whole]
        exact Nat.mul_lt_mul_of_pos_right lt pos
      · rw [dstGrp_natCast, per, Nat.mul_div_cancel grp pos]
      · rw [per, Nat.mul_mod_left]
      · rintro src ⟨-, group, first⟩
        rw [dstGrp_natCast, per] at group
        rw [per] at first
        have same : src / k = grp := by exact_mod_cast group
        rw [← same]
        exact (Nat.div_mul_cancel (Nat.dvd_of_mod_eq_zero first)).symm

/-- A stub in a job with the given numbers of worker and server groups. -/
def ofGroups (nworkerGroups nserverGroups : Nat) : Trainer where
  cluster := {
    proto := { nworkerGroups, nserverGroups, nworkersPerGroup := 1, nserversPerGroup := 1 }
    procsIdOf := fun grp _ => grp }
  procsId := 0
  slice2server := []

theorem fourToTwo_subscribed : (ofGroups 4 2).Subscribed :=
  (subscribed_iff (ofGroups 4 2) (by decide) (by decide) (by decide)).mpr (by decide)

/-- The last of five worker groups is sent to a third server group, and with one worker group the quotient is zero. -/
theorem fiveToTwo_not_subscribed : ¬ (ofGroups 5 2).Subscribed ∧ ¬ (ofGroups 1 2).Subscribed := by
  constructor
  · intro subscribed
    have served := (subscribed.served 4 (by decide)).2
    exact absurd served (by decide)
  · intro subscribed
    exact subscribed.per (by decide)

end Singa.Trainer
