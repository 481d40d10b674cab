import Lodestar.Base.Tally
import Lodestar.StateTransition.EpochProcess
import Lodestar.StateTransition.RewardsSpec

/-!
# The stakes of the epoch process

When the cache agrees with the registry, the stakes `beforeProcessEpoch` adds
up in increments are the spec's total balances.
-/

namespace Lodestar.StateTransition

open Lodestar.Base

variable [Preset] {β : Type} {state : CachedBeaconState β}

theorem getD_effectiveBalancesByIncrements (validators : List Validator) (i : Nat) :
    (effectiveBalancesByIncrements validators).getD i 0
      = Spec.getEffectiveBalance validators i / EFFECTIVE_BALANCE_INCREMENT := by
  unfold effectiveBalancesByIncrements Spec.getEffectiveBalance
  rw [List.getD_eq_getElem?_getD, List.getElem?_map]
  cases validators[i]? with
  | none => simp
  | some validator => rfl

theorem CacheAgrees.increments_mul (h : CacheAgrees state) (i : Nat) :
    Spec.getEffectiveBalance state.validators i / EFFECTIVE_BALANCE_INCREMENT
        * EFFECTIVE_BALANCE_INCREMENT
      = Spec.getEffectiveBalance state.validators i := by
  unfold Spec.getEffectiveBalance
  cases hv : state.validators[i]? with
  | none => simp
  | some validator =>
    show validator.effectiveBalance / _ * _ = validator.effectiveBalance
    rw [h.effectiveBalance hv, Nat.mul_div_cancel _ Preset.EFFECTIVE_BALANCE_INCREMENT_pos]

theorem CacheAgrees.increments_eq (h : CacheAgrees state) {i : Nat}
    (hi : i < state.validators.length) :
    state.epochCtx.effectiveBalanceIncrements.getD i 0
      = Spec.getEffectiveBalance state.validators i / EFFECTIVE_BALANCE_INCREMENT := by
  have hget := List.getElem?_eq_getElem hi
  have heq : Spec.getEffectiveBalance state.validators i
      = state.epochCtx.effectiveBalanceIncrements.getD i 0 * EFFECTIVE_BALANCE_INCREMENT := by
    unfold Spec.getEffectiveBalance
    rw [hget]
    exact h.effectiveBalance hget
  rw [heq, Nat.mul_div_cancel _ Preset.EFFECTIVE_BALANCE_INCREMENT_pos]

theorem CacheAgrees.getTotalBalance_eq (h : CacheAgrees state) (indices : List Nat) :
    Spec.getTotalBalance state.validators indices
      = max 1 (indices.map fun i =>
          (effectiveBalancesByIncrements state.validators).getD i 0).sum
        * EFFECTIVE_BALANCE_INCREMENT := by
  have hsum : (indices.map (Spec.getEffectiveBalance state.validators)).sum
      = (indices.map fun i => (effectiveBalancesByIncrements state.validators).getD i 0).sum
        * EFFECTIVE_BALANCE_INCREMENT := by
    rw [← List.sum_map_mul_right]
    congr 1
    refine List.map_congr_left fun i _ => ?_
    rw [getD_effectiveBalancesByIncrements, h.increments_mul]
  unfold Spec.getTotalBalance
  rw [hsum, ← Nat.mul_max_mul_right, Nat.one_mul]

/-- The stake of the statuses with some markers is the total balance of the validators that have
them. -/
theorem CacheAgrees.stakeWithMarkers_eq (h : CacheAgrees state) {markers : Nat}
    {statuses : List IAttesterStatus} (hlen : statuses.length = state.validators.length) :
    stakeWithMarkers markers statuses (effectiveBalancesByIncrements state.validators)
        * EFFECTIVE_BALANCE_INCREMENT
      = Spec.getTotalBalance state.validators ((List.range state.validators.length).filter
          fun i => statuses[i]?.any fun status => hasMarkers status.flags markers) := by
  unfold stakeWithMarkers
  rw [h.getTotalBalance_eq, ← hlen]
  congr 2
  exact sum_zip_filter (fun status : IAttesterStatus => hasMarkers status.flags markers)
    (by rw [hlen, effectiveBalancesByIncrements, List.length_map])

theorem CacheAgrees.totalActive_eq (h : CacheAgrees state) (epoch : Nat) :
    max 1 (((state.validators.zip (effectiveBalancesByIncrements state.validators)).filter
        fun e => isActiveValidator e.1 epoch).map (·.2)).sum * EFFECTIVE_BALANCE_INCREMENT
      = Spec.getTotalActiveBalance state.validators epoch := by
  unfold Spec.getTotalActiveBalance Spec.getActiveValidatorIndices
  rw [h.getTotalBalance_eq]
  congr 2
  exact sum_zip_filter (fun validator : Validator => isActiveValidator validator epoch)
    (by rw [effectiveBalancesByIncrements, List.length_map])

theorem CacheAgrees.totalActiveStake_eq (hagree : CacheAgrees state) {state₀ : CachedBeaconState β}
    {withAttestations : List IAttesterStatus → Except String (List IAttesterStatus)}
    {process : EpochProcess} (h : beforeProcessEpoch state₀ withAttestations = .ok process)
    (hvalidators : state.validators = state₀.validators)
    (hepochCtx : state.epochCtx = state₀.epochCtx) :
    process.totalActiveStakeByIncrement * EFFECTIVE_BALANCE_INCREMENT
      = Spec.getTotalActiveBalance state.validators (computeEpochAtSlot state.slot) := by
  obtain ⟨-, -, -, htotal, -⟩ := beforeProcessEpoch_ok h
  rw [htotal, ← hagree.totalActive_eq, ← hvalidators, ← hepochCtx, hagree.currentEpoch]

end Lodestar.StateTransition
