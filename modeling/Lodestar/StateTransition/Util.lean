import Mathlib.Data.Rat.Floor
import Mathlib.Tactic
import Lodestar.Params
import Lodestar.Types

/-!
# Numbers, epochs, slots and validators

`util/math.ts`, `util/epoch.ts`, `util/slot.ts` and `util/validator.ts`, with the parts of
`phase0.Validator` and of the state that the epoch cache and the epoch transition read and write.
-/

namespace Lodestar.StateTransition

/-! ## Integer square roots

`intSqrt` and `bigIntSqrt` are Newton's iteration with an exact integer division, which gives the
integer square root; the rewards of both forks are built on it. -/

/-- The loop of `bigIntSqrt`. -/
def bigIntSqrtLoop (n x y : Nat) : Nat :=
  if y < x then bigIntSqrtLoop n y ((y + n / y) / 2) else x
termination_by x

def bigIntSqrt (n : Nat) : Nat :=
  bigIntSqrtLoop n n ((n + 1) / 2)

theorem sqrt_le_step {n x : Nat} (hx : 0 < x) : Nat.sqrt n ≤ (x + n / x) / 2 := by
  have hsq := Nat.sqrt_le n
  rw [Nat.le_div_iff_mul_le (by decide)]
  suffices hdiv : 2 * Nat.sqrt n - x ≤ n / x by omega
  rw [Nat.le_div_iff_mul_le hx]
  refine le_trans ?_ hsq
  rcases Nat.le_total (2 * Nat.sqrt n) x with hle | hle
  · rw [Nat.sub_eq_zero_of_le hle, Nat.zero_mul]
    exact Nat.zero_le _
  · -- `d * x ≤ r * r` where `2 * r = d + x`
    zify [hle]
    nlinarith [sq_nonneg ((Nat.sqrt n : Int) - x)]

theorem bigIntSqrtLoop_eq {n x : Nat} (hx : 0 < x) (hle : Nat.sqrt n ≤ x) :
    bigIntSqrtLoop n x ((x + n / x) / 2) = Nat.sqrt n := by
  induction x using Nat.strongRecOn with
  | ind x ih =>
    rw [bigIntSqrtLoop]
    by_cases hlt : (x + n / x) / 2 < x
    · rw [if_pos hlt]
      rcases Nat.eq_zero_or_pos ((x + n / x) / 2) with hzero | hpos
      · have hroot : Nat.sqrt n = 0 := Nat.le_zero.mp (hzero ▸ sqrt_le_step hx)
        rw [hzero, bigIntSqrtLoop, if_neg (Nat.not_lt_zero _), hroot]
      · exact ih _ hlt hpos (sqrt_le_step hx)
    · rw [if_neg hlt]
      have hdiv : x ≤ n / x := by omega
      have hsq : x * x ≤ n := (Nat.le_div_iff_mul_le hx).mp hdiv
      exact le_antisymm (Nat.le_sqrt.mpr hsq) hle

theorem bigIntSqrt_eq_sqrt (n : Nat) : bigIntSqrt n = Nat.sqrt n := by
  rcases Nat.eq_zero_or_pos n with rfl | hpos
  · rw [bigIntSqrt, bigIntSqrtLoop]
    simp
  · have hfirst : (n + 1) / 2 = (n + n / n) / 2 := by rw [Nat.div_self hpos]
    rw [bigIntSqrt, hfirst]
    exact bigIntSqrtLoop_eq hpos (Nat.sqrt_le_self n)

/-- `intSqrt`, the iteration of `bigIntSqrt`. -/
def intSqrt (n : Nat) : Nat :=
  bigIntSqrtLoop n n ((n + 1) / 2)

/-- Both roots are the greatest number whose square is no more. -/
theorem sqrt_isGreatest :
    (∀ n : Nat, IsGreatest {r : Nat | r * r ≤ n} (intSqrt n)) ∧
      ∀ n : Nat, IsGreatest {r : Nat | r * r ≤ n} (bigIntSqrt n) := by
  have hbig : ∀ n : Nat, IsGreatest {r : Nat | r * r ≤ n} (bigIntSqrt n) := by
    intro n
    rw [bigIntSqrt_eq_sqrt]
    exact ⟨Nat.sqrt_le n, fun r hr => Nat.le_sqrt.mpr hr⟩
  exact ⟨fun n => hbig n, hbig⟩

/-! ## The current slot

`getCurrentSlot`, on times of `Date.now()` in milliseconds. Before genesis slots and epochs are
negative. -/

section

section

variable (config : ChainConfig) (genesisTime now : Int)

/-- `getSlotsSinceGenesis`, before it is rounded. -/
def slotsSinceGenesis : Rat :=
  let diffInSeconds : Rat := (now : Rat) / 1000 - genesisTime
  diffInSeconds / config.SECONDS_PER_SLOT

def getCurrentSlot : Int :=
  GENESIS_SLOT + ⌊slotsSinceGenesis config genesisTime now⌋

end

/-- `computeEpochAtSlot`, for slots before genesis too. -/
def epochAtSlot [Preset] (slot : Int) : Int := slot / (SLOTS_PER_EPOCH : Int)

variable {config : ChainConfig} {genesisTime now : Int}

theorem miliSecondsPerSlot_pos (config : ChainConfig) :
    0 < (config.SECONDS_PER_SLOT * 1000 : Int) := by
  have hle := config.INTERVALS_PER_SLOT_le
  unfold INTERVALS_PER_SLOT at hle
  omega

theorem slotsSinceGenesis_eq :
    slotsSinceGenesis config genesisTime now =
      ((now - genesisTime * 1000 : Int) : Rat) / ((config.SECONDS_PER_SLOT * 1000 : Nat) : Rat) := by
  have hpos : (config.SECONDS_PER_SLOT : Rat) ≠ 0 := by
    have hslot := miliSecondsPerSlot_pos config
    have hne : config.SECONDS_PER_SLOT ≠ 0 := by omega
    exact_mod_cast hne
  unfold slotsSinceGenesis
  push_cast
  field_simp

theorem getCurrentSlot_eq :
    getCurrentSlot config genesisTime now =
      (now - genesisTime * 1000) / (config.SECONDS_PER_SLOT * 1000) := by
  unfold getCurrentSlot GENESIS_SLOT
  rw [slotsSinceGenesis_eq, Rat.floor_intCast_div_natCast]
  push_cast
  omega

end

variable [Preset]

/-! ## Epochs -/

def computeEpochAtSlot (slot : Nat) : Nat :=
  slot / SLOTS_PER_EPOCH

def computeStartSlotAtEpoch (epoch : Nat) : Nat :=
  epoch * SLOTS_PER_EPOCH

/-- The epoch at which an activation or exit triggered in `epoch` takes effect. -/
def computeActivationExitEpoch (epoch : Nat) : Nat :=
  epoch + 1 + MAX_SEED_LOOKAHEAD

def computeSlotsSinceEpochStart (slot : Nat) : Nat :=
  slot - computeStartSlotAtEpoch (computeEpochAtSlot slot)

def computeSyncPeriodAtEpoch (epoch : Nat) : Nat :=
  epoch / EPOCHS_PER_SYNC_COMMITTEE_PERIOD

def computeSyncPeriodAtSlot (slot : Nat) : Nat :=
  computeSyncPeriodAtEpoch (computeEpochAtSlot slot)

/-- `getCurrentInterval`, which does not read the genesis time it is given. -/
def getCurrentInterval (config : ChainConfig) (secondsIntoSlot : Rat) : Int :=
  let timePerInterval := config.SECONDS_PER_SLOT / INTERVALS_PER_SLOT
  (secondsIntoSlot / timePerInterval).floor

theorem computeSlotsSinceEpochStart_eq (slot : Nat) :
    computeSlotsSinceEpochStart slot = slot % SLOTS_PER_EPOCH := by
  rw [computeSlotsSinceEpochStart, computeStartSlotAtEpoch, computeEpochAtSlot]
  have hdiv := Nat.div_add_mod' slot SLOTS_PER_EPOCH
  omega

theorem computeEpochAtSlot_startSlot (epoch : Nat) :
    computeEpochAtSlot (computeStartSlotAtEpoch epoch) = epoch :=
  Nat.mul_div_cancel _ Preset.SLOTS_PER_EPOCH_pos

theorem computeStartSlotAtEpoch_mono {epoch epoch' : Nat} (h : epoch ≤ epoch') :
    computeStartSlotAtEpoch epoch ≤ computeStartSlotAtEpoch epoch' :=
  Nat.mul_le_mul_right _ h

theorem startSlot_le (slot : Nat) : computeStartSlotAtEpoch (computeEpochAtSlot slot) ≤ slot :=
  Nat.div_mul_le_self _ _

theorem lt_startSlot_add (slot : Nat) :
    slot < computeStartSlotAtEpoch (computeEpochAtSlot slot) + SLOTS_PER_EPOCH :=
  Nat.lt_div_mul_add Preset.SLOTS_PER_EPOCH_pos

theorem lt_startSlot_succ (slot : Nat) :
    slot < computeStartSlotAtEpoch (computeEpochAtSlot slot + 1) := by
  have hnext : computeStartSlotAtEpoch (computeEpochAtSlot slot + 1)
      = computeStartSlotAtEpoch (computeEpochAtSlot slot) + SLOTS_PER_EPOCH := Nat.succ_mul _ _
  exact hnext ▸ lt_startSlot_add slot

theorem computeEpochAtSlot_succ {slot : Nat} (h : (slot + 1) % SLOTS_PER_EPOCH = 0) :
    computeEpochAtSlot (slot + 1) = computeEpochAtSlot slot + 1 :=
  Nat.succ_div_of_mod_eq_zero h

theorem computeActivationExitEpoch_succ (epoch : Nat) :
    computeActivationExitEpoch (epoch + 1) = computeActivationExitEpoch epoch + 1 := by
  simp only [computeActivationExitEpoch]
  omega

/-- `config.getForkName`: the latest fork whose epoch is reached. -/
def getForkName (config : ChainConfig) (slot : Nat) : ForkName :=
  let epoch : WithTop Nat := computeEpochAtSlot slot
  if config.BELLATRIX_FORK_EPOCH ≤ epoch then .bellatrix
  else if config.ALTAIR_FORK_EPOCH ≤ epoch then .altair
  else .phase0

def getForkVersion (config : ChainConfig) (slot : Nat) : Version :=
  match getForkName config slot with
  | .phase0 => config.GENESIS_FORK_VERSION
  | .altair => config.ALTAIR_FORK_VERSION
  | .bellatrix => config.BELLATRIX_FORK_VERSION

/-- An epoch that is not `FAR_FUTURE_EPOCH`. -/
def setEpoch? : WithTop Nat → Option Nat
  | none => none
  | some epoch => some epoch

omit [Preset] in
@[simp] theorem setEpoch?_farFuture : setEpoch? FAR_FUTURE_EPOCH = none := rfl

omit [Preset] in
@[simp] theorem setEpoch?_coe (epoch : Nat) : setEpoch? epoch = some epoch := rfl

/-! ## Validators -/

structure Validator where
  pubkey : BLSPubkey
  withdrawalCredentials : Root
  effectiveBalance : Nat
  slashed : Bool
  activationEligibilityEpoch : WithTop Nat
  activationEpoch : WithTop Nat
  exitEpoch : WithTop Nat
  withdrawableEpoch : WithTop Nat
  deriving DecidableEq

def isActiveValidator (validator : Validator) (epoch : Nat) : Bool :=
  decide (validator.activationEpoch ≤ epoch) && decide (epoch < validator.exitEpoch)

def getActiveValidatorIndices (validators : List Validator) (epoch : Nat) : List Nat :=
  (validators.zipIdx.filter fun (v, _) => isActiveValidator v epoch).map (·.2)

def getChurnLimit (config : ChainConfig) (activeValidatorCount : Nat) : Nat :=
  max config.MIN_PER_EPOCH_CHURN_LIMIT (activeValidatorCount / config.CHURN_LIMIT_QUOTIENT)

def computeBaseRewardPerIncrement (totalActiveStakeByIncrement : Nat) : Nat :=
  EFFECTIVE_BALANCE_INCREMENT * BASE_REWARD_FACTOR
    / bigIntSqrt (totalActiveStakeByIncrement * EFFECTIVE_BALANCE_INCREMENT)

end Lodestar.StateTransition
