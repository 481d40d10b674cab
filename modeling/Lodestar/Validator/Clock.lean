import Lodestar.StateTransition.Util

/-!
# The clock of the validator client

`validator/src/util/clock.ts`. Times are those of `Date.now()`, in
milliseconds; a run of a task is given by how long it takes and by how late the
sleep after it ends.
-/

namespace Lodestar.Validator

open Lodestar.StateTransition

inductive TimeItem where
  | Slot
  | Epoch
  deriving DecidableEq

/-- A call of a registered function, with its time. -/
structure ItemCall where
  now : Int
  slotOrEpoch : Int
  deriving DecidableEq

/-- How long a task takes, and how late the timer fires after it. -/
structure Delay where
  task : Nat
  late : Nat

section

variable (config : ChainConfig) (genesisTime now : Int)

/-- "Same to the spec but we use Math.round instead of Math.floor." -/
def getCurrentSlotAround : Int :=
  GENESIS_SLOT + ⌊slotsSinceGenesis config genesisTime now + 1 / 2⌋

variable [Preset]

def TimeItem.ofSlot (slot : Int) : TimeItem → Int
  | .Slot => slot
  | .Epoch => epochAtSlot slot

def TimeItem.miliSeconds : TimeItem → Int
  | .Slot => config.SECONDS_PER_SLOT * 1000
  | .Epoch => SLOTS_PER_EPOCH * (config.SECONDS_PER_SLOT * 1000)

def timeUntilNext (timeItem : TimeItem) : Int :=
  let msFromGenesis := now - genesisTime * 1000
  if 0 ≤ msFromGenesis then
    timeItem.miliSeconds config - msFromGenesis.tmod (timeItem.miliSeconds config)
  else |msFromGenesis.tmod (timeItem.miliSeconds config)|

/-- When the sleep ends. -/
def wakeUp (timeItem : TimeItem) (delay : Delay) : Int :=
  now + delay.task + timeUntilNext config genesisTime (now + delay.task) timeItem + delay.late

/-- The loop of `runAtMostEvery`, until the signal aborts. -/
def runLoop (timeItem : TimeItem) (slotOrEpoch : Int) : Int → List Delay → List ItemCall
  | now, [] => [⟨now, slotOrEpoch⟩]
  | now, delay :: delays =>
    let woken := wakeUp config genesisTime now timeItem delay
    ⟨now, slotOrEpoch⟩ ::
      runLoop timeItem (timeItem.ofSlot (getCurrentSlotAround config genesisTime woken)) woken delays

def runAtMostEvery (timeItem : TimeItem) (delays : List Delay) : List ItemCall :=
  runLoop config genesisTime timeItem (timeItem.ofSlot (getCurrentSlot config genesisTime now)) now
    delays

/-! ## Once for each item -/

/-- The slots (epochs) of the calls increase, and each has started. -/
def RunsOnce (timeItem : TimeItem) (calls : List ItemCall) : Prop :=
  (calls.map (·.slotOrEpoch)).Pairwise (· < ·) ∧
    ∀ call ∈ calls, call.slotOrEpoch ≤ timeItem.ofSlot (getCurrentSlot config genesisTime call.now)

/-- The sleep ends more than half a slot before the next slot (epoch); and a task that took no
time at the start of a slot (epoch) before genesis is not run again in it. -/
def WakesInTime (timeItem : TimeItem) (delay : Delay) : Prop :=
  let period := timeItem.miliSeconds config
  let woken := wakeUp config genesisTime now timeItem delay
  (config.SECONDS_PER_SLOT * 1000 : Int) < 2 * (period - (woken - genesisTime * 1000) % period) ∧
    (delay.task = 0 → now < genesisTime * 1000 → period ∣ now - genesisTime * 1000 →
      period ≤ delay.late)

/-- Every sleep of the run ends in time. -/
def AllInTime (timeItem : TimeItem) : Int → List Delay → Prop
  | _, [] => True
  | now, delay :: delays => WakesInTime config genesisTime now timeItem delay ∧
      AllInTime timeItem (wakeUp config genesisTime now timeItem delay) delays

/-! ## Periods -/

variable {config genesisTime now}

theorem miliSeconds_pos (config : ChainConfig) (timeItem : TimeItem) :
    0 < timeItem.miliSeconds config := by
  have hslot := miliSecondsPerSlot_pos config
  have hepoch := Preset.SLOTS_PER_EPOCH_pos
  cases timeItem with
  | Slot => exact hslot
  | Epoch => exact Int.mul_pos (by exact_mod_cast hepoch) hslot

theorem miliSecondsPerSlot_le (config : ChainConfig) (timeItem : TimeItem) :
    (config.SECONDS_PER_SLOT * 1000 : Int) ≤ timeItem.miliSeconds config := by
  have hslot := miliSecondsPerSlot_pos config
  have hepoch : (1 : Int) ≤ SLOTS_PER_EPOCH := by exact_mod_cast Preset.SLOTS_PER_EPOCH_pos
  cases timeItem with
  | Slot => exact le_refl _
  | Epoch => exact le_mul_of_one_le_left (le_of_lt hslot) hepoch

omit [Preset] in
theorem getCurrentSlotAround_eq :
    getCurrentSlotAround config genesisTime now =
      (2 * (now - genesisTime * 1000) + config.SECONDS_PER_SLOT * 1000) /
        (2 * (config.SECONDS_PER_SLOT * 1000)) := by
  have hpos : (config.SECONDS_PER_SLOT : Rat) ≠ 0 := by
    have hslot := miliSecondsPerSlot_pos config
    have hne : config.SECONDS_PER_SLOT ≠ 0 := by omega
    exact_mod_cast hne
  have hhalf : slotsSinceGenesis config genesisTime now + 1 / 2 =
      ((2 * (now - genesisTime * 1000) + config.SECONDS_PER_SLOT * 1000 : Int) : Rat) /
        ((2 * (config.SECONDS_PER_SLOT * 1000) : Nat) : Rat) := by
    rw [slotsSinceGenesis_eq]
    push_cast
    field_simp
  unfold getCurrentSlotAround GENESIS_SLOT
  rw [hhalf, Rat.floor_intCast_div_natCast]
  push_cast
  omega

theorem ofSlot_getCurrentSlot (timeItem : TimeItem) :
    timeItem.ofSlot (getCurrentSlot config genesisTime now) =
      (now - genesisTime * 1000) / timeItem.miliSeconds config := by
  rw [getCurrentSlot_eq]
  cases timeItem with
  | Slot => rfl
  | Epoch =>
    show _ / (SLOTS_PER_EPOCH : Int) = _ / ((SLOTS_PER_EPOCH : Int) * _)
    rw [Int.ediv_ediv_of_nonneg (le_of_lt (miliSecondsPerSlot_pos config)),
      mul_comm (SLOTS_PER_EPOCH : Int)]

theorem ofSlot_getCurrentSlotAround (config : ChainConfig) (genesisTime now : Int)
    (timeItem : TimeItem) :
    timeItem.ofSlot (getCurrentSlotAround config genesisTime now) =
      (now - genesisTime * 1000) / timeItem.miliSeconds config +
        if 2 * (timeItem.miliSeconds config -
            (now - genesisTime * 1000) % timeItem.miliSeconds config) ≤ config.SECONDS_PER_SLOT * 1000
        then 1 else 0 := by
  have hslot := miliSecondsPerSlot_pos config
  have hperiod := miliSeconds_pos config timeItem
  have hle := miliSecondsPerSlot_le config timeItem
  have haround : timeItem.ofSlot (getCurrentSlotAround config genesisTime now) =
      (2 * (now - genesisTime * 1000) + config.SECONDS_PER_SLOT * 1000) /
        (2 * timeItem.miliSeconds config) := by
    rw [getCurrentSlotAround_eq]
    cases timeItem with
    | Slot => rfl
    | Epoch =>
      show _ / (SLOTS_PER_EPOCH : Int) = _ / (2 * ((SLOTS_PER_EPOCH : Int) * _))
      rw [Int.ediv_ediv_of_nonneg (by omega)]
      congr 1
      ring
  rw [haround]
  generalize now - genesisTime * 1000 = x
  generalize timeItem.miliSeconds config = period at hperiod hle ⊢
  have hdiv := Int.mul_ediv_add_emod x period
  have hnonneg := Int.emod_nonneg x (ne_of_gt hperiod)
  have hlt := Int.emod_lt_of_pos x hperiod
  generalize x / period = q at hdiv ⊢
  generalize x % period = r at hdiv hnonneg hlt ⊢
  subst hdiv
  rw [show 2 * (period * q + r) + (config.SECONDS_PER_SLOT * 1000 : Int) =
    2 * r + config.SECONDS_PER_SLOT * 1000 + 2 * period * q by ring,
    Int.add_mul_ediv_left _ _ (by omega), add_comm]
  congr 1
  split_ifs with hhalf
  · rw [Int.ediv_eq_iff_of_pos (by omega)]
    constructor <;> omega
  · exact Int.ediv_eq_zero_of_lt (by omega) (by omega)

/-! ## Waking up -/

theorem timeUntilNext_spec (config : ChainConfig) (genesisTime now : Int) (timeItem : TimeItem) :
    timeItem.miliSeconds config ∣
        now - genesisTime * 1000 + timeUntilNext config genesisTime now timeItem ∧
      0 ≤ timeUntilNext config genesisTime now timeItem ∧
      (timeUntilNext config genesisTime now timeItem = 0 ↔
        now - genesisTime * 1000 < 0 ∧ timeItem.miliSeconds config ∣ now - genesisTime * 1000) := by
  have hperiod := miliSeconds_pos config timeItem
  unfold timeUntilNext
  dsimp only
  generalize now - genesisTime * 1000 = x
  generalize timeItem.miliSeconds config = period at hperiod ⊢
  by_cases hgenesis : 0 ≤ x
  · rw [if_pos hgenesis, Int.tmod_eq_emod_of_nonneg hgenesis]
    have hlt := Int.emod_lt_of_pos x hperiod
    refine ⟨?_, by omega, by omega⟩
    rw [show x + (period - x % period) = x - x % period + period by ring]
    exact Int.dvd_add (Int.dvd_self_sub_emod) (Int.dvd_refl _)
  · have habs : |x.tmod period| = (-x) % period := by
      have hneg : 0 ≤ (-x).tmod period := Int.tmod_nonneg _ (by omega)
      rw [← Int.tmod_eq_emod_of_nonneg (show 0 ≤ -x by omega)]
      rw [Int.neg_tmod] at hneg ⊢
      exact abs_of_nonpos (by omega)
    rw [if_neg hgenesis, habs]
    have hnonneg := Int.emod_nonneg (-x) (ne_of_gt hperiod)
    refine ⟨?_, hnonneg, ?_⟩
    · rw [show x + (-x) % period = -(-x - (-x) % period) by ring]
      exact (Int.dvd_neg).2 Int.dvd_self_sub_emod
    · rw [← Int.dvd_iff_emod_eq_zero, Int.dvd_neg]
      exact ⟨fun hdvd => ⟨by omega, hdvd⟩, fun h => h.2⟩

/-- The item in which the sleep ends is a later one, but for a task that takes no time at the start
of an item before genesis. -/
theorem lt_wakeUp_iff (config : ChainConfig) (genesisTime now : Int) (timeItem : TimeItem)
    (delay : Delay) :
    (now - genesisTime * 1000) / timeItem.miliSeconds config <
        (wakeUp config genesisTime now timeItem delay - genesisTime * 1000) /
          timeItem.miliSeconds config ↔
      (delay.task = 0 → now < genesisTime * 1000 →
        timeItem.miliSeconds config ∣ now - genesisTime * 1000 →
          timeItem.miliSeconds config ≤ delay.late) := by
  have hperiod := miliSeconds_pos config timeItem
  obtain ⟨⟨k, hk⟩, hnonneg, hzero⟩ :=
    timeUntilNext_spec config genesisTime (now + delay.task) timeItem
  have hwoken : wakeUp config genesisTime now timeItem delay - genesisTime * 1000 =
      delay.late + timeItem.miliSeconds config * k := by
    unfold wakeUp
    omega
  rw [hwoken, Int.add_mul_ediv_left _ _ (ne_of_gt hperiod)]
  have hlate : 0 ≤ (delay.late : Int) / timeItem.miliSeconds config :=
    Int.ediv_nonneg (by omega) (le_of_lt hperiod)
  by_cases hbefore : now - genesisTime * 1000 < timeItem.miliSeconds config * k
  · -- the task ends in a later item, or the sleep does
    have hlt : (now - genesisTime * 1000) / timeItem.miliSeconds config < k :=
      Int.ediv_lt_of_lt_mul hperiod (by rw [mul_comm k]; exact hbefore)
    refine iff_of_true (by omega) fun htask hgenesis hdvd => ?_
    rw [htask, Nat.cast_zero, add_zero] at hzero hk
    have hnow := hzero.2 ⟨by omega, hdvd⟩
    omega
  · have htask : delay.task = 0 := by omega
    rw [htask, Nat.cast_zero, add_zero] at hzero hk hnonneg
    have huntil : timeUntilNext config genesisTime now timeItem = 0 := by omega
    have hnow : now - genesisTime * 1000 = timeItem.miliSeconds config * k := by omega
    obtain ⟨hgenesis, hdvd⟩ := hzero.1 huntil
    rw [hnow, Int.mul_ediv_cancel_left _ (ne_of_gt hperiod)]
    constructor
    · intro hlt _ _ _
      by_contra hle
      rw [Int.ediv_eq_zero_of_lt (by omega) (by omega)] at hlt
      omega
    · intro h
      have hle := h htask (by omega) (Int.dvd_mul_right _ _)
      have hone := Int.le_ediv_of_mul_le hperiod (show 1 * timeItem.miliSeconds config ≤ delay.late by omega)
      omega

/-! ## Runs -/

theorem runLoop_cons (config : ChainConfig) (genesisTime now : Int) (timeItem : TimeItem)
    (slotOrEpoch : Int) (delays : List Delay) :
    ∃ calls, runLoop config genesisTime timeItem slotOrEpoch now delays =
      ⟨now, slotOrEpoch⟩ :: calls := by
  cases delays with
  | nil => exact ⟨[], rfl⟩
  | cons delay delays => exact ⟨_, rfl⟩

theorem runsOnce_cons {timeItem : TimeItem} {call : ItemCall} {calls : List ItemCall} :
    RunsOnce config genesisTime timeItem (call :: calls) ↔
      (∀ later ∈ calls, call.slotOrEpoch < later.slotOrEpoch) ∧
        call.slotOrEpoch ≤ timeItem.ofSlot (getCurrentSlot config genesisTime call.now) ∧
        RunsOnce config genesisTime timeItem calls := by
  unfold RunsOnce
  rw [List.map_cons, List.pairwise_cons, List.forall_mem_cons, List.forall_mem_map]
  tauto

/-- From a call in its own slot (epoch), the run is right as long as the sleeps end in time. -/
theorem runsOnce_runLoop_iff (timeItem : TimeItem) (delays : List Delay) (now : Int) :
    RunsOnce config genesisTime timeItem (runLoop config genesisTime timeItem
        (timeItem.ofSlot (getCurrentSlot config genesisTime now)) now delays) ↔
      AllInTime config genesisTime timeItem now delays := by
  induction delays generalizing now with
  | nil =>
    unfold runLoop AllInTime
    rw [runsOnce_cons]
    simp [RunsOnce]
  | cons delay delays ih =>
    unfold runLoop AllInTime
    dsimp only
    rw [runsOnce_cons]
    have hlater := lt_wakeUp_iff config genesisTime now timeItem delay
    have haround := ofSlot_getCurrentSlotAround config genesisTime
      (wakeUp config genesisTime now timeItem delay) timeItem
    rw [← ofSlot_getCurrentSlot, ← ofSlot_getCurrentSlot] at hlater
    rw [← ofSlot_getCurrentSlot] at haround
    unfold WakesInTime
    dsimp only
    rw [← hlater]
    have ih := ih (wakeUp config genesisTime now timeItem delay)
    generalize wakeUp config genesisTime now timeItem delay = woken at *
    obtain ⟨calls, hcalls⟩ := runLoop_cons config genesisTime woken timeItem
      (timeItem.ofSlot (getCurrentSlotAround config genesisTime woken)) delays
    constructor
    · rintro ⟨hincreases, -, hrest⟩
      rw [hcalls] at hincreases hrest
      have hfirst := hincreases _ List.mem_cons_self
      have hstarted := (runsOnce_cons.1 hrest).2.1
      dsimp only at hfirst hstarted
      rw [haround] at hfirst hstarted
      split_ifs at hstarted hfirst with hhalf
      · omega
      · rw [if_neg hhalf, add_zero] at haround
        rw [← hcalls, haround] at hrest
        exact ⟨⟨by omega, by omega⟩, ih.1 hrest⟩
    · rintro ⟨⟨htime, hnext⟩, hrest⟩
      rw [if_neg (by omega), add_zero] at haround
      have hrest := ih.2 hrest
      rw [haround] at hcalls ⊢
      refine ⟨fun later hmem => ?_, le_refl _, hrest⟩
      rw [hcalls] at hmem hrest
      rcases List.mem_cons.1 hmem with rfl | hmem
      · exact hnext
      · exact hnext.trans ((runsOnce_cons.1 hrest).1 later hmem)

/-- A registered function is called once for each slot (epoch), after its start, if and only if
every sleep ends in time. -/
theorem runs_once_iff (config : ChainConfig) (genesisTime now : Int) (timeItem : TimeItem)
    (delays : List Delay) :
    RunsOnce config genesisTime timeItem
        (runAtMostEvery config genesisTime now timeItem delays) ↔
      AllInTime config genesisTime timeItem now delays :=
  runsOnce_runLoop_iff timeItem delays now

end

/-! ## A late timer -/

attribute [local instance] mainnet

/-- The timer is six seconds late, and the next one is on time. -/
def lateTimer : List Delay := [⟨0, 6000⟩, ⟨0, 0⟩]

/-- Slot 2 is named in slot 1 and again in slot 2. -/
theorem late_timer_names_next_slot :
    (runAtMostEvery chainConfigMainnet 0 0 .Slot lateTimer).map (·.slotOrEpoch) = [0, 2, 2] ∧
      ¬ RunsOnce chainConfigMainnet 0 .Slot (runAtMostEvery chainConfigMainnet 0 0 .Slot lateTimer) := by
  have hcalls : (runAtMostEvery chainConfigMainnet 0 0 .Slot lateTimer).map (·.slotOrEpoch) =
      [0, 2, 2] := by decide +kernel
  refine ⟨hcalls, fun h => ?_⟩
  have hincreases := h.1
  rw [hcalls] at hincreases
  simp at hincreases

end Lodestar.Validator
