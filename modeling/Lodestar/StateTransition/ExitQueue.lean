import Lodestar.StateTransition.EpochContext
import Mathlib.Logic.Relation

/-!
# The exit queue cache against the registry

The specification's `initiate_validator_exit` scans the registry for the last
exit epoch and the exits it has. `EpochContext` keeps the two in `exitQueueEpoch`
and `exitQueueChurn`, except that `createFromState` moves a full queue on to the
next epoch, empty.
-/

namespace Lodestar.StateTransition

/-! ## The last epoch of a list -/

section LastEpoch

variable (L : List Nat) (a : Nat)

theorem foldl_max_cons (x : Nat) : (x :: L).foldl max a = max x (L.foldl max a) := by
  rw [List.foldl_cons, max_comm a x, List.foldl_assoc]

theorem foldl_max_concat (x : Nat) : (L ++ [x]).foldl max a = max (L.foldl max a) x := by
  rw [List.foldl_append, List.foldl_cons, List.foldl_nil]

theorem foldl_max_succ : L.foldl max (a + 1) = max (a + 1) (L.foldl max a) := by
  rw [← foldl_max_cons, List.foldl_cons, max_eq_right (Nat.le_succ a)]

theorem le_foldl_max : a ≤ L.foldl max a := by
  induction L using List.reverseRecOn with
  | nil => exact le_refl a
  | append_singleton L x ih =>
    rw [foldl_max_concat]
    exact le_max_of_le_left ih

theorem le_foldl_max_of_mem {x : Nat} (hx : x ∈ L) : x ≤ L.foldl max a := by
  obtain ⟨s, t, rfl⟩ := List.append_of_mem hx
  rw [List.foldl_append, foldl_max_cons]
  exact le_max_left _ _

theorem count_eq_zero_of_foldl_max_lt {x : Nat} (hx : L.foldl max a < x) : L.count x = 0 :=
  List.count_eq_zero_of_not_mem fun hmem =>
    Nat.not_lt_of_le (le_foldl_max_of_mem L a hmem) hx

end LastEpoch

/-! ## The specification -/

/-- The exit epochs that are set. -/
def exitEpochs (validators : List Validator) : List Nat :=
  validators.filterMap fun v => setEpoch? v.exitEpoch

theorem exitEpochs_eq_of_map {vs vs' : List Validator}
    (h : vs.map (·.exitEpoch) = vs'.map (·.exitEpoch)) : exitEpochs vs = exitEpochs vs' := by
  have hmap (vs : List Validator) : exitEpochs vs = (vs.map (·.exitEpoch)).filterMap setEpoch? := by
    rw [List.filterMap_map]
    rfl
  rw [hmap, hmap, h]

/-- The exit queue of a list of exit epochs, none before `a`: the last epoch and its exits. -/
def exitQueue (a : Nat) (L : List Nat) : Nat × Nat :=
  (L.foldl max a, L.count (L.foldl max a))

section

variable [Preset]

/-- `max(exit_epochs + [compute_activation_exit_epoch(current_epoch)])`. -/
def specExitQueueEpoch (currentEpoch : Nat) (validators : List Validator) : Nat :=
  (exitEpochs validators).foldl max (computeActivationExitEpoch currentEpoch)

/-- The number of validators that exit at `specExitQueueEpoch`. -/
def specExitQueueChurn (currentEpoch : Nat) (validators : List Validator) : Nat :=
  (exitEpochs validators).count (specExitQueueEpoch currentEpoch validators)

/-- The exit epoch `initiate_validator_exit` assigns. -/
def specExitEpoch (currentEpoch churnLimit : Nat) (validators : List Validator) : Nat :=
  if churnLimit ≤ specExitQueueChurn currentEpoch validators then
    specExitQueueEpoch currentEpoch validators + 1
  else
    specExitQueueEpoch currentEpoch validators

end

/-! ## Exit queues of lists -/

theorem exitQueue_perm (a : Nat) {L L' : List Nat} (h : L.Perm L') :
    exitQueue a L = exitQueue a L' := by
  have hmax : L.foldl max a = L'.foldl max a := h.foldl_op_eq
  rw [exitQueue, exitQueue, hmax, h.count_eq]

theorem exitQueue_cons_of_lt {a x : Nat} {L : List Nat} (h : (exitQueue a L).1 < x) :
    exitQueue a (x :: L) = (x, 1) := by
  have hzero : L.count x = 0 := count_eq_zero_of_foldl_max_lt L a h
  have hmax : max x (L.foldl max a) = x := max_eq_left (le_of_lt h)
  rw [exitQueue, foldl_max_cons, hmax, List.count_cons_self, hzero]

theorem exitQueue_cons_last (a : Nat) (L : List Nat) :
    exitQueue a ((exitQueue a L).1 :: L) = ((exitQueue a L).1, (exitQueue a L).2 + 1) := by
  rw [exitQueue, foldl_max_cons, exitQueue, max_self, List.count_cons_self]

theorem scanExitEpoch_exitQueue (L : List Nat) (a : Nat) (e : WithTop Nat) :
    scanExitEpoch e (exitQueue a L) = exitQueue a (L ++ (setEpoch? e).toList) := by
  rw [scanExitEpoch, exitQueue, exitQueue]
  cases setEpoch? e with
  | none => simp
  | some x =>
    rw [Option.toList_some, foldl_max_concat]
    generalize hm : L.foldl max a = m
    rcases lt_trichotomy m x with h | rfl | h
    · have hzero : L.count x = 0 := count_eq_zero_of_foldl_max_lt L a (hm ▸ h)
      simp [h, max_eq_right h.le, List.count_append, hzero]
    · simp [List.count_append]
    · simp [not_lt_of_gt h, h.ne, max_eq_left h.le, List.count_append]

theorem exitEpochs_concat (vs : List Validator) (v : Validator) :
    exitEpochs (vs ++ [v]) = exitEpochs vs ++ (setEpoch? v.exitEpoch).toList := by
  rw [exitEpochs, List.filterMap_append, exitEpochs]
  cases h : setEpoch? v.exitEpoch <;> simp [h]

theorem exitEpochs_set {vs : List Validator} {i : Nat} {v v' : Validator} {x : Nat}
    (hv : vs[i]? = some v) (hexit : v.exitEpoch = FAR_FUTURE_EPOCH)
    (hv' : v'.exitEpoch = (x : Nat)) :
    (exitEpochs (vs.set i v')).Perm (x :: exitEpochs vs) := by
  induction vs generalizing i with
  | nil => simp at hv
  | cons w ws ih =>
    cases i with
    | zero =>
      obtain rfl : w = v := by simpa using hv
      simp [exitEpochs, hexit, hv']
    | succ i =>
      have ih := ih (i := i) (by simpa using hv)
      rw [List.set_cons_succ, exitEpochs, List.filterMap_cons, exitEpochs, List.filterMap_cons]
      cases setEpoch? w.exitEpoch with
      | none => exact ih
      | some e => exact (ih.cons e).trans (List.Perm.swap x e _)

/-! ## The cached queue -/

/-- The cached queue is the registry's, or is empty one epoch past the registry's. -/
def QueueFollows (queue cached : Nat × Nat) : Prop :=
  cached = queue ∨ cached = (queue.1 + 1, 0)

theorem initiateValidatorExit_spec (config : ChainConfig) (epochCtx : EpochContext) {v : Validator}
    (hexit : v.exitEpoch = FAR_FUTURE_EPOCH) :
    ∃ queueEpoch queueChurn : Nat,
      (queueEpoch, queueChurn)
        = (if epochCtx.churnLimit ≤ epochCtx.exitQueueChurn then (epochCtx.exitQueueEpoch + 1, 1)
          else (epochCtx.exitQueueEpoch, epochCtx.exitQueueChurn + 1)) ∧
      (initiateValidatorExit config epochCtx v).1
        = { epochCtx with exitQueueEpoch := queueEpoch, exitQueueChurn := queueChurn } ∧
      (initiateValidatorExit config epochCtx v).2.exitEpoch = (queueEpoch : Nat) := by
  rw [initiateValidatorExit, if_neg (not_not.mpr hexit)]
  by_cases h : epochCtx.churnLimit ≤ epochCtx.exitQueueChurn
  · exact ⟨_, _, by rw [if_pos h], by simp [h]⟩
  · exact ⟨_, _, by rw [if_neg h], by simp [h]⟩

theorem QueueFollows.exit {a : Nat} {L : List Nat} {churnLimit qe qc qe' qc' : Nat}
    (h : QueueFollows (exitQueue a L) (qe, qc))
    (hq : (qe', qc') = if churnLimit ≤ qc then (qe + 1, 1) else (qe, qc + 1)) :
    (qe', qc') = exitQueue a (qe' :: L) := by
  rcases h with h | h
  · obtain ⟨rfl, rfl⟩ := Prod.mk.inj h
    split at hq
    · obtain ⟨rfl, rfl⟩ := Prod.mk.inj hq
      exact (exitQueue_cons_of_lt (Nat.lt_succ_self _)).symm
    · obtain ⟨rfl, rfl⟩ := Prod.mk.inj hq
      exact (exitQueue_cons_last a L).symm
  · obtain ⟨rfl, rfl⟩ := Prod.mk.inj h
    split at hq
    · obtain ⟨rfl, rfl⟩ := Prod.mk.inj hq
      exact (exitQueue_cons_of_lt (by omega)).symm
    · obtain ⟨rfl, rfl⟩ := Prod.mk.inj hq
      exact (exitQueue_cons_of_lt (Nat.lt_succ_self _)).symm

theorem QueueFollows.epoch {a : Nat} {L : List Nat} {qe qc : Nat}
    (h : QueueFollows (exitQueue a L) (qe, qc)) :
    QueueFollows (exitQueue (a + 1) L)
      (if qe < a + 1 then a + 1 else qe, if qe < a + 1 then 0 else qc) := by
  have hle : a ≤ L.foldl max a := le_foldl_max L a
  rw [exitQueue] at h
  rw [exitQueue, foldl_max_succ]
  rcases Nat.lt_or_ge (L.foldl max a) (a + 1) with hlt | hge
  · -- nobody exits after `a`
    have hzero : L.count (a + 1) = 0 := count_eq_zero_of_foldl_max_lt L a hlt
    rw [max_eq_left hlt.le, hzero]
    left
    rcases h with h | h
    · obtain ⟨rfl, rfl⟩ := Prod.mk.inj h
      rw [if_pos hlt, if_pos hlt]
    · obtain ⟨rfl, rfl⟩ := Prod.mk.inj h
      rw [if_neg (by omega), if_neg (by omega)]
      exact Prod.ext (by omega) rfl
  · rw [max_eq_right hge]
    have hnot : ¬ qe < a + 1 := by
      rcases h with h | h <;> obtain ⟨rfl, rfl⟩ := Prod.mk.inj h <;> omega
    rwa [if_neg hnot, if_neg hnot]

theorem QueueFollows.assigned_iff {E n limit qe qc qe' qc' : Nat} (h : QueueFollows (E, n) (qe, qc))
    (hq : (qe', qc') = if limit ≤ qc then (qe + 1, 1) else (qe, qc + 1)) :
    (qe' = if limit ≤ n then E + 1 else E) ↔ qe ≤ E ∨ 0 < limit ∧ limit ≤ n := by
  rcases h with h | h
  · obtain ⟨rfl, rfl⟩ := Prod.mk.inj h
    split at hq <;> obtain ⟨rfl, rfl⟩ := Prod.mk.inj hq <;> rename_i hfull
    · simp [hfull]
    · simp [hfull]
  · obtain ⟨rfl, rfl⟩ := Prod.mk.inj h
    split at hq <;> obtain ⟨rfl, rfl⟩ := Prod.mk.inj hq <;> rename_i hfull
    · -- a limit of zero
      split <;> omega
    · split <;> omega

section

variable [Preset] {β : Type}

theorem exitQueue_scan (pe ce ne : Nat) (s : RegistryScan) (h0 : s.exitQueueChurn = 0)
    (vs : List (Validator × Nat)) :
    ((vs.foldl (scanValidator pe ce ne) s).exitQueueEpoch,
      (vs.foldl (scanValidator pe ce ne) s).exitQueueChurn)
      = exitQueue s.exitQueueEpoch (exitEpochs (vs.map (·.1))) := by
  induction vs using List.reverseRecOn with
  | nil => simp [exitEpochs, exitQueue, h0]
  | append_singleton vs v ih =>
    rw [List.map_append, List.map_singleton, exitEpochs_concat, ← scanExitEpoch_exitQueue, ← ih,
      List.foldl_append]
    rfl

theorem scanRegistry_exitQueue (currentEpoch : Nat) (validators : List Validator) :
    ((scanRegistry currentEpoch validators).exitQueueEpoch,
      (scanRegistry currentEpoch validators).exitQueueChurn)
      = exitQueue (computeActivationExitEpoch currentEpoch) (exitEpochs validators) := by
  rw [scanRegistry, exitQueue_scan _ _ _ _ rfl, List.zipIdx_map_fst]

/-! ## Runs -/

/-- A state whose cache `createFromState` has just made. -/
def Created (state : CachedBeaconState β) : Prop :=
  createFromState state.config state.slot state.validators = .ok state.epochCtx

/-- One step of a cached state, as far as the exit queue can see. -/
inductive ExitStep : CachedBeaconState β → CachedBeaconState β → Prop
  /-- A slashing, a voluntary exit or an ejection. -/
  | exit (state : CachedBeaconState β) (index : Nat) :
      ExitStep state (state.initiateValidatorExit index)
  /-- The end of an epoch transition: the slot is advanced, then the cache. -/
  | epoch (state : CachedBeaconState β) (epochProcess : NextEpoch)
      (hslot : (state.slot + 1) % SLOTS_PER_EPOCH = 0) :
      ExitStep state
        { state with
          slot := state.slot + 1
          epochCtx := state.epochCtx.afterProcessEpoch state.config (state.slot + 1) epochProcess }
  /-- The upgrade of a state at a fork, which makes its cache anew. -/
  | upgrade (state : CachedBeaconState β) (epochCtx : EpochContext)
      (hctx : createFromState state.config state.slot state.validators = .ok epochCtx) :
      ExitStep state { state with epochCtx }
  /-- Everything else: slots of the epoch, deposits, activations, balances. -/
  | other (state state' : CachedBeaconState β) (hconfig : state'.config = state.config)
      (hslot : computeEpochAtSlot state'.slot = computeEpochAtSlot state.slot)
      (hexit : exitEpochs state'.validators = exitEpochs state.validators)
      (hctx : ∃ inc, state'.epochCtx = { state.epochCtx with effectiveBalanceIncrements := inc }) :
      ExitStep state state'

/-- What holds of every state of a run. -/
structure ExitQueueInv (state : CachedBeaconState β) : Prop where
  nextEpoch : state.epochCtx.nextShuffling.epoch = computeEpochAtSlot state.slot + 1
  queue : QueueFollows
    (exitQueue (computeActivationExitEpoch (computeEpochAtSlot state.slot))
      (exitEpochs state.validators))
    (state.epochCtx.exitQueueEpoch, state.epochCtx.exitQueueChurn)

namespace ExitQueueInv

theorem of_created {state : CachedBeaconState β} (h : Created state) : ExitQueueInv state := by
  have hscan := scanRegistry_exitQueue (computeEpochAtSlot state.slot) state.validators
  rw [Created, createFromState] at h
  dsimp only at h
  split at h
  · cases h
  · refine ⟨by rw [← Except.ok.inj h], ?_⟩
    rw [← hscan, ← Except.ok.inj h]
    by_cases hfull : getChurnLimit state.config
        (scanRegistry (computeEpochAtSlot state.slot) state.validators).currentActiveIndices.length
          ≤ (scanRegistry (computeEpochAtSlot state.slot) state.validators).exitQueueChurn
    · right
      simp [hfull]
    · left
      simp [hfull]

theorem exit {state : CachedBeaconState β} (h : ExitQueueInv state) (index : Nat) :
    ExitQueueInv (state.initiateValidatorExit index) := by
  rw [CachedBeaconState.initiateValidatorExit]
  cases hv : state.validators[index]? with
  | none => exact h
  | some v =>
    by_cases hexit : v.exitEpoch = FAR_FUTURE_EPOCH
    · obtain ⟨qe, qc, hq, hctx, hassigned⟩ :=
        initiateValidatorExit_spec state.config state.epochCtx hexit
      have hqueue := h.queue.exit hq
      rw [← exitQueue_perm _ (exitEpochs_set hv hexit hassigned)] at hqueue
      refine ⟨?_, Or.inl ?_⟩
      · simp only [hctx]
        exact h.nextEpoch
      · simp only [hctx]
        exact hqueue
    · have hsame : StateTransition.initiateValidatorExit state.config state.epochCtx v
          = (state.epochCtx, v) := by
        rw [StateTransition.initiateValidatorExit, if_pos hexit]
      obtain ⟨_, rfl⟩ := List.getElem?_eq_some_iff.mp hv
      simp only [hsame, List.set_getElem_self]
      exact h

theorem step {state state' : CachedBeaconState β} (h : ExitQueueInv state)
    (hstep : ExitStep state state') : ExitQueueInv state' := by
  cases hstep with
  | exit index => exact h.exit index
  | epoch epochProcess hslot =>
    have hepoch := computeEpochAtSlot_succ hslot
    refine ⟨?_, ?_⟩
    · simp only [EpochContext.afterProcessEpoch, h.nextEpoch, hepoch]
    · simp only [EpochContext.afterProcessEpoch, h.nextEpoch, hepoch,
        computeActivationExitEpoch_succ]
      exact h.queue.epoch
  | upgrade epochCtx hctx => exact of_created hctx
  | other state' hconfig hslot hexit hctx =>
    obtain ⟨inc, hctx⟩ := hctx
    refine ⟨?_, ?_⟩
    · rw [hctx, hslot]
      exact h.nextEpoch
    · rw [hctx, hslot, hexit]
      exact h.queue

theorem run {state state' : CachedBeaconState β} (h : ExitQueueInv state)
    (hrun : Relation.ReflTransGen ExitStep state state') : ExitQueueInv state' := by
  induction hrun with
  | refl => exact h
  | tail _ hstep ih => exact ih.step hstep

end ExitQueueInv

/-! ## The assigned exit epoch -/

/-- In every state of a run, the exit epoch assigned is the specification's unless the cache has
moved past a queue that was full and, with the limit raised since, no longer is. -/
theorem exitEpoch_eq_spec_iff {state₀ state : CachedBeaconState β} (h₀ : Created state₀)
    (hrun : Relation.ReflTransGen ExitStep state₀ state) {v : Validator}
    (hexit : v.exitEpoch = FAR_FUTURE_EPOCH) :
    (initiateValidatorExit state.config state.epochCtx v).2.exitEpoch
        = (specExitEpoch (computeEpochAtSlot state.slot) state.epochCtx.churnLimit
            state.validators : Nat) ↔
      state.epochCtx.exitQueueEpoch
          ≤ specExitQueueEpoch (computeEpochAtSlot state.slot) state.validators ∨
        0 < state.epochCtx.churnLimit ∧
          state.epochCtx.churnLimit
            ≤ specExitQueueChurn (computeEpochAtSlot state.slot) state.validators := by
  obtain ⟨qe, qc, hq, -, hassigned⟩ := initiateValidatorExit_spec state.config state.epochCtx hexit
  rw [hassigned, Nat.cast_inj]
  exact ((ExitQueueInv.of_created h₀).run hrun).queue.assigned_iff hq

end

/-! ## A limit that rises over a full queue -/

local instance fullQueuePreset : Preset := minimal

/-- A validator of 32 ETH. -/
def fullValidator (activationEpoch : Nat) (exitEpoch : WithTop Nat) : Validator where
  pubkey := 0
  withdrawalCredentials := 0
  effectiveBalance := 32000000000
  slashed := false
  activationEligibilityEpoch := 0
  activationEpoch := (activationEpoch : Nat)
  exitEpoch
  withdrawableEpoch := exitEpoch + (256 : Nat)

/-- The last slot of epoch 10. Of 159 active validators, four leave at epoch 15 and four at epoch
16, and one more validator is active from epoch 11. -/
def fullQueueState : CachedBeaconState (List Nat) where
  config := chainConfigMinimal
  slot := 87
  validators :=
    List.replicate 151 (fullValidator 0 FAR_FUTURE_EPOCH)
      ++ List.replicate 4 (fullValidator 0 (15 : Nat))
      ++ List.replicate 4 (fullValidator 0 (16 : Nat)) ++ [fullValidator 11 FAR_FUTURE_EPOCH]
  balanceList := List.replicate 160 32000000000
  slashings := List.replicate 64 0
  finalizedCheckpoint := ⟨8, 0⟩
  inactivityScores := List.replicate 160 0
  epochCtx :=
    { previousShuffling := ⟨9, List.range 159⟩
      currentShuffling := ⟨10, List.range 159⟩
      nextShuffling := ⟨11, List.range 160⟩
      effectiveBalanceIncrements := List.replicate 160 32 ++ List.replicate 864 0
      totalActiveBalanceIncrements := 5088
      churnLimit := 4
      exitQueueEpoch := 17
      exitQueueChurn := 0
      epoch := 10 }

theorem fullQueueState_created : Created fullQueueState := by
  unfold Created
  decide +kernel

/-- The state above at the first slot of epoch 11, where five may leave per epoch. -/
def fullQueueNext : CachedBeaconState (List Nat) :=
  { fullQueueState with
    slot := 88
    epochCtx := fullQueueState.epochCtx.afterProcessEpoch chainConfigMinimal 88 ⟨List.range 160, 5120⟩ }

theorem fullQueueNext_run : Relation.ReflTransGen ExitStep fullQueueState fullQueueNext :=
  .single (.epoch fullQueueState ⟨List.range 160, 5120⟩ (by decide))

/-- At epoch 11 there is room at epoch 16, and the exit is set for epoch 17. -/
theorem exitEpoch_ne_spec :
    ∃ state₀ state : CachedBeaconState (List Nat), Created state₀ ∧
      Relation.ReflTransGen ExitStep state₀ state ∧
      ∃ v ∈ state.validators, v.exitEpoch = FAR_FUTURE_EPOCH ∧
        (initiateValidatorExit state.config state.epochCtx v).2.exitEpoch = (17 : Nat) ∧
        specExitEpoch (computeEpochAtSlot state.slot) state.epochCtx.churnLimit state.validators
          = 16 :=
  ⟨fullQueueState, fullQueueNext, fullQueueState_created, fullQueueNext_run,
    fullValidator 0 FAR_FUTURE_EPOCH, by decide +kernel, rfl, by decide +kernel, by decide +kernel⟩

/-- Before the limit is raised both agree. -/
theorem exitEpoch_eq_spec_fullQueueState :
    (initiateValidatorExit fullQueueState.config fullQueueState.epochCtx
        (fullValidator 0 FAR_FUTURE_EPOCH)).2.exitEpoch
      = (specExitEpoch (computeEpochAtSlot fullQueueState.slot) fullQueueState.epochCtx.churnLimit
          fullQueueState.validators : Nat) :=
  (exitEpoch_eq_spec_iff fullQueueState_created .refl rfl).mpr (.inr (by decide +kernel))

end Lodestar.StateTransition
