import Lodestar.ForkChoice.Checkpoints

/-!
# The clock

At the start of an epoch the tick looks for the ancestor of the best justified
block at the finalized slot, and throws if there is none (`Detached`). Until then
the clock always goes on; `KeepsAttached` says which blocks and which pruning
leave it so.
-/

namespace Lodestar.ForkChoice

open Lodestar.Base Lodestar.StateTransition

section Main

variable [Preset] {this this' : ForkChoice}

/-- The call goes through, the clock stands at the slot and no attestation that waits is due. -/
def Completes (this : ForkChoice) (slot : Nat) : Prop :=
  ∃ this', (updateTime slot).run this = .ok ⟨⟩ this' ∧ this'.fcStore.currentSlot = slot ∧
    ∀ attestation ∈ this'.queuedAttestations, slot < attestation.slot

/-- The best justified checkpoint is to be taken over at the start of the next epoch, and its block
has no ancestor at the finalized slot. -/
def Detached (this : ForkChoice) : Prop :=
  this.fcStore.justifiedCheckpoint.epoch < this.fcStore.bestJustifiedCheckpoint.epoch ∧
    ¬ this.protoArray.Reaches this.fcStore.bestJustifiedCheckpoint.rootHex
      (computeStartSlotAtEpoch this.fcStore.finalizedCheckpoint.epoch)

/-- An epoch starts after the current slot, and at or before the given one. -/
def CrossesEpoch (this : ForkChoice) (slot : Nat) : Prop :=
  ∃ start, this.fcStore.currentSlot < start ∧ start ≤ slot ∧ start % SLOTS_PER_EPOCH = 0

/-! ## Ticks -/

theorem detached_setTime (time : Nat) : (this.setTime time).Detached ↔ this.Detached := by
  rw [Detached, Detached, protoArray_setTime, fcStore_setTime]

theorem pullsUp_error_iff (ht : this.protoArray.Tree) :
    (∃ e, this.pullsUp = .error e) ↔ this.Detached := by
  rw [Detached, ← getAncestor_isOk_iff ht, pullsUp]
  split
  · rename_i hlt
    cases this.getAncestor this.fcStore.bestJustifiedCheckpoint.rootHex
        (computeStartSlotAtEpoch this.fcStore.finalizedCheckpoint.epoch) with
    | error e =>
      constructor
      · intro _
        refine ⟨hlt, ?_⟩
        rintro ⟨root, hroot⟩
        cases hroot
      · intro _
        exact ⟨e, rfl⟩
    | ok root =>
      constructor
      · rintro ⟨e, he⟩
        cases he
      · intro hdetached
        exact absurd ⟨root, rfl⟩ hdetached.2
  · rename_i hlt
    constructor
    · rintro ⟨e, he⟩
      cases he
    · intro hdetached
      exact absurd hdetached.1 hlt

theorem not_detached_pulledUp (pulls : Bool) (h : ¬ this.Detached) :
    ¬ (this.pulledUp pulls).Detached := by
  rw [Detached, protoArray_pulledUp, fcStore_pulledUp]
  cases pulls with
  | false => exact h
  | true => exact fun hpulled => absurd hpulled.1 (lt_irrefl _)

/-- What a tick changes as far as the next ones can tell. -/
structure Ticked (this this' : ForkChoice) : Prop where
  currentSlot : this'.fcStore.currentSlot = this.fcStore.currentSlot + 1
  queuedAttestations : this'.queuedAttestations = this.queuedAttestations
  protoArray : this'.protoArray = this.protoArray
  detached : this'.Detached ↔ this.Detached

theorem onTick_cases (ht : this.protoArray.Tree) :
    ((∃ e this', (onTick (this.fcStore.currentSlot + 1)).run this = .error e this') ∧
      this.Detached ∧ (this.fcStore.currentSlot + 1) % SLOTS_PER_EPOCH = 0) ∨
    ∃ this', (onTick (this.fcStore.currentSlot + 1)).run this = .ok ⟨⟩ this' ∧
      ¬ (this.Detached ∧ (this.fcStore.currentSlot + 1) % SLOTS_PER_EPOCH = 0) ∧
      Ticked this this' := by
  rw [onTick_run]
  have hset : (this.setTime (this.fcStore.currentSlot + 1)).fcStore.currentSlot
      = this.fcStore.currentSlot + 1 := by rw [fcStore_setTime]
  by_cases hepoch : (this.fcStore.currentSlot + 1) % SLOTS_PER_EPOCH = 0
  · rw [if_pos hepoch, startEpoch_run]
    have hiff : (∃ e, (this.setTime (this.fcStore.currentSlot + 1)).pullsUp = .error e) ↔ _ :=
      pullsUp_error_iff (by rwa [protoArray_setTime])
    rw [detached_setTime] at hiff
    cases hpulls : (this.setTime (this.fcStore.currentSlot + 1)).pullsUp with
    | error e => exact .inl ⟨⟨e, _, rfl⟩, hiff.mp ⟨e, hpulls⟩, hepoch⟩
    | ok pulls =>
      have hnot : ¬ this.Detached := by
        rw [← hiff, hpulls]
        exact nofun
      refine .inr ⟨_, rfl, fun h => hnot h.1, ⟨?_, ?_, ?_, ?_⟩⟩
      · rw [fcStore_pulledUp]
        exact hset
      · rw [queuedAttestations_pulledUp, queuedAttestations_setTime]
      · rw [protoArray_pulledUp, protoArray_setTime]
      · have hnot' := not_detached_pulledUp pulls
          (mt (detached_setTime (this.fcStore.currentSlot + 1)).mp hnot)
        exact iff_of_false hnot' hnot
  · rw [if_neg hepoch]
    exact .inr ⟨_, rfl, fun h => hepoch h.2, ⟨hset, queuedAttestations_setTime _,
      protoArray_setTime _, detached_setTime _⟩⟩

/-- The ticks go through unless an epoch starts while the best justified block is detached. -/
theorem tickSlots_cases (slots : Nat) (ht : this.protoArray.Tree) :
    ((∃ e this', (tickSlots slots).run this = .error e this') ∧
      this.Detached ∧ this.CrossesEpoch (this.fcStore.currentSlot + slots)) ∨
    ∃ this', (tickSlots slots).run this = .ok ⟨⟩ this' ∧
      ¬ (this.Detached ∧ this.CrossesEpoch (this.fcStore.currentSlot + slots)) ∧
      this'.fcStore.currentSlot = this.fcStore.currentSlot + slots ∧
      this'.queuedAttestations = this.queuedAttestations := by
  induction slots generalizing this with
  | zero =>
    refine .inr ⟨this, rfl, ?_, rfl, rfl⟩
    rintro ⟨-, start, hlt, hle, -⟩
    omega
  | succ slots ih =>
    rw [tickSlots_succ_run]
    rcases onTick_cases ht with ⟨⟨e, that, hrun⟩, hdetached, hepoch⟩ | ⟨that, hrun, hno, hticked⟩
    · rw [hrun]
      exact .inl ⟨⟨e, that, rfl⟩, hdetached, _, by omega, by omega, hepoch⟩
    · rw [hrun]
      have hslots : that.fcStore.currentSlot + slots = this.fcStore.currentSlot + (slots + 1) := by
        rw [hticked.currentSlot]
        omega
      -- the epochs that start later are those after the first tick
      have hlater : this.Detached ∧ this.CrossesEpoch (this.fcStore.currentSlot + (slots + 1)) ↔
          that.Detached ∧ that.CrossesEpoch (that.fcStore.currentSlot + slots) := by
        rw [hticked.detached, hslots, CrossesEpoch, CrossesEpoch, hticked.currentSlot]
        refine and_congr_right fun hdetached => ⟨?_, ?_⟩
        · rintro ⟨start, hlt, hle, hstart⟩
          refine ⟨start, ?_, hle, hstart⟩
          by_contra hnot
          obtain rfl : start = this.fcStore.currentSlot + 1 := by omega
          exact hno ⟨hdetached, hstart⟩
        · rintro ⟨start, hlt, hle, hstart⟩
          exact ⟨start, by omega, hle, hstart⟩
      rcases ih (show that.protoArray.Tree by rwa [hticked.protoArray]) with
        ⟨herror, hcrosses⟩ | ⟨this', hok, hnot, hslot, hqueue⟩
      · exact .inl ⟨herror, hlater.mpr hcrosses⟩
      · exact .inr ⟨this', hok, mt hlater.mp hnot, hslot.trans hslots,
          hqueue.trans hticked.queuedAttestations⟩

theorem completes_iff (ht : this.protoArray.Tree) {slot : Nat}
    (hslot : this.fcStore.currentSlot ≤ slot) :
    this.Completes slot ↔ ¬ (this.Detached ∧ this.CrossesEpoch slot) := by
  have hsum : this.fcStore.currentSlot + (slot - this.fcStore.currentSlot) = slot := by omega
  have hcases := tickSlots_cases (slot - this.fcStore.currentSlot) ht
  rw [hsum] at hcases
  rw [Completes, updateTime_run]
  rcases hcases with ⟨⟨e, that, hrun⟩, hcrosses⟩ | ⟨that, hrun, hnot, hcurrent, hqueue⟩
  · rw [hrun]
    exact ⟨fun ⟨_, h, _⟩ => (by cases h), fun h => absurd hcrosses h⟩
  · rw [hrun]
    refine ⟨fun _ => hnot, fun _ => ⟨that.drained, rfl, ?_, ?_⟩⟩
    · rw [fcStore_drained, hcurrent]
    · intro attestation hmem
      rw [queuedAttestations_drained, hcurrent] at hmem
      have hlater := (List.mem_filter.mp hmem).2
      simpa using hlater

/-! ## Calls that keep the best justified block attached -/

/-- The calls of a run; pruning is told the finalized root. -/
def IsListed (this : ForkChoice) : Call → Prop
  | .prune finalizedRoot => finalizedRoot = this.fcStore.finalizedCheckpoint.rootHex
  | .setPruneThreshold _ => False
  | _ => True

/-- A best justified checkpoint that is not to be taken over at once has an ancestor at the
finalized slot. -/
structure BlockKeepsAttached (this : ForkChoice) (state : BeaconState) : Prop where
  raised : this.RaisesBest state → ¬ this.RaisesFinalized state →
    this.takesJustified state = .ok false →
      this.protoArray.Reaches state.currentJustifiedCheckpoint.root
        (computeStartSlotAtEpoch this.fcStore.finalizedCheckpoint.epoch)
  kept : this.RaisesFinalized state →
    state.currentJustifiedCheckpoint.epoch < this.fcStore.bestJustifiedCheckpoint.epoch →
      this.protoArray.Reaches this.fcStore.bestJustifiedCheckpoint.rootHex
        (computeStartSlotAtEpoch state.finalizedCheckpoint.epoch)

/-- No block justifies or finalizes what would detach the best justified block, and it is not
pruned away while it is waiting. -/
def KeepsAttached (this : ForkChoice) : Call → Prop
  | .onBlock _ state _ => this.BlockKeepsAttached state
  | .prune finalizedRoot =>
    this.fcStore.justifiedCheckpoint.epoch < this.fcStore.bestJustifiedCheckpoint.epoch →
      ∀ k, this.protoArray.indices[finalizedRoot]? = some k → this.protoArray.pruneThreshold ≤ k →
        this.protoArray.ReachesFrom k this.fcStore.bestJustifiedCheckpoint.rootHex
          (computeStartSlotAtEpoch this.fcStore.finalizedCheckpoint.epoch)
  | _ => True

/-- A call of a run, which does not throw. -/
def CleanStep (Condition : ForkChoice → Call → Prop) (this this' : ForkChoice) : Prop :=
  ∃ call, this.IsListed call ∧ Condition this call ∧ errorOf (call.apply.run this) = none ∧
    stateOf (call.apply.run this) = this'

def AnyCall (_ : ForkChoice) (_ : Call) : Prop :=
  True

theorem Detached.congr (h : this'.Detached)
    (harray : ∀ slot, this.protoArray.Reaches this.fcStore.bestJustifiedCheckpoint.rootHex slot →
      this'.protoArray.Reaches this.fcStore.bestJustifiedCheckpoint.rootHex slot)
    (hstore : this'.fcStore = this.fcStore) : this.Detached := by
  rw [Detached, hstore] at h
  exact ⟨h.1, fun hreaches => h.2 (harray _ hreaches)⟩

theorem not_detached_of_onBlock (hw : this.protoArray.Wf) (h : ¬ this.Detached)
    {block : BeaconBlock} {state : BeaconState} {preCachedData : Option OnBlockPrecachedData}
    {u : Unit} (hkeeps : this.BlockKeepsAttached state)
    (hcall : (onBlock block state preCachedData).run this = .ok u this') : ¬ this'.Detached := by
  obtain ⟨-, balances, takes, execution, protoArray, htakes, harray, rfl⟩ := onBlock_ok hcall
  rintro ⟨hlt, hreaches⟩
  simp only [fcStore_withBoost] at hlt hreaches
  have hold : ∀ {root : RootHex} {slot : Nat}, this.protoArray.Reaches root slot →
      protoArray.Reaches root slot := fun hreaches => hreaches.onBlock hw harray
  rw [justifiedCheckpoint_withCheckpoints, bestJustifiedCheckpoint_withCheckpoints] at hlt
  rw [bestJustifiedCheckpoint_withCheckpoints, finalizedCheckpoint_withCheckpoints] at hreaches
  by_cases hf : this.RaisesFinalized state
  · rw [if_pos (.inr hf)] at hlt
    rw [if_pos hf] at hreaches
    by_cases hbest : this.RaisesBest state
    · rw [if_pos hbest] at hlt
      exact absurd hlt (lt_irrefl _)
    · rw [if_neg hbest] at hlt hreaches
      exact hreaches (hold (hkeeps.kept hf hlt))
  · rw [if_neg hf] at hreaches
    cases takes with
    | true =>
      rw [if_pos (.inl rfl)] at hlt
      by_cases hbest : this.RaisesBest state
      · rw [if_pos hbest] at hlt
        exact absurd hlt (lt_irrefl _)
      · -- the best checkpoint was already waiting
        rw [if_neg hbest] at hlt hreaches
        have hraises := raisesJustified_of_takes htakes
        exact h ⟨lt_trans hraises hlt, fun hreached => hreaches (hold hreached)⟩
    | false =>
      rw [if_neg fun hor => hor.elim Bool.false_ne_true hf] at hlt
      by_cases hbest : this.RaisesBest state
      · rw [if_pos hbest] at hreaches
        exact hreaches (hold (hkeeps.raised hbest hf htakes))
      · rw [if_neg hbest] at hlt hreaches
        exact h ⟨hlt, fun hreached => hreaches (hold hreached)⟩

theorem not_detached_of_step (hw : this.protoArray.Wf) (h : ¬ this.Detached)
    (hstep : CleanStep KeepsAttached this this') : ¬ this'.Detached := by
  obtain ⟨call, hlisted, hkeeps, hok, hstate⟩ := hstep
  obtain ⟨u, hrun⟩ := exists_ok_of_errorOf hok
  rw [hstate] at hrun
  cases call with
  | onBlock block state preCachedData => exact not_detached_of_onBlock hw h hkeeps hrun
  | onAttestation attestation =>
    rcases onAttestation_run this attestation with ⟨e, heq⟩ | ⟨-, heq⟩ | ⟨-, seen, heq⟩
    · cases hrun.symm.trans heq
    · cases hrun.symm.trans heq
      exact h
    · obtain ⟨queue, votes, synced, hqueue⟩ :=
        exists_withAttestation { this with validatedAttestationDatas := seen } attestation
      rw [hqueue] at heq
      cases hrun.symm.trans heq
      exact h
  | updateTime currentSlot =>
    refine updateTime_preserves (P := fun this => ¬ this.Detached) ?_ ?_ ?_ hrun h
    · exact fun this time => mt (detached_setTime time).mp
    · exact fun this pulls _ => not_detached_pulledUp pulls
    · intro this h hdrained
      exact h (hdrained.congr (fun slot => by rw [protoArray_drained]; exact id) fcStore_drained)
  | updateHead =>
    obtain ⟨node, that, hhead, hpure⟩ := eq_ok_of_run_bind hrun
    obtain ⟨hstore, -, hmoved⟩ := updateHead_ok hhead
    cases hpure
    refine fun hdetached => h (hdetached.congr (fun slot hreaches => ?_) hstore)
    rcases hmoved with heq | ⟨changes, hcall⟩
    · rwa [heq]
    · exact hreaches.applyScoreChanges hw hcall
  | prune finalizedRoot =>
    obtain ⟨removed, that, hprune, hpure⟩ := eq_ok_of_run_bind hrun
    cases hpure
    rw [prune_run] at hprune
    cases hcall : this.protoArray.maybePrune finalizedRoot with
    | error e =>
      rw [hcall] at hprune
      cases hprune
    | ok result =>
      rw [hcall] at hprune
      cases hprune
      rintro ⟨hlt, hreaches⟩
      have hreached : this.protoArray.Reaches this.fcStore.bestJustifiedCheckpoint.rootHex
          (computeStartSlotAtEpoch this.fcStore.finalizedCheckpoint.epoch) := by
        by_contra hnot
        exact h ⟨hlt, hnot⟩
      exact hreaches (hreached.maybePrune hw hcall (hkeeps hlt))
  | setPruneThreshold threshold => exact hlisted.elim

/-! ## The clock along a run -/

instance (this : ForkChoice) : ∀ call : Call, Decidable (this.IsListed call)
  | .prune finalizedRoot =>
    inferInstanceAs (Decidable (finalizedRoot = this.fcStore.finalizedCheckpoint.rootHex))
  | .setPruneThreshold _ => inferInstanceAs (Decidable False)
  | .onBlock .. | .onAttestation _ | .updateTime _ | .updateHead => inferInstanceAs (Decidable True)

instance (this : ForkChoice) (call : Call) : Decidable (AnyCall this call) :=
  inferInstanceAs (Decidable True)

theorem Created.not_detached (h : Created this) : ¬ this.Detached := by
  obtain ⟨config, currentSlot, justified, finalized, protoArray, balances, boost, -, hnew⟩ := h
  rw [Detached, (new_ok hnew).1]
  exact fun hdetached => absurd hdetached.1 (lt_irrefl _)

theorem CleanStep.step {Condition : ForkChoice → Call → Prop}
    (h : CleanStep Condition this this') : Step this this' := by
  obtain ⟨call, -, -, -, hstate⟩ := h
  exact ⟨call, hstate⟩

/-- The clock goes on to a slot if and only if no epoch starts on the way while the best justified
block is detached; along a run whose calls keep it attached, the clock always goes on. -/
theorem updateTime_completes :
    (∀ this : ForkChoice, this.Reachable → ∀ slot ≥ this.fcStore.currentSlot,
      this.Completes slot ↔ ¬ (this.Detached ∧ this.CrossesEpoch slot)) ∧
    ∀ start this : ForkChoice, Created start →
      Relation.ReflTransGen (CleanStep KeepsAttached) start this →
        ∀ slot ≥ this.fcStore.currentSlot, this.Completes slot := by
  constructor
  · exact fun this hr slot => completes_iff hr.protoArray_reachable.wf.toTree
  · intro start this hcreated hrun
    have hkeeps : this.Reachable ∧ ¬ this.Detached := by
      induction hrun with
      | refl => exact ⟨⟨start, hcreated, .refl⟩, hcreated.not_detached⟩
      | tail _ hstep ih =>
        obtain ⟨hr, hnot⟩ := ih
        exact ⟨hr.step hstep.step, not_detached_of_step hr.protoArray_reachable.wf hnot hstep⟩
    intro slot hslot
    exact (completes_iff hkeeps.1.protoArray_reachable.wf.toTree hslot).mpr fun h => hkeeps.2 h.1

end Main

/-! ## A best justified block that is pruned away -/

attribute [local instance] minimal

/-- Two branches from genesis, the blocks `1` and `4` and the blocks `2`, `3` and `5`. The block
`1` is justified for epoch 3 while the clock is past the safe slots, and `2` is finalized. -/
def prunedCalls : List Call :=
  [.updateTime 17,
    .onBlock (plainBlock 9 1 0xaa) (plainState 9 ⟨0, 0xaa⟩ ⟨0, 0xaa⟩) (some (lateData none)),
    .onBlock (plainBlock 8 2 0xaa) (plainState 8 ⟨0, 0xaa⟩ ⟨0, 0xaa⟩) (some (lateData none)),
    .onBlock (plainBlock 17 3 2) (plainState 17 ⟨1, 2⟩ ⟨0, 0xaa⟩) (some (lateData (some [1]))),
    .updateTime 34,
    .onBlock (plainBlock 33 4 1) (plainState 33 ⟨3, 1⟩ ⟨0, 0xaa⟩) (some (lateData (some [1]))),
    .onBlock (plainBlock 25 5 3) (plainState 25 ⟨2, 2⟩ ⟨1, 2⟩) (some (lateData (some [1]))),
    .prune 2]

def prunedChoice : ForkChoice := (genesisChoice true).afterCalls prunedCalls

theorem prunedChoice_run :
    Relation.ReflTransGen (CleanStep AnyCall) (genesisChoice true) prunedChoice := by
  have hcalls : ForallCalls (fun this call => this.IsListed call ∧ AnyCall this call ∧
      errorOf (call.apply.run this) = none) (genesisChoice true) prunedCalls := by decide +kernel
  exact hcalls.run fun this call h => ⟨call, h.1, h.2.1, h.2.2, rfl⟩

/-- At the start of epoch 5 the clock stops. -/
theorem prunedChoice_not_completes :
    Created (genesisChoice true) ∧
      Relation.ReflTransGen (CleanStep AnyCall) (genesisChoice true) prunedChoice ∧
      prunedChoice.fcStore.currentSlot ≤ 40 ∧ ¬ prunedChoice.Completes 40 := by
  have hthrows : errorOf ((updateTime 40).run prunedChoice) = some (.MISSING_PROTO_ARRAY_BLOCK 1) := by
    decide +kernel
  refine ⟨genesisChoice_created true, prunedChoice_run, by decide +kernel, ?_⟩
  rintro ⟨this', hok, -⟩
  rw [hok] at hthrows
  cases hthrows

/-- Two blocks, the second of which justifies the first in a safe slot. -/
def safeCalls : List Call :=
  [.updateTime 17,
    .onBlock (plainBlock 8 1 0xaa) (plainState 8 ⟨0, 0xaa⟩ ⟨0, 0xaa⟩) (some (lateData none)),
    .onBlock (plainBlock 17 2 1) (plainState 17 ⟨1, 1⟩ ⟨0, 0xaa⟩) (some (lateData (some [1])))]

theorem safeCalls_completes :
    ((genesisChoice true).afterCalls safeCalls).Completes 1000 := by
  have hcalls : ForallCalls (fun this call => this.IsListed call ∧ KeepsAttached this call ∧
      errorOf (call.apply.run this) = none) (genesisChoice true) safeCalls := by
    refine ⟨⟨trivial, trivial, ?_⟩, ⟨trivial, ⟨?_, ?_⟩, ?_⟩, ⟨trivial, ⟨?_, ?_⟩, ?_⟩, trivial⟩
    · decide +kernel
    · exact fun hraises => absurd hraises (by decide +kernel)
    · exact fun hraises => absurd hraises (by decide +kernel)
    · decide +kernel
    · exact fun _ _ htakes => absurd htakes (by decide +kernel)
    · exact fun hraises => absurd hraises (by decide +kernel)
    · decide +kernel
  exact updateTime_completes.2 (genesisChoice true) _ (genesisChoice_created true)
    (hcalls.run fun this call h => ⟨call, h.1, h.2.1, h.2.2, rfl⟩) 1000 (by decide +kernel)

end Lodestar.ForkChoice
