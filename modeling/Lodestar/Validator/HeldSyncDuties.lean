import Lodestar.Validator.SyncDutyStretches

/-!
# Sync committee duties that are held

Each answer replaces the map of its period. So the map holds the duties of the
validators of the last request alone: the poll of the known indices and that of
the new ones drop each other's duties.
-/

namespace Lodestar.Validator.SyncCommittee

open Lodestar.Base Lodestar.StateTransition

section

variable [Preset]

/-- All requests succeed, and the duties are those of the committees, for the validators that are
asked for. What another caller's poll returns is known. -/
def IsConsistent (isMember : Nat → Nat → Prop) (loop : SyncLoop) : SyncLabel → Prop
  | .answer _ ⟨.getSyncCommitteeDuties epoch indexArr, r⟩ => ∃ syncDuties, r = .ok syncDuties ∧
      ∀ index, (∃ duty ∈ (syncDuties : SyncDuties).data, duty.validatorIndex = index) ↔
        index ∈ indexArr ∧ isMember (computeSyncPeriodAtEpoch epoch) index
  | .answer _ ⟨.pollValidatorIndicesPromise, r⟩ => ∃ newIndices : List Nat, r = .ok newIndices ∧
      ∀ index ∈ newIndices, loop.store.hasValidatorIndex index = true
  | .answer _ ⟨_, r⟩ => ∃ a, r = .ok a
  | _ => True

/-- The indices that the duties of the period, if they come with the label, were asked for. -/
def asked (period : Nat) : SyncLabel → Option (List Nat)
  | .answer _ ⟨.getSyncCommitteeDuties epoch indexArr, .ok _⟩ =>
    if computeSyncPeriodAtEpoch epoch = period then some indexArr else none
  | _ => none

/-- The request for the period that was answered last. -/
def lastAsked (period : Nat) (labels : List SyncLabel) : Option (List Nat) :=
  (labels.filterMap (asked period)).getLast?

/-- The epochs of the prunes. -/
def prunedEpochs (labels : List SyncLabel) : List Nat :=
  labels.filterMap fun
    | .call (.pruneOldDuties currentEpoch) => some currentEpoch
    | _ => none

/-- A duty is held for every known validator in the committee of the period. -/
def HoldsDuties (isMember : Nat → Nat → Prop) (this : SyncServices) (period : Nat) : Prop :=
  ∀ index, this.hasValidatorIndex index = true → isMember period index →
    ∃ dutiesByIndex dutyAtPeriod, this.dutiesByIndexByPeriod.get period = some dutiesByIndex ∧
      dutiesByIndex.get index = some dutyAtPeriod ∧ dutyAtPeriod.duty.validatorIndex = index

/-- The map of a period, by the request that was answered last. -/
def HeldFor (isMember : Nat → Nat → Prop) (this : SyncServices) (period : Nat) :
    Option (List Nat) → Prop
  | none => this.dutiesByIndexByPeriod.get period = none
  | some indexArr => (∀ index ∈ indexArr, this.hasValidatorIndex index = true) ∧
      ∃ dutiesByIndex, this.dutiesByIndexByPeriod.get period = some dutiesByIndex ∧
        (∀ index, (dutiesByIndex.get index).isSome = true ↔
          index ∈ indexArr ∧ isMember period index) ∧
        ∀ index dutyAtPeriod, dutiesByIndex.get index = some dutyAtPeriod →
          dutyAtPeriod.duty.validatorIndex = index

/-- What the run keeps: the duties that are asked for are of known validators. -/
structure SyncInv (isMember : Nat → Nat → Prop) (period : Nat) (labels : List SyncLabel)
    (loop : SyncLoop) : Prop where
  requests : ∀ call ∈ loop.calls, ∀ epoch indexArr s k,
    call.turn = .await (.getSyncCommitteeDuties epoch indexArr) s k →
      ∀ index ∈ indexArr, loop.store.hasValidatorIndex index = true
  promises : ∀ call ∈ loop.calls, ∀ newIndices : List Nat,
    ⟨.pollValidatorIndicesPromise, Except.ok newIndices⟩ ∈ call.answers →
      ∀ index ∈ newIndices, loop.store.hasValidatorIndex index = true
  held : HeldFor isMember loop.store period (lastAsked period labels)

variable {this that : SyncServices} {indexArr : List Nat} {isMember : Nat → Nat → Prop}
  {period currentEpoch : Nat} {labels : List SyncLabel}
  {loop loop' : SyncLoop} {l : SyncLabel} {i : Nat}
  {call : Call SyncDutyTask SyncServices SyncDutyQuery SyncDutyAnswer String Unit}

theorem lastAsked_concat :
    lastAsked period (labels ++ [l]) = (asked period l).or (lastAsked period labels) := by
  unfold lastAsked
  rw [List.filterMap_append]
  cases h : asked period l with
  | none => simp [h]
  | some indexArr => simp [h]

theorem get_pruneOldDuties {epoch : Nat} (hepoch : epoch ≤ currentEpoch)
    (hperiod : computeSyncPeriodAtEpoch currentEpoch ≤ period) :
    (this.pruneOldDuties epoch).dutiesByIndexByPeriod.get period =
      this.dutiesByIndexByPeriod.get period := by
  refine OrderedMap.get_foldl_delete_of_notMem fun hmem => ?_
  have hold := of_decide_eq_true (List.mem_filter.1 hmem).2
  have hle : computeSyncPeriodAtEpoch epoch ≤ computeSyncPeriodAtEpoch currentEpoch :=
    Nat.div_le_div_right hepoch
  unfold HISTORICAL_DUTIES_PERIODS at hold
  omega

omit [Preset] in
theorem HeldFor.mono {asked : Option (List Nat)} (h : HeldFor isMember this period asked)
    (hduties : that.dutiesByIndexByPeriod.get period = this.dutiesByIndexByPeriod.get period)
    (hknows : this.Knows that) : HeldFor isMember that period asked := by
  cases asked with
  | none => exact hduties.trans h
  | some indexArr =>
    obtain ⟨hknown, dutiesByIndex, hget, hmembers, hindex⟩ := h
    exact ⟨fun index hmem => hknows index (hknown index hmem), dutiesByIndex, hduties.trans hget,
      hmembers, hindex⟩

theorem HeldFor.of_answer {epoch : Nat} {syncDuties : SyncDuties}
    (hduties : that.dutiesByIndexByPeriod = this.dutiesByIndexByPeriod.set
      (computeSyncPeriodAtEpoch epoch) (this.localDuties syncDuties))
    (hknows : this.Knows that) (hknown : ∀ index ∈ indexArr, this.hasValidatorIndex index = true)
    (hconsistent : ∀ index, (∃ duty ∈ syncDuties.data, duty.validatorIndex = index) ↔
      index ∈ indexArr ∧ isMember (computeSyncPeriodAtEpoch epoch) index) :
    HeldFor isMember that (computeSyncPeriodAtEpoch epoch) (some indexArr) := by
  refine ⟨fun index hindex => hknows index (hknown index hindex), this.localDuties syncDuties, ?_,
    fun index => ?_, fun index dutyAtPeriod hget =>
      SyncServices.localDuties_validatorIndex this syncDuties hget⟩
  · rw [hduties, OrderedMap.get_set_self]
  · rw [SyncServices.isSome_get_localDuties, hconsistent]
    exact ⟨fun h => h.2, fun h => ⟨hknown index h.1, h⟩⟩

/-! ## Steps -/

theorem stretch_cases
    (h : EventLoop.Stretch SyncServices.Knows AwaitsKnown TaskEnds l loop loop' i call) :
    SoFar call.answers loop.store loop'.store ∨
      ∃ epoch, l = .call (.pruneOldDuties epoch) ∧
        loop'.store = loop.store.pruneOldDuties epoch := by
  have hsat := h.sat
  have hstarted := h.started
  rw [h.store]
  generalize call.turn = turn at hsat
  cases turn with
  | await q s k => exact .inl hsat.1.1
  | done r s =>
    cases hargs : call.args with
    | pruneOldDuties epoch =>
      rw [hargs] at hsat
      obtain ⟨hanswers, hs⟩ := hsat
      right
      cases l with
      | call args => exact ⟨epoch, congrArg _ (hstarted.2.1.symm.trans hargs), hs⟩
      | answer j r =>
        obtain ⟨-, old, s, k, -, -, -, heq⟩ := hstarted
        rw [hanswers] at heq
        simp at heq
      | act d => exact d.elim
    | _ =>
      rw [hargs] at hsat
      exact .inl hsat

theorem SyncInv.start : SyncInv isMember period [] ⟨.new, []⟩ where
  requests := fun _ hcall => by cases hcall
  promises := fun _ hcall => by cases hcall
  held := rfl

theorem SyncInv.promises_step (h : SyncInv isMember period labels loop)
    (hC : IsConsistent isMember loop l) (hknows : loop.store.Knows loop'.store)
    (hstretch : EventLoop.Stretch SyncServices.Knows AwaitsKnown TaskEnds l loop loop' i call)
    (other : Call SyncDutyTask SyncServices SyncDutyQuery SyncDutyAnswer String Unit)
    (hother : other ∈ loop'.calls) (newIndices : List Nat)
    (hmem : ⟨.pollValidatorIndicesPromise, Except.ok newIndices⟩ ∈ other.answers) (index : Nat)
    (hindex : index ∈ newIndices) : loop'.store.hasValidatorIndex index = true := by
  refine hknows index ?_
  rcases hstretch.mem_calls hother with rfl | hother
  · have hstarted := hstretch.started
    cases l with
    | call args =>
      rw [hstarted.2.2] at hmem
      cases hmem
    | answer j r =>
      obtain ⟨-, old, s, k, hold, -, -, heq⟩ := hstarted
      rw [heq] at hmem
      rcases List.mem_append.1 hmem with hmem | hmem
      · exact h.promises old (List.mem_of_getElem? hold) newIndices hmem index hindex
      · obtain rfl := List.mem_singleton.1 hmem
        obtain ⟨newIndices', heq, hknown⟩ := hC
        cases heq
        exact hknown index hindex
    | act d => exact d.elim
  · exact h.promises other hother newIndices hmem index hindex

theorem SyncInv.requests_step (h : SyncInv isMember period labels loop)
    (hpromises : ∀ other ∈ loop'.calls, ∀ newIndices : List Nat,
      ⟨.pollValidatorIndicesPromise, Except.ok newIndices⟩ ∈ other.answers →
        ∀ index ∈ newIndices, loop'.store.hasValidatorIndex index = true)
    (hknows : loop.store.Knows loop'.store)
    (hstretch : EventLoop.Stretch SyncServices.Knows AwaitsKnown TaskEnds l loop loop' i call)
    (other : Call SyncDutyTask SyncServices SyncDutyQuery SyncDutyAnswer String Unit)
    (hother : other ∈ loop'.calls) (epoch : Nat) (indexArr : List Nat) (s : SyncServices)
    (k : SyncDutyAnswer (.getSyncCommitteeDuties epoch indexArr) → SyncTask Unit)
    (hturn : other.turn = .await (.getSyncCommitteeDuties epoch indexArr) s k) (index : Nat)
    (hindex : index ∈ indexArr) : loop'.store.hasValidatorIndex index = true := by
  rcases hstretch.mem_calls hother with rfl | hold
  · have hsat := hstretch.sat
    have hstore := hstretch.store
    rw [hturn] at hsat hstore
    rcases hsat.1.2 epoch indexArr rfl index hindex with hknown | ⟨newIndices, hmem, hnew⟩
    · rw [hstore]
      exact hknown
    · exact hpromises other hother newIndices hmem index hnew
  · exact hknows index (h.requests other hold epoch indexArr s k hturn index hindex)

theorem SyncInv.held_step (h : SyncInv isMember period labels loop)
    (hC : IsConsistent isMember loop l)
    (hprune : ∀ epoch, l = .call (.pruneOldDuties epoch) → epoch ≤ currentEpoch)
    (hperiod : computeSyncPeriodAtEpoch currentEpoch ≤ period)
    (hknows : loop.store.Knows loop'.store)
    (hstretch : EventLoop.Stretch SyncServices.Knows AwaitsKnown TaskEnds l loop loop' i call) :
    HeldFor isMember loop'.store period (lastAsked period (labels ++ [l])) := by
  have hsame : asked period l = none →
      loop'.store.dutiesByIndexByPeriod.get period = loop.store.dutiesByIndexByPeriod.get period →
      HeldFor isMember loop'.store period (lastAsked period (labels ++ [l])) := by
    intro hnone hget
    rw [lastAsked_concat, hnone, Option.none_or]
    exact h.held.mono hget hknows
  rcases stretch_cases hstretch with ⟨hafter, -⟩ | ⟨epoch, rfl, hstore⟩
  · have hstarted := hstretch.started
    cases l with
    | call args =>
      rw [hstarted.2.2] at hafter
      exact hsame rfl (congrArg (·.get period) hafter)
    | answer j r =>
      obtain ⟨-, old, s, k, hold, hturn, -, heq⟩ := hstarted
      unfold DutiesAfter at hafter
      rw [heq, List.getLast?_concat] at hafter
      obtain ⟨q, a⟩ := r
      cases q with
      | getSyncCommitteeDuties epoch indexArr =>
        obtain ⟨syncDuties, rfl, hconsistent⟩ := hC
        have hknown := h.requests old (List.mem_of_getElem? hold) epoch indexArr s k hturn
        by_cases heq : computeSyncPeriodAtEpoch epoch = period
        · subst heq
          have hasked : asked (computeSyncPeriodAtEpoch epoch)
              (.answer j ⟨.getSyncCommitteeDuties epoch indexArr, .ok syncDuties⟩) =
                some indexArr := if_pos rfl
          rw [lastAsked_concat, hasked, Option.some_or]
          exact HeldFor.of_answer hafter hknows hknown hconsistent
        · refine hsame (if_neg heq) ?_
          rw [hafter, OrderedMap.get_set_of_ne (Ne.symm heq)]
      | _ => exact hsame rfl (congrArg (·.get period) hafter)
    | act d => exact d.elim
  · refine hsame rfl ?_
    rw [hstore]
    exact get_pruneOldDuties (hprune epoch rfl) hperiod

/-- The invariant holds in every run. -/
theorem SyncInv.of_run {votingPubkeys : List BLSPubkey}
    (hrun : SyncDutiesRun votingPubkeys (IsConsistent isMember) labels loop)
    (hprune : ∀ epoch ∈ prunedEpochs labels, epoch ≤ currentEpoch)
    (hperiod : computeSyncPeriodAtEpoch currentEpoch ≤ period) :
    SyncInv isMember period labels loop := by
  induction hrun with
  | start => exact SyncInv.start
  | @step labels loop loop' l hrun hC hstep ih =>
    unfold prunedEpochs at hprune
    rw [List.filterMap_append] at hprune
    have hinv := ih fun epoch hmem => hprune epoch (List.mem_append_left _ hmem)
    have hguaranteed := hrun.guaranteed (guarantees_run votingPubkeys)
    have hknows := hstep.rely (guarantees_run votingPubkeys) hguaranteed
    rcases hstep.cases (guarantees_run votingPubkeys) hguaranteed with ⟨d, -⟩ | ⟨i, call, hstretch⟩
    · exact d.elim
    have hpromises := hinv.promises_step hC hknows hstretch
    refine ⟨hinv.requests_step hpromises hknows hstretch, hpromises, ?_⟩
    refine hinv.held_step hC (fun epoch hl => hprune epoch ?_) hperiod hknows hstretch
    subst hl
    exact List.mem_append_right _ List.mem_cons_self

/-! ## Held duties -/

omit [Preset] in
theorem HeldFor.holdsDuties_iff {asked : Option (List Nat)} (h : HeldFor isMember this period asked) :
    HoldsDuties isMember this period ↔
      ∀ index, this.hasValidatorIndex index = true → isMember period index →
        ∃ indexArr, asked = some indexArr ∧ index ∈ indexArr := by
  refine forall_congr' fun index => imp_congr_right fun _ => imp_congr_right fun hmember => ?_
  cases asked with
  | none =>
    constructor
    · rintro ⟨dutiesByIndex, _, hget, -⟩
      rw [show this.dutiesByIndexByPeriod.get period = none from h] at hget
      cases hget
    · rintro ⟨indexArr, heq, -⟩
      cases heq
  | some indexArr =>
    obtain ⟨-, dutiesByIndex, hget, hmembers, hvalidatorIndex⟩ := h
    constructor
    · rintro ⟨dutiesByIndex', dutyAtPeriod, hget', hduty, -⟩
      obtain rfl := Option.some.inj (hget.symm.trans hget')
      exact ⟨indexArr, rfl, ((hmembers index).1 (by rw [hduty]; rfl)).1⟩
    · rintro ⟨indexArr', heq, hindex⟩
      cases heq
      obtain ⟨dutyAtPeriod, hduty⟩ := Option.isSome_iff_exists.1 ((hmembers index).2 ⟨hindex, hmember⟩)
      exact ⟨dutiesByIndex, dutyAtPeriod, hget, hduty, hvalidatorIndex index dutyAtPeriod hduty⟩

/-- In every run, a duty is held for every known member of the committee of the current or the next
period if and only if the request that was answered last names them all. -/
theorem holds_sync_duties_iff (votingPubkeys : List BLSPubkey) (isMember : Nat → Nat → Prop)
    (labels : List SyncLabel) (loop : SyncLoop)
    (hrun : SyncDutiesRun votingPubkeys (IsConsistent isMember) labels loop) (currentEpoch : Nat)
    (hprune : ∀ epoch ∈ prunedEpochs labels, epoch ≤ currentEpoch) (period : Nat)
    (hperiod : period = computeSyncPeriodAtEpoch currentEpoch ∨
      period = computeSyncPeriodAtEpoch currentEpoch + 1) :
    HoldsDuties isMember loop.store period ↔
      ∀ index, loop.store.hasValidatorIndex index = true → isMember period index →
        ∃ indexArr, lastAsked period labels = some indexArr ∧ index ∈ indexArr :=
  (SyncInv.of_run hrun hprune (by omega)).held.holdsDuties_iff

end

/-! ## Two polls at once -/

attribute [local instance] minimal

/-- The committee of each period has the validators 1 and 2. -/
def bothMembers (_ index : Nat) : Prop := index = 1 ∨ index = 2

/-- The node finds one of the validators at a time. -/
def oneByOne : (q : SyncDutyQuery) → SyncDutyAnswer q
  | .getSyncCommitteeDuties _ indexArr => .ok ⟨0xaa,
      (indexArr.filter fun index => index = 1 ∨ index = 2).map fun index =>
        ⟨BitVec.ofNat 384 index, index, [index]⟩⟩
  | .prepareSyncCommitteeSubnets _ => .ok ()
  | .getStateValidators indices => .ok ((indices.take 1).map fun pubkey => ⟨pubkey.toNat, pubkey⟩)
  | .pollValidatorIndicesPromise => .ok []

theorem isConsistent_oneByOne (loop : SyncLoop) (i : Nat) (q : SyncDutyQuery) :
    IsConsistent bothMembers loop (.answer i ⟨q, oneByOne q⟩) := by
  cases q with
  | getSyncCommitteeDuties epoch indexArr =>
    refine ⟨_, rfl, fun index => ?_⟩
    simp [bothMembers]
  | prepareSyncCommitteeSubnets => exact ⟨_, rfl⟩
  | getStateValidators indices => exact ⟨_, rfl⟩
  | pollValidatorIndicesPromise => exact ⟨[], rfl, fun index hindex => by cases hindex⟩

/-- A run with the node. -/
def runTasks (events : List (EventLoop.Event SyncDutyTask Empty)) : List SyncLabel × SyncLoop :=
  EventLoop.exec (SyncDutyTask.run [0x1, 0x2]) (fun (_ : Empty) this => this) oneByOne events
    ⟨.new, []⟩

theorem run_runTasks (events : List (EventLoop.Event SyncDutyTask Empty)) :
    SyncDutiesRun [0x1, 0x2] (IsConsistent bothMembers) (runTasks events).1 (runTasks events).2 := by
  have hrun : SyncDutiesRun [0x1, 0x2] (IsConsistent bothMembers) [] ⟨.new, []⟩ := .start
  exact hrun.exec (fun _ _ => trivial) isConsistent_oneByOne (fun _ d => d.elim) events

/-- The validator `1` is known, and `2` is found in epoch 0 by a poll that is answered last. -/
def lateDiscovery : List SyncLabel × SyncLoop :=
  runTasks [.call .pollIndicesOnly, .resume 0, .call (.pollAllLocalIndices 0),
    .call (.pollNewIndices 0), .resume 1, .resume 1, .resume 1, .resume 2, .resume 2, .resume 2,
    .resume 2, .call (.pruneOldDuties 0)]

/-- All requests succeed, and the duties of the validator `1` are lost. -/
theorem sync_duties_lost :
    SyncDutiesRun [0x1, 0x2] (IsConsistent bothMembers) lateDiscovery.1 lateDiscovery.2 ∧
      (∀ call ∈ lateDiscovery.2.calls, call.turn.result?.isSome = true) ∧
      ∀ period ∈ [0, 1], ¬ HoldsDuties bothMembers lateDiscovery.2.store period := by
  refine ⟨run_runTasks _, by decide +kernel, fun period hperiod h => ?_⟩
  obtain ⟨dutiesByIndex, dutyAtPeriod, hget, hduty, -⟩ := h 1 (by decide +kernel) (.inl rfl)
  have hnone : ∀ period ∈ [0, 1], ((lateDiscovery.2.store.dutiesByIndexByPeriod.get period).bind
      (·.get 1)).isNone = true := by decide +kernel
  have hnone := hnone period hperiod
  rw [hget, Option.bind_some, hduty] at hnone
  cases hnone

/-- Both validators are known before the polls. -/
def oneAfterAnother : List SyncLabel × SyncLoop :=
  runTasks [.call .pollIndicesOnly, .resume 0, .call .pollIndicesOnly, .resume 1,
    .call (.pollAllLocalIndices 0), .call (.pollNewIndices 0), .resume 2, .resume 2, .resume 2,
    .call (.pruneOldDuties 0)]

theorem holds_sync_duties_iff_oneAfterAnother :
    HoldsDuties bothMembers oneAfterAnother.2.store 0 ∧
      HoldsDuties bothMembers oneAfterAnother.2.store 1 := by
  have hlast : ∀ period ∈ [0, 1], lastAsked period oneAfterAnother.1 = some [1, 2] := by
    decide +kernel
  have hholds : ∀ period ∈ [0, 1], HoldsDuties bothMembers oneAfterAnother.2.store period := by
    intro period hperiod
    refine (holds_sync_duties_iff [0x1, 0x2] bothMembers oneAfterAnother.1 oneAfterAnother.2
      (run_runTasks _) 0 (by decide +kernel) period ?_).2 ?_
    · exact (List.mem_pair.1 hperiod).imp id id
    · rintro index - (rfl | rfl)
      · exact ⟨[1, 2], hlast period hperiod, by decide⟩
      · exact ⟨[1, 2], hlast period hperiod, by decide⟩
  exact ⟨hholds 0 (by decide), hholds 1 (by decide)⟩

end Lodestar.Validator.SyncCommittee
