import Lodestar.ForkChoice.Clock

/-!
# When votes are applied

An attestation is applied at once when its slot is past and is queued else. The
queue is drained when the clock has moved, of the attestations up to the current
slot: an attestation of the slot that the clock comes to counts in this very
slot. `DrainsPast` says that there is none (`votesFollow_iff`).
-/

namespace Lodestar.ForkChoice

open Lodestar.Base Lodestar.StateTransition

/-! ## Latest messages -/

/-- `addLatestMessage` on the votes. -/
def addVote (votes : List (Option IVoteTracker)) (validatorIndex nextEpoch : Nat)
    (nextRoot : RootHex) : List (Option IVoteTracker) :=
  match votes.getD validatorIndex none with
  | none => setVote votes validatorIndex ⟨HEX_ZERO_HASH, nextRoot, nextEpoch⟩
  | some vote =>
    if nextEpoch > vote.nextEpoch then
      setVote votes validatorIndex { vote with nextRoot, nextEpoch }
    else votes

variable {votes : List (Option IVoteTracker)} {v i epoch : Nat} {root : RootHex}
  {vote : IVoteTracker}

theorem getD_setVote (votes : List (Option IVoteTracker)) (v : Nat) (vote : IVoteTracker) (i : Nat) :
    (setVote votes v vote).getD i none = if i = v then some vote else votes.getD i none := by
  have hlength : v < (votes ++ List.replicate (v + 1 - votes.length) none).length := by
    rw [List.length_append, List.length_replicate]
    omega
  rw [setVote, List.getD_eq_getElem?_getD, List.getElem?_set]
  by_cases hi : v = i
  · subst hi
    rw [if_pos rfl, if_pos hlength, if_pos rfl, Option.getD_some]
  · rw [if_neg hi, if_neg (Ne.symm hi), List.getD_eq_getElem?_getD, List.getElem?_append]
    split_ifs with hlt
    · rfl
    · -- a hole, or past the end
      rw [List.getElem?_eq_none (not_lt.mp hlt), List.getElem?_replicate]
      split_ifs <;> rfl

theorem of_getD_addVote (h : (addVote votes v epoch root).getD i none = some vote) :
    votes.getD i none = some vote ∨ i = v ∧ vote.nextRoot = root ∧ vote.nextEpoch = epoch := by
  unfold addVote at h
  cases hold : votes.getD v none with
  | none =>
    simp only [hold, getD_setVote] at h
    split_ifs at h with hi
    · obtain rfl := Option.some.inj h
      exact .inr ⟨hi, rfl, rfl⟩
    · exact .inl h
  | some old =>
    simp only [hold] at h
    split_ifs at h with hlater
    · rw [getD_setVote] at h
      split_ifs at h with hi
      · obtain rfl := Option.some.inj h
        exact .inr ⟨hi, rfl, rfl⟩
      · exact .inl h
    · exact .inl h

/-- The messages of an attestation. -/
def IQueuedAttestation.addVotes (attestation : IQueuedAttestation)
    (votes : List (Option IVoteTracker)) : List (Option IVoteTracker) :=
  attestation.attestingIndices.foldl (fun votes validatorIndex =>
    addVote votes validatorIndex attestation.targetEpoch attestation.blockRoot) votes

theorem of_getD_addVotes {attestation : IQueuedAttestation}
    (h : (attestation.addVotes votes).getD i none = some vote) :
    votes.getD i none = some vote ∨ i ∈ attestation.attestingIndices ∧
      vote.nextRoot = attestation.blockRoot ∧ vote.nextEpoch = attestation.targetEpoch := by
  unfold IQueuedAttestation.addVotes at h
  generalize attestation.attestingIndices = indices at h ⊢
  induction indices generalizing votes with
  | nil => exact .inl h
  | cons index indices ih =>
    rw [List.foldl_cons] at h
    rcases ih h with hold | ⟨hmem, hnew⟩
    · rcases of_getD_addVote hold with hold | ⟨rfl, hnew⟩
      · exact .inl hold
      · exact .inr ⟨List.mem_cons_self, hnew⟩
    · exact .inr ⟨List.mem_cons_of_mem _ hmem, hnew⟩

section Calls

variable [Preset] {this this' : ForkChoice}

omit [Preset] in
theorem votes_addLatestMessages (this : ForkChoice) (attestation : IQueuedAttestation) :
    (this.addLatestMessages attestation.attestingIndices attestation.targetEpoch
      attestation.blockRoot).votes = attestation.addVotes this.votes := by
  rw [addLatestMessages, IQueuedAttestation.addVotes]
  generalize attestation.attestingIndices = indices
  induction indices generalizing this with
  | nil => rfl
  | cons index indices ih => exact ih _

omit [Preset] in
theorem queuedAttestations_addLatestMessages (this : ForkChoice) (attestingIndices : List Nat)
    (targetEpoch : Nat) (blockRoot : RootHex) :
    (this.addLatestMessages attestingIndices targetEpoch blockRoot).queuedAttestations
      = this.queuedAttestations := by
  obtain ⟨votes, synced, heq⟩ := this.exists_addLatestMessages attestingIndices targetEpoch blockRoot
  rw [heq]

omit [Preset] in
theorem votes_drained (this : ForkChoice) :
    this.drained.votes = (this.queuedAttestations.filter (·.slot ≤ this.fcStore.currentSlot)).foldl
      (fun votes attestation => attestation.addVotes votes) this.votes := by
  have hfold : ∀ (eligible : List IQueuedAttestation) (that : ForkChoice),
      (eligible.foldl (fun that attestation => that.addLatestMessages attestation.attestingIndices
        attestation.targetEpoch attestation.blockRoot) that).votes
        = eligible.foldl (fun votes attestation => attestation.addVotes votes) that.votes := by
    intro eligible
    induction eligible with
    | nil => exact fun _ => rfl
    | cons attestation eligible ih =>
      intro that
      rw [List.foldl_cons, ih, votes_addLatestMessages, List.foldl_cons]
  exact hfold _ { this with
    queuedAttestations := this.queuedAttestations.filter (!·.slot ≤ this.fcStore.currentSlot) }

/-! ## What a call applies -/

/-- The attestation as it is queued. -/
def queuedOf (attestation : IndexedAttestation) : IQueuedAttestation where
  slot := attestation.data.slot
  attestingIndices := attestation.attestingIndices
  blockRoot := attestation.data.beaconBlockRoot
  targetEpoch := attestation.data.target.epoch

/-- The attestation passes the checks and is not for the zero hash. -/
def Accepts (this : ForkChoice) (attestation : IndexedAttestation) : Prop :=
  attestation.data.beaconBlockRoot ≠ HEX_ZERO_HASH ∧
    errorOf ((onAttestation attestation).run this) = none

instance (this : ForkChoice) (attestation : IndexedAttestation) :
    Decidable (this.Accepts attestation) :=
  inferInstanceAs (Decidable (_ ∧ _))

/-- An attestation whose messages are applied, and the clock at that moment. -/
structure Applied where
  attestation : IQueuedAttestation
  currentSlot : Nat

omit [Preset] in
theorem map_attestation (attestations : List IQueuedAttestation) (currentSlot : Nat) :
    (attestations.map (Applied.mk · currentSlot)).map (·.attestation) = attestations := by
  rw [List.map_map]
  exact List.map_id attestations

/-- The attestations that a call accepts. -/
def accepted (this : ForkChoice) : Call → List IQueuedAttestation
  | .onAttestation attestation => if this.Accepts attestation then [queuedOf attestation] else []
  | _ => []

/-- The attestations whose messages a call applies. -/
def applied (this : ForkChoice) : Call → List Applied
  | .onAttestation attestation =>
    if this.Accepts attestation ∧ attestation.data.slot < this.fcStore.currentSlot then
      [⟨queuedOf attestation, this.fcStore.currentSlot⟩]
    else []
  | .updateTime currentSlot =>
    let currentSlot' := max this.fcStore.currentSlot currentSlot
    if errorOf ((updateTime currentSlot).run this) = none then
      (this.queuedAttestations.filter (·.slot ≤ currentSlot')).map (⟨·, currentSlot'⟩)
    else []
  | _ => []

/-- The calls that move votes. -/
def Call.IsVoteCall : Call → Prop
  | .onBlock _ _ _ | .onAttestation _ | .updateTime _ => True
  | _ => False

theorem votes_onBlock (block : BeaconBlock) (state : BeaconState)
    (preCachedData : Option OnBlockPrecachedData) :
    (stateOf ((onBlock block state preCachedData).run this)).votes = this.votes ∧
      (stateOf ((onBlock block state preCachedData).run this)).queuedAttestations
        = this.queuedAttestations := by
  have hframe : Frame fun this : ForkChoice => (this.votes, this.queuedAttestations) :=
    ⟨fun _ _ _ => rfl, fun _ _ _ => rfl, fun _ _ => rfl⟩
  have hboost : ∀ (this : ForkChoice) block preCachedData,
      ((this.withBoost block preCachedData).votes,
        (this.withBoost block preCachedData).queuedAttestations)
          = (this.votes, this.queuedAttestations) := by
    intro this block preCachedData
    rw [withBoost]
    split <;> rfl
  exact Prod.mk.inj (hframe.onBlock hboost (fun _ _ => rfl) block state preCachedData)

/-- The ticks go through and leave the votes and the queue, or the call throws before it drains
the queue. -/
theorem updateTime_cases (ht : this.protoArray.Tree) (currentSlot : Nat) :
    ((∃ (e : ForkChoiceError) (that : ForkChoice), (updateTime currentSlot).run this = .error e that ∧ that.votes = this.votes ∧
        that.queuedAttestations = this.queuedAttestations) ∧
      this.Detached ∧ this.CrossesEpoch (max this.fcStore.currentSlot currentSlot)) ∨
    ∃ that : ForkChoice, (updateTime currentSlot).run this = .ok ⟨⟩ that.drained ∧
      that.votes = this.votes ∧ that.queuedAttestations = this.queuedAttestations ∧
      that.fcStore.currentSlot = max this.fcStore.currentSlot currentSlot ∧
      ¬ (this.Detached ∧ this.CrossesEpoch (max this.fcStore.currentSlot currentSlot)) := by
  have hslots : this.fcStore.currentSlot + (currentSlot - this.fcStore.currentSlot)
      = max this.fcStore.currentSlot currentSlot := by omega
  have hkeeps := tickSlots_preserves (P := fun that =>
      that.votes = this.votes ∧ that.queuedAttestations = this.queuedAttestations)
    (fun that time h => by rw [setTime]; split <;> exact h)
    (fun that pulls _ h => by rw [pulledUp]; split <;> exact h)
    (currentSlot - this.fcStore.currentSlot) ⟨rfl, rfl⟩
  rw [updateTime_run, ← hslots]
  rcases tickSlots_cases (currentSlot - this.fcStore.currentSlot) ht with
    ⟨⟨e, that, hrun⟩, hdetached⟩ | ⟨that, hrun, hnot, hcurrent, -⟩
  · rw [hrun] at hkeeps ⊢
    exact .inl ⟨⟨e, that, rfl, hkeeps⟩, hdetached⟩
  · rw [hrun] at hkeeps ⊢
    exact .inr ⟨that, rfl, hkeeps.1, hkeeps.2, hcurrent, hnot⟩

/-- The messages of some attestations, in their order. -/
def addAll (applied : List Applied) (votes : List (Option IVoteTracker)) :
    List (Option IVoteTracker) :=
  applied.foldl (fun votes applied => applied.attestation.addVotes votes) votes

omit [Preset] in
theorem addAll_append (applied applied' : List Applied) (votes : List (Option IVoteTracker)) :
    addAll (applied ++ applied') votes = addAll applied' (addAll applied votes) :=
  List.foldl_append

omit [Preset] in
theorem of_getD_addAll {applied : List Applied}
    (h : (addAll applied votes).getD i none = some vote) :
    votes.getD i none = some vote ∨ ∃ a ∈ applied, i ∈ a.attestation.attestingIndices ∧
      vote.nextRoot = a.attestation.blockRoot ∧ vote.nextEpoch = a.attestation.targetEpoch := by
  unfold addAll at h
  induction applied generalizing votes with
  | nil => exact .inl h
  | cons first applied ih =>
    rw [List.foldl_cons] at h
    rcases ih h with hold | ⟨a, hmem, hnew⟩
    · rcases of_getD_addVotes hold with hold | hnew
      · exact .inl hold
      · exact .inr ⟨first, List.mem_cons_self, hnew⟩
    · exact .inr ⟨a, List.mem_cons_of_mem _ hmem, hnew⟩

/-- `applied` has been applied, and of what was queued or came in the rest is queued. -/
structure Moved (this this' : ForkChoice) (accepted : List IQueuedAttestation)
    (applied : List Applied) : Prop where
  votes : this'.votes = addAll applied this.votes
  once : (this.queuedAttestations ++ accepted).Perm
    (applied.map (·.attestation) ++ this'.queuedAttestations)

omit [Preset] in
theorem Moved.of_eq (hvotes : this'.votes = this.votes)
    (hqueue : this'.queuedAttestations = this.queuedAttestations) : Moved this this' [] [] where
  votes := hvotes
  once := by rw [hqueue, List.append_nil]; exact .refl _

omit [Preset] in
theorem Moved.trans {that : ForkChoice} {accepted accepted' : List IQueuedAttestation}
    {applied applied' : List Applied} (h : Moved this that accepted applied)
    (h' : Moved that this' accepted' applied') :
    Moved this this' (accepted ++ accepted') (applied ++ applied') where
  votes := by rw [h'.votes, h.votes, addAll_append]
  once := by
    rw [List.map_append, List.append_assoc, ← List.append_assoc this.queuedAttestations]
    refine (h.once.append_right accepted').trans ?_
    rw [List.append_assoc]
    exact h'.once.append_left (applied.map (·.attestation))

theorem moved_onAttestation (this : ForkChoice) (attestation : IndexedAttestation) :
    Moved this (stateOf ((onAttestation attestation).run this))
      (this.accepted (.onAttestation attestation)) (this.applied (.onAttestation attestation)) := by
  simp only [accepted, applied]
  rcases onAttestation_run this attestation with ⟨e, hrun⟩ | ⟨hzero, hrun⟩ | ⟨hroot, seen, hrun⟩
  · -- it throws
    have hnot : ¬ this.Accepts attestation := by
      rintro ⟨-, hok⟩
      rw [hrun] at hok
      cases hok
    rw [if_neg hnot, if_neg fun h => hnot h.1, hrun]
    exact .of_eq rfl rfl
  · have hnot : ¬ this.Accepts attestation := fun h => h.1 hzero
    rw [if_neg hnot, if_neg fun h => hnot h.1, hrun]
    exact .of_eq rfl rfl
  · have haccepts : this.Accepts attestation := ⟨hroot, by rw [hrun]; rfl⟩
    rw [if_pos haccepts, hrun]
    simp only [stateOf, withAttestation]
    by_cases hpast : attestation.data.slot < this.fcStore.currentSlot
    · rw [if_pos hpast, if_pos ⟨haccepts, hpast⟩]
      refine ⟨votes_addLatestMessages { this with validatedAttestationDatas := seen }
        (queuedOf attestation), ?_⟩
      rw [queuedAttestations_addLatestMessages]
      exact List.perm_append_comm
    · rw [if_neg hpast, if_neg fun h => hpast h.2]
      exact ⟨rfl, .refl _⟩

theorem moved_updateTime (ht : this.protoArray.Tree) (currentSlot : Nat) :
    Moved this (stateOf ((updateTime currentSlot).run this))
      (this.accepted (.updateTime currentSlot)) (this.applied (.updateTime currentSlot)) := by
  simp only [accepted, applied]
  rcases updateTime_cases ht currentSlot with
    ⟨⟨e, that, hrun, hvotes, hqueue⟩, -⟩ | ⟨that, hrun, hvotes, hqueue, hslot, -⟩
  · rw [hrun, if_neg (by rintro ⟨⟩)]
    exact .of_eq hvotes hqueue
  · have hok : errorOf ((updateTime currentSlot).run this) = none := by
      rw [hrun]
      rfl
    rw [if_pos hok, hrun, stateOf_ok, ← hslot, ← hqueue]
    constructor
    · rw [votes_drained, hvotes, addAll, List.foldl_map]
    · -- the queue is split by the slot
      rw [queuedAttestations_drained, List.append_nil, map_attestation, hqueue]
      exact (List.filter_append_perm _ _).symm

theorem moved_apply (ht : this.protoArray.Tree) {call : Call} (h : call.IsVoteCall) :
    Moved this (stateOf (call.apply.run this)) (this.accepted call) (this.applied call) := by
  cases call with
  | onBlock block state preCachedData =>
    exact .of_eq (votes_onBlock block state preCachedData).1
      (votes_onBlock block state preCachedData).2
  | onAttestation attestation => exact moved_onAttestation this attestation
  | updateTime currentSlot => exact moved_updateTime ht currentSlot
  | updateHead | prune _ | setPruneThreshold _ => exact h.elim

/-! ## Along a run -/

/-- The attestations that the calls accept. -/
def acceptedBy : ForkChoice → List Call → List IQueuedAttestation
  | _, [] => []
  | this, call :: calls => this.accepted call ++ acceptedBy (stateOf (call.apply.run this)) calls

/-- The attestations whose messages the calls apply. -/
def appliedBy : ForkChoice → List Call → List Applied
  | _, [] => []
  | this, call :: calls => this.applied call ++ appliedBy (stateOf (call.apply.run this)) calls

theorem Reachable.tree (h : this.Reachable) : this.protoArray.Tree :=
  h.protoArray_reachable.wf.toTree

theorem Reachable.apply (h : this.Reachable) (call : Call) :
    (stateOf (call.apply.run this)).Reachable :=
  h.step ⟨call, rfl⟩

theorem moved_afterCalls (hr : this.Reachable) {calls : List Call}
    (h : ∀ call ∈ calls, call.IsVoteCall) :
    Moved this (this.afterCalls calls) (this.acceptedBy calls) (this.appliedBy calls) := by
  induction calls generalizing this with
  | nil => exact .of_eq rfl rfl
  | cons call calls ih =>
    exact (moved_apply hr.tree (h call List.mem_cons_self)).trans
      (ih (hr.apply call) fun call hmem => h call (List.mem_cons_of_mem _ hmem))

/-- No queued attestation is of the slot that the clock comes to. The queue is not drained if an
epoch starts on the way while the best justified block is detached. -/
def DrainsPast (this : ForkChoice) : Call → Prop
  | .updateTime currentSlot =>
    ¬ (this.Detached ∧ this.CrossesEpoch (max this.fcStore.currentSlot currentSlot)) →
      ∀ attestation ∈ this.queuedAttestations,
        attestation.slot ≠ max this.fcStore.currentSlot currentSlot
  | _ => True

theorem forall_applied_lt_iff (ht : this.protoArray.Tree) (call : Call) :
    (∀ a ∈ this.applied call, a.attestation.slot < a.currentSlot) ↔ this.DrainsPast call := by
  cases call with
  | onAttestation attestation =>
    refine iff_of_true ?_ trivial
    rw [applied]
    split_ifs with h
    · exact List.forall_mem_singleton.mpr h.2
    · exact fun a hmem => absurd hmem List.not_mem_nil
  | updateTime currentSlot =>
    rw [DrainsPast, applied]
    rcases updateTime_cases ht currentSlot with
      ⟨⟨e, that, hrun, -⟩, hthrows⟩ | ⟨that, hrun, -, -, -, hnot⟩
    · rw [hrun, if_neg (by rintro ⟨⟩)]
      exact iff_of_true (fun a hmem => absurd hmem List.not_mem_nil) fun h => absurd hthrows h
    · have hok : errorOf ((updateTime currentSlot).run this) = none := by
        rw [hrun]
        rfl
      rw [if_pos hok]
      simp only [List.mem_map, List.mem_filter, decide_eq_true_eq]
      constructor
      · intro hlt _ attestation hmem heq
        exact (hlt _ ⟨attestation, ⟨hmem, heq.le⟩, rfl⟩).ne heq
      · rintro hne a ⟨attestation, ⟨hmem, hle⟩, rfl⟩
        exact lt_of_le_of_ne hle (hne hnot attestation hmem)
  | onBlock _ _ _ | updateHead | prune _ | setPruneThreshold _ =>
    exact iff_of_true (fun a hmem => absurd hmem List.not_mem_nil) trivial

theorem forall_appliedBy_lt_iff (hr : this.Reachable) (calls : List Call) :
    (∀ a ∈ this.appliedBy calls, a.attestation.slot < a.currentSlot) ↔
      ForallCalls DrainsPast this calls := by
  induction calls generalizing this with
  | nil => exact iff_of_true (fun a hmem => absurd hmem List.not_mem_nil) trivial
  | cons call calls ih =>
    rw [appliedBy, List.forall_mem_append, forall_applied_lt_iff hr.tree, ih (hr.apply call)]
    rfl

/-- Votes count from the slot after the attestation. -/
structure VotesFollow (start : ForkChoice) (calls : List Call) : Prop where
  /-- The clock is past the slot of what is applied. -/
  past : ∀ a ∈ start.appliedBy calls, a.attestation.slot < a.currentSlot
  /-- Every message in the votes is one of an attestation that was applied so. -/
  produced : ∀ validatorIndex vote,
    (start.afterCalls calls).votes.getD validatorIndex none = some vote →
      ∃ a ∈ start.appliedBy calls, a.attestation.slot < a.currentSlot ∧
        validatorIndex ∈ a.attestation.attestingIndices ∧
        vote.nextRoot = a.attestation.blockRoot ∧ vote.nextEpoch = a.attestation.targetEpoch
  /-- What was accepted was applied once or is still queued. -/
  once : (start.acceptedBy calls).Perm
    ((start.appliedBy calls).map (·.attestation) ++ (start.afterCalls calls).queuedAttestations)
  /-- After the clock has moved, nothing that may be applied is queued. -/
  due : ∀ before currentSlot, calls = before ++ [.updateTime currentSlot] →
    errorOf ((updateTime currentSlot).run (start.afterCalls before)) = none →
      ∀ attestation ∈ (start.afterCalls calls).queuedAttestations,
        (start.afterCalls calls).fcStore.currentSlot ≤ attestation.slot

theorem votes_updateHead (h : this.votes = []) : (stateOf (updateHead.run this)).votes = [] := by
  have hcache : ∀ that : ForkChoice, that.votes = [] → (stateOf (cacheHead.run that)).votes = [] := by
    intro that hthat
    rcases cacheHead_run that with ⟨e, heq⟩ | ⟨node, heq⟩ <;> rw [heq] <;> exact hthat
  rw [updateHead_run]
  split
  · exact hcache this h
  · rw [updateScores_run, h]
    simp only [computeDeltas, computeDeltasFrom]
    cases this.protoArray.applyScoreChanges
        (this.scoreChanges (List.replicate this.protoArray.indices.size 0)) with
    | error e => rfl
    | ok protoArray => exact hcache _ rfl

theorem Created.empty (h : Created this) : this.votes = [] ∧ this.queuedAttestations = [] := by
  obtain ⟨config, currentSlot, justified, finalized, protoArray, balances, boost, -, hnew⟩ := h
  refine ⟨?_, (new_ok hnew).2.1⟩
  have hempty := votes_updateHead
    (show (initial config (ForkChoiceStore currentSlot justified finalized) protoArray balances
      boost).votes = [] from rfl)
  obtain ⟨node, hrun⟩ := updateHead_of_new hnew
  rwa [hrun] at hempty

theorem afterCalls_append (this : ForkChoice) (calls calls' : List Call) :
    this.afterCalls (calls ++ calls') = (this.afterCalls calls).afterCalls calls' :=
  List.foldl_append

/-- Along a run of `onBlock`, `onAttestation` and `updateTime`, votes count from the slot after the
attestation if and only if no attestation waits for the very slot that the clock comes to. -/
theorem votesFollow_iff {start : ForkChoice} {calls : List Call} (hstart : Created start)
    (hcalls : ∀ call ∈ calls, call.IsVoteCall) :
    start.VotesFollow calls ↔ ForallCalls DrainsPast start calls := by
  have hr : start.Reachable := ⟨start, hstart, .refl⟩
  have hmoved := moved_afterCalls hr hcalls
  obtain ⟨hvotes, hqueue⟩ := hstart.empty
  rw [← forall_appliedBy_lt_iff hr]
  refine ⟨VotesFollow.past, fun hpast => ⟨hpast, ?_, ?_, ?_⟩⟩
  · intro validatorIndex vote hvote
    rw [hmoved.votes, hvotes] at hvote
    rcases of_getD_addAll hvote with hnone | ⟨a, hmem, hnew⟩
    · cases hnone
    · exact ⟨a, hmem, hpast a hmem, hnew⟩
  · have honce := hmoved.once
    rwa [hqueue] at honce
  · rintro before currentSlot rfl hok attestation hmem
    have hbefore := hr.afterCalls before
    rw [afterCalls_append] at hmem ⊢
    rcases updateTime_cases hbefore.tree currentSlot with
      ⟨⟨e, that, hrun, -⟩, -⟩ | ⟨that, hrun, -⟩
    · rw [hrun] at hok
      cases hok
    · have hafter : (start.afterCalls before).afterCalls [.updateTime currentSlot] = that.drained := by
        rw [afterCalls, List.foldl_cons, List.foldl_nil, Call.apply, hrun, stateOf_ok]
      rw [hafter, queuedAttestations_drained] at hmem
      rw [hafter, fcStore_drained]
      have hlater : that.fcStore.currentSlot < attestation.slot := by
        simpa using (List.mem_filter.mp hmem).2
      exact hlater.le

end Calls

/-! ## An attestation that comes early -/

attribute [local instance] minimal

/-- A vote of the slot `1` for the block at genesis. -/
def firstVote : IndexedAttestation where
  attestingIndices := [0]
  data := { slot := 1, index := 0, beaconBlockRoot := 0xaa, source := ⟨0, 0xaa⟩, target := ⟨0, 0xaa⟩ }
  dataTreeRoot := none

/-- It comes before its slot. -/
def earlyCalls : List Call :=
  [.onAttestation firstVote, .updateTime 1]

/-- The vote counts as soon as its slot begins. -/
theorem earlyCalls_not_votesFollow :
    Created (genesisChoice true) ∧ (∀ call ∈ earlyCalls, call.IsVoteCall) ∧
      ((genesisChoice true).afterCalls earlyCalls).fcStore.currentSlot = 1 ∧
      ((genesisChoice true).afterCalls earlyCalls).votes = [some ⟨HEX_ZERO_HASH, 0xaa, 0⟩] ∧
      ¬ (genesisChoice true).VotesFollow earlyCalls := by
  refine ⟨genesisChoice_created true, by simp [earlyCalls, Call.IsVoteCall], by decide +kernel,
    by decide +kernel, fun hfollow => ?_⟩
  have happlied : ((genesisChoice true).appliedBy earlyCalls).any
      (fun a => a.currentSlot ≤ a.attestation.slot) = true := by decide +kernel
  obtain ⟨a, hmem, hle⟩ := List.any_eq_true.mp happlied
  exact absurd (hfollow.past a hmem) (not_lt.mpr (of_decide_eq_true hle))

/-- It comes in its slot. -/
theorem firstVote_votesFollow :
    (genesisChoice true).VotesFollow
      [.updateTime 1, .onAttestation firstVote, .updateTime 2] := by
  refine (votesFollow_iff (genesisChoice_created true) (by simp [Call.IsVoteCall])).mpr
    ⟨fun _ => ?_, trivial, fun _ => ?_, trivial⟩ <;> decide +kernel

end Lodestar.ForkChoice
