import Lodestar.Chain.GossipAttestation

/-!
# One accepted attestation for each validator and epoch

Both validations check that the validator is not known right before they mark
it, with no await in between (`Marks`). The run lemma for any such function is
`Seen.run`.
-/

namespace Lodestar.Chain

open Lodestar.Base Lodestar.StateTransition

/-! ## Seen attesters -/

namespace SeenAttesters

variable {this this' : SeenAttesters} {targetEpoch validatorIndex : Nat}

theorem get_prune (currentEpoch epoch : Nat) :
    (this.prune currentEpoch).validatorIndexesByEpoch.get epoch =
      if epoch < currentEpoch - MAX_EPOCHS then none
      else this.validatorIndexesByEpoch.get epoch := by
  unfold prune
  rw [OrderedMap.get_foldl_delete_filter]
  simp only [decide_eq_true_eq]

theorem isKnown_prune {currentEpoch epoch index : Nat} :
    (this.prune currentEpoch).isKnown epoch index = true ↔
      currentEpoch - MAX_EPOCHS ≤ epoch ∧ this.isKnown epoch index = true := by
  unfold isKnown
  rw [get_prune]
  by_cases hlt : epoch < currentEpoch - MAX_EPOCHS
  · rw [if_pos hlt]
    simp [Nat.not_le.2 hlt]
  · rw [if_neg hlt]
    simp [Nat.le_of_not_lt hlt]

theorem add_eq_ok (h : this.add targetEpoch validatorIndex = .ok this') :
    this.lowestPermissibleEpoch ≤ targetEpoch ∧
      this'.lowestPermissibleEpoch = this.lowestPermissibleEpoch ∧
      ∀ epoch index, this'.isKnown epoch index = true ↔
        this.isKnown epoch index = true ∨ (epoch = targetEpoch ∧ index = validatorIndex) := by
  unfold add at h
  split_ifs at h with hlow
  obtain rfl := Except.ok.inj h
  refine ⟨Nat.le_of_not_lt hlow, rfl, fun epoch index => ?_⟩
  unfold isKnown
  dsimp only
  rw [OrderedMap.get_set]
  by_cases heq : epoch = targetEpoch
  · subst heq
    cases this.validatorIndexesByEpoch.get epoch with
    | none => simp
    | some indices => simp [or_comm]
  · simp [heq]

end SeenAttesters

/-! ## The end of a validation -/

theorem verifyAttesterNotKnown_eq_ok {targetEpoch validatorIndex : Nat} {seen : SeenAttesters}
    {u : Unit} (h : verifyAttesterNotKnown targetEpoch validatorIndex seen = .ok u) :
    seen.isKnown targetEpoch validatorIndex = false := by
  unfold verifyAttesterNotKnown at h
  split_ifs at h with hknown
  exact Bool.eq_false_of_not_eq_true hknown

theorem verifyAggregatorNotKnown_eq_ok {targetEpoch aggregatorIndex : Nat} {seen : SeenAttesters}
    {u : Unit} (h : verifyAggregatorNotKnown targetEpoch aggregatorIndex seen = .ok u) :
    seen.isKnown targetEpoch aggregatorIndex = false := by
  unfold verifyAggregatorNotKnown at h
  split_ifs at h with hknown
  exact Bool.eq_false_of_not_eq_true hknown

theorem addSeen_eq_ok {targetEpoch validatorIndex : Nat} {seen seen' : SeenAttesters} {u : Unit}
    (h : addSeen targetEpoch validatorIndex seen = .ok (u, seen')) :
    seen.add targetEpoch validatorIndex = .ok seen' := by
  unfold addSeen at h
  cases hadd : seen.add targetEpoch validatorIndex with
  | error e =>
    rw [hadd] at h
    cases h
  | ok this =>
    rw [hadd] at h
    cases h
    rfl

/-! ## Functions that mark what they accept -/

variable {β ι ρ : Type}

/-- A result marks its key, which was not known; an error leaves the store. -/
def Marks (key : ι → ρ → Nat × Nat) (args : ι) (before : SeenAttesters) :
    Except GossipError ρ → SeenAttesters → Prop
  | .ok result, after => before.isKnown (key args result).1 (key args result).2 = false ∧
      before.add (key args result).1 (key args result).2 = .ok after
  | .error _, after => after = before

section

variable [Preset]

/-- Whoever calls it and whatever it is told, the function marks what it accepts, at its end. -/
def MarksAccepted (key : ι → ρ → Nat × Nat) (validate : ι → GossipTask β ρ) : Prop :=
  ∀ args seen, (validate args seen).Sat (fun _ _ => True) (fun _ s _ s' => s' = s)
    (fun _ => Marks key args) [] seen

theorem MarksAccepted.guarantees {key : ι → ρ → Nat × Nat} {validate : ι → GossipTask β ρ}
    (h : MarksAccepted key validate) :
    EventLoop.Guarantees validate (fun (currentEpoch : Nat) seen => seen.prune currentEpoch)
      (fun _ _ => True) (fun _ s _ s' => s' = s) fun args _ => Marks key args :=
  ⟨h, fun _ => trivial, fun _ _ _ _ _ => trivial, fun _ _ _ _ _ => trivial,
    fun _ _ _ _ _ _ => trivial, fun _ _ => trivial⟩

abbrev GossipLabel (ι β : Type) : Type := EventLoop.Label ι GossipQuery (GossipAnswer β) Nat

/-- The calls and the prunes: `prune` is what the rest of the chain does to the store. -/
abbrev GossipRun (validate : ι → GossipTask β ρ) : List (GossipLabel ι β) →
    EventLoop ι SeenAttesters GossipQuery (GossipAnswer β) GossipError ρ → Prop :=
  EventLoop.Run validate (fun currentEpoch seen => seen.prune currentEpoch) (fun _ _ => True) .new

abbrev GossipStep (validate : ι → GossipTask β ρ) :=
  EventLoop.Step validate (fun (currentEpoch : Nat) (seen : SeenAttesters) => seen.prune currentEpoch)

/-- The epochs of the prunes. -/
def prunedEpochs (labels : List (GossipLabel ι β)) : List Nat :=
  labels.filterMap fun
    | .act currentEpoch => some currentEpoch
    | _ => none

/-- The call has returned, for the key. -/
def Succeeded (key : ι → ρ → Nat × Nat)
    (loop : EventLoop ι SeenAttesters GossipQuery (GossipAnswer β) GossipError ρ) (i : Nat)
    (k : Nat × Nat) : Prop :=
  ∃ call result, loop.calls[i]? = some call ∧ call.turn.result? = some (.ok result) ∧
    key call.args result = k

variable {key : ι → ρ → Nat × Nat} {validate : ι → GossipTask β ρ}
  {loop loop' : EventLoop ι SeenAttesters GossipQuery (GossipAnswer β) GossipError ρ}

/-- The lower bound of the epochs after the prunes. -/
def prunedBound (labels : List (GossipLabel ι β)) : Nat :=
  (prunedEpochs labels).getLast?.getD 0 - MAX_EPOCHS

/-- Each key succeeds once, and as long as its epoch is not pruned it is known, as no other is. -/
structure SeenInv (key : ι → ρ → Nat × Nat)
    (loop : EventLoop ι SeenAttesters GossipQuery (GossipAnswer β) GossipError ρ) : Prop where
  unique : ∀ i j k, Succeeded key loop i k → Succeeded key loop j k → i = j
  known : ∀ epoch index, loop.store.isKnown epoch index = true ↔
    loop.store.lowestPermissibleEpoch ≤ epoch ∧ ∃ i, Succeeded key loop i (epoch, index)

abbrev SeenStretch (key : ι → ρ → Nat × Nat) (l : GossipLabel ι β)
    (loop loop' : EventLoop ι SeenAttesters GossipQuery (GossipAnswer β) GossipError ρ) :=
  EventLoop.Stretch (fun _ _ => True) (fun _ s _ s' => s' = s) (fun args _ => Marks key args) l
    loop loop'

variable {i : Nat} {l : GossipLabel ι β}
  {call : Call ι SeenAttesters GossipQuery (GossipAnswer β) GossipError ρ}

theorem SeenStretch.not_succeeded (h : SeenStretch key l loop loop' i call) (k : Nat × Nat) :
    ¬ Succeeded key loop i k := by
  rintro ⟨old, result, hold, hresult, -⟩
  rw [h.result?_eq_none hold] at hresult
  cases hresult

theorem SeenStretch.succeeded_iff (h : SeenStretch key l loop loop' i call) {j : Nat}
    {k : Nat × Nat} : Succeeded key loop' j k ↔ Succeeded key loop j k ∨
      (j = i ∧ ∃ result, call.turn.result? = some (.ok result) ∧ key call.args result = k) := by
  by_cases hj : j = i
  · subst hj
    constructor
    · rintro ⟨call', result, hcall, hresult, hkey⟩
      rw [h.self] at hcall
      obtain rfl := Option.some.inj hcall
      exact .inr ⟨rfl, result, hresult, hkey⟩
    · rintro (hbefore | ⟨-, result, hresult, hkey⟩)
      · exact (h.not_succeeded k hbefore).elim
      · exact ⟨call, result, h.self, hresult, hkey⟩
  · unfold Succeeded
    rw [h.others j hj]
    simp [hj]

theorem SeenStretch.cases (h : SeenStretch key l loop loop' i call) :
    (loop'.store = loop.store ∧ ∀ j k, Succeeded key loop' j k ↔ Succeeded key loop j k) ∨
      ∃ k, loop.store.isKnown k.1 k.2 = false ∧ loop.store.add k.1 k.2 = .ok loop'.store ∧
        ∀ j k', Succeeded key loop' j k' ↔ Succeeded key loop j k' ∨ (j = i ∧ k = k') := by
  have hiff := fun j k => h.succeeded_iff (j := j) (k := k)
  have hstore := h.store
  have hsat := h.sat
  generalize call.turn = turn at hiff hstore hsat
  cases turn with
  | await q s resume =>
    left
    refine ⟨hstore.trans hsat.1, fun j k => (hiff j k).trans ?_⟩
    simp [Turn.result?]
  | done result s =>
    cases result with
    | error e =>
      left
      refine ⟨hstore.trans hsat, fun j k => (hiff j k).trans ?_⟩
      simp [Turn.result?]
    | ok result =>
      right
      obtain ⟨hnew, hadd⟩ := hsat
      refine ⟨key call.args result, hnew, ?_, fun j k => (hiff j k).trans ?_⟩
      · rw [hstore]
        exact hadd
      · simp [Turn.result?]

theorem SeenStretch.inv (h : SeenStretch key l loop loop' i call) (hinv : SeenInv key loop) :
    SeenInv key loop' ∧
      loop'.store.lowestPermissibleEpoch = loop.store.lowestPermissibleEpoch := by
  rcases h.cases with ⟨hstore, hsucceeded⟩ | ⟨k, hnew, hadd, hsucceeded⟩
  · refine ⟨⟨fun i j k hi hj => ?_, fun epoch index => ?_⟩, by rw [hstore]⟩
    · exact hinv.unique i j k ((hsucceeded i k).1 hi) ((hsucceeded j k).1 hj)
    · rw [hstore, hinv.known]
      simp only [hsucceeded]
  · obtain ⟨hlow, hbound, hknown⟩ := SeenAttesters.add_eq_ok hadd
    -- the key was not known, so no call had succeeded with it
    have hfresh : ∀ j, ¬ Succeeded key loop j k := by
      intro j hj
      have hbefore := (hinv.known k.1 k.2).2 ⟨hlow, j, hj⟩
      rw [hnew] at hbefore
      cases hbefore
    refine ⟨⟨fun a b k' ha hb => ?_, fun epoch index => ?_⟩, hbound⟩
    · rw [hsucceeded] at ha hb
      rcases ha with ha | ⟨rfl, rfl⟩
      · rcases hb with hb | ⟨rfl, rfl⟩
        · exact hinv.unique a b k' ha hb
        · exact (hfresh a ha).elim
      · rcases hb with hb | ⟨rfl, -⟩
        · exact (hfresh b hb).elim
        · rfl
    · rw [hknown, hinv.known, hbound]
      simp only [hsucceeded]
      constructor
      · rintro (⟨hle, j, hj⟩ | ⟨rfl, rfl⟩)
        · exact ⟨hle, j, .inl hj⟩
        · exact ⟨hlow, i, .inr ⟨rfl, rfl⟩⟩
      · rintro ⟨hle, j, hj | ⟨-, rfl⟩⟩
        · exact .inl ⟨hle, j, hj⟩
        · exact .inr ⟨rfl, rfl⟩

theorem SeenInv.prune (h : SeenInv key loop) {currentEpoch : Nat}
    (hle : loop.store.lowestPermissibleEpoch ≤ currentEpoch - MAX_EPOCHS) :
    SeenInv key { loop with store := loop.store.prune currentEpoch } := by
  refine ⟨h.unique, fun epoch index => ?_⟩
  show (loop.store.prune currentEpoch).isKnown epoch index = true ↔
    currentEpoch - MAX_EPOCHS ≤ epoch ∧ ∃ i, Succeeded key loop i (epoch, index)
  rw [SeenAttesters.isKnown_prune, h.known]
  constructor
  · rintro ⟨hbound, -, hsucceeded⟩
    exact ⟨hbound, hsucceeded⟩
  · rintro ⟨hbound, hsucceeded⟩
    exact ⟨hbound, hle.trans hbound, hsucceeded⟩

theorem seenInv_new : SeenInv key
    (⟨.new, []⟩ : EventLoop ι SeenAttesters GossipQuery (GossipAnswer β) GossipError ρ) := by
  have hnone : ∀ i k, ¬ Succeeded key
      (⟨.new, []⟩ : EventLoop ι SeenAttesters GossipQuery (GossipAnswer β) GossipError ρ) i k := by
    rintro i k ⟨call, result, hcall, -⟩
    cases hcall
  refine ⟨fun i j k hi => (hnone i k hi).elim, fun epoch index => ?_⟩
  constructor
  · intro hknown
    cases hknown
  · rintro ⟨-, i, hi⟩
    exact (hnone i _ hi).elim

variable {labels : List (GossipLabel ι β)}

/-- The run lemma: the invariant, and where the bound comes from. -/
theorem GossipRun.inv (hmarks : MarksAccepted key validate) (hrun : GossipRun validate labels loop)
    (hmono : (prunedEpochs labels).Pairwise (· ≤ ·)) :
    SeenInv key loop ∧ loop.store.lowestPermissibleEpoch = prunedBound labels := by
  induction hrun with
  | start => exact ⟨seenInv_new, rfl⟩
  | @step labels loop loop' l hrun _ hstep ih =>
    have happend : prunedEpochs (labels ++ [l]) = prunedEpochs labels ++ prunedEpochs [l] :=
      List.filterMap_append
    rw [happend, List.pairwise_append] at hmono
    obtain ⟨hinv, hbound⟩ := ih hmono.1
    rcases hstep.cases hmarks.guarantees (EventLoop.Run.guaranteed hmarks.guarantees hrun) with
      ⟨currentEpoch, rfl, rfl⟩ | ⟨i, call, hstretch⟩
    · have hlast : prunedBound (labels ++ [.act currentEpoch]) = currentEpoch - MAX_EPOCHS := by
        unfold prunedBound
        rw [happend]
        simp [prunedEpochs]
      refine ⟨hinv.prune ?_, hlast.symm⟩
      rw [hbound]
      unfold prunedBound
      cases hprev : (prunedEpochs labels).getLast? with
      | none => simp
      | some epoch =>
        have hle := hmono.2.2 epoch (List.mem_of_getLast? hprev) currentEpoch (by simp [prunedEpochs])
        simp only [Option.getD_some]
        omega
    · obtain ⟨hinv', hsame⟩ := SeenStretch.inv hstretch hinv
      refine ⟨hinv', ?_⟩
      have hnone : prunedEpochs [l] = [] := by
        cases l with
        | act d => exact hstretch.started.elim
        | call args => rfl
        | answer i r => rfl
      rw [hsame, hbound]
      unfold prunedBound
      rw [happend, hnone, List.append_nil]

/-! ## The two validations -/

def attestationKey (args : AttestationCall) (result : AttestationValidationResult) : Nat × Nat :=
  (args.attestation.data.target.epoch, result.indexedAttestation.attestingIndices.headD 0)

def aggregateKey (args : AggregateCall) (_ : AggregateValidationResult) : Nat × Nat :=
  (args.signedAggregateAndProof.message.aggregate.data.target.epoch,
    args.signedAggregateAndProof.message.aggregatorIndex)

theorem marksAccepted_attestation :
    MarksAccepted attestationKey (AttestationCall.validate β) := by
  intro args seen
  unfold AttestationCall.validate validateGossipAttestation
  rw [Async.sat_lift_bind]
  refine ⟨?_, fun e _ => rfl⟩
  rintro ⟨bitIndex, attHeadBlock⟩ -
  rw [Async.sat_await_bind]
  refine ⟨rfl, fun answer seen _ => ?_⟩
  rw [Async.sat_lift_bind]
  refine ⟨fun attHeadState _ => ?_, fun e _ => rfl⟩
  rw [Async.sat_lift_bind]
  refine ⟨?_, fun e _ => rfl⟩
  rintro ⟨validatorIndex, expectedSubnet⟩ -
  rw [Async.sat_read_bind]
  refine ⟨fun _ _ => ?_, fun e _ => rfl⟩
  rw [Async.sat_await_bind]
  refine ⟨rfl, fun answer seen _ => ?_⟩
  rw [Async.sat_lift_bind]
  refine ⟨fun _ _ => ?_, fun e _ => rfl⟩
  -- the last stretch: the check, and the mark
  rw [Async.sat_read_bind]
  refine ⟨fun _ hnew => ?_, fun e _ => rfl⟩
  rw [Async.sat_sync_bind]
  refine ⟨fun _ seen' hadd => ?_, fun e _ => rfl⟩
  exact ⟨verifyAttesterNotKnown_eq_ok hnew, addSeen_eq_ok hadd⟩

theorem marksAccepted_aggregate :
    MarksAccepted aggregateKey (AggregateCall.validate β) := by
  intro args seen
  unfold AggregateCall.validate validateGossipAggregateAndProof
  rw [Async.sat_lift_bind]
  refine ⟨fun _ _ => ?_, fun e _ => rfl⟩
  rw [Async.sat_read_bind]
  refine ⟨fun _ _ => ?_, fun e _ => rfl⟩
  rw [Async.sat_lift_bind]
  refine ⟨fun attHeadBlock _ => ?_, fun e _ => rfl⟩
  rw [Async.sat_await_bind]
  refine ⟨rfl, fun answer seen _ => ?_⟩
  rw [Async.sat_lift_bind]
  refine ⟨fun attHeadState _ => ?_, fun e _ => rfl⟩
  rw [Async.sat_lift_bind]
  refine ⟨?_, fun e _ => rfl⟩
  rintro ⟨committeeIndices, attestingIndices⟩ -
  rw [Async.sat_await_bind]
  refine ⟨rfl, fun answer seen _ => ?_⟩
  rw [Async.sat_lift_bind]
  refine ⟨fun _ _ => ?_, fun e _ => rfl⟩
  -- the last stretch: the check, and the mark
  rw [Async.sat_read_bind]
  refine ⟨fun _ hnew => ?_, fun e _ => rfl⟩
  rw [Async.sat_sync_bind]
  refine ⟨fun _ seen' hadd => ?_, fun e _ => rfl⟩
  exact ⟨verifyAggregatorNotKnown_eq_ok hnew, addSeen_eq_ok hadd⟩

/-- What holds at any time of a run of the calls of a validation and of prunes. -/
structure AcceptsOnce (key : ι → ρ → Nat × Nat) (validate : ι → GossipTask β ρ)
    (labels : List (GossipLabel ι β))
    (loop : EventLoop ι SeenAttesters GossipQuery (GossipAnswer β) GossipError ρ) : Prop where
  /-- No two calls succeed for one epoch and validator. -/
  once : ∀ i j k, Succeeded key loop i k → Succeeded key loop j k → i = j
  /-- A call that succeeds now has an epoch that is not below the bound of the prunes. -/
  permissible : ∀ l loop', GossipStep validate loop l loop' → ∀ i k, ¬ Succeeded key loop i k →
    Succeeded key loop' i k → prunedBound labels ≤ k.1
  /-- Known are the keys of the calls that have succeeded, and no others. -/
  known : ∀ epoch index, loop.store.isKnown epoch index = true ↔
    prunedBound labels ≤ epoch ∧ ∃ i, Succeeded key loop i (epoch, index)
  /-- A step in which no call succeeds marks nothing. -/
  unmarked : ∀ l loop', GossipStep validate loop l loop' →
    (∀ i k, Succeeded key loop' i k → Succeeded key loop i k) →
    ∀ epoch index, loop'.store.isKnown epoch index = true → loop.store.isKnown epoch index = true

theorem acceptsOnce (hmarks : MarksAccepted key validate) (hrun : GossipRun validate labels loop)
    (hmono : (prunedEpochs labels).Pairwise (· ≤ ·)) : AcceptsOnce key validate labels loop := by
  obtain ⟨hinv, hbound⟩ := hrun.inv hmarks hmono
  refine ⟨hinv.unique, fun l loop' hstep i k hnot hsucceeded => ?_, fun epoch index => ?_,
    fun l loop' hstep hnone epoch index hknown => ?_⟩
  · rcases hstep.cases hmarks.guarantees (EventLoop.Run.guaranteed hmarks.guarantees hrun) with
      ⟨currentEpoch, rfl, rfl⟩ | ⟨j, call, hstretch⟩
    · exact (hnot hsucceeded).elim
    · rcases SeenStretch.cases hstretch with ⟨-, hsame⟩ | ⟨k', -, hadd, hiff⟩
      · exact (hnot ((hsame i k).1 hsucceeded)).elim
      · rcases (hiff i k).1 hsucceeded with hbefore | ⟨-, rfl⟩
        · exact (hnot hbefore).elim
        · rw [← hbound]
          exact (SeenAttesters.add_eq_ok hadd).1
  · rw [← hbound]
    exact hinv.known epoch index
  · rcases hstep.cases hmarks.guarantees (EventLoop.Run.guaranteed hmarks.guarantees hrun) with
      ⟨currentEpoch, rfl, rfl⟩ | ⟨j, call, hstretch⟩
    · exact (SeenAttesters.isKnown_prune.1 hknown).2
    · rcases SeenStretch.cases hstretch with ⟨hstore, -⟩ | ⟨k', hnew, hadd, hiff⟩
      · rwa [hstore] at hknown
      · -- the call that succeeds would have succeeded before
        have hbefore := hnone j k' ((hiff j k').2 (.inr ⟨rfl, rfl⟩))
        exact (SeenStretch.not_succeeded hstretch k' hbefore).elim

/-- However the calls of either validation and the prunes interleave, each validator is accepted
once in each epoch. -/
theorem gossip_accepts_once (β : Type) :
    (∀ labels loop, GossipRun (AttestationCall.validate β) labels loop →
      (prunedEpochs labels).Pairwise (· ≤ ·) →
      AcceptsOnce attestationKey (AttestationCall.validate β) labels loop) ∧
    (∀ labels loop, GossipRun (AggregateCall.validate β) labels loop →
      (prunedEpochs labels).Pairwise (· ≤ ·) →
      AcceptsOnce aggregateKey (AggregateCall.validate β) labels loop) :=
  ⟨fun _ _ hrun hmono => acceptsOnce marksAccepted_attestation hrun hmono,
    fun _ _ hrun hmono => acceptsOnce marksAccepted_aggregate hrun hmono⟩

end

/-! ## One vote, twice -/

attribute [local instance] minimal

/-- Two calls, of which the second is answered first, and a prune. -/
def singleVoteTwice : List (GossipLabel AttestationCall (List Nat)) :=
  let signatureSets := [.indexedAttestation ⟨[4], singleVote.attestation.data, 0⟩]
  [.call singleVote, .act 4, .call singleVote, .answer 1 ⟨.getState 0x50, .ok gossipState⟩,
    .answer 0 ⟨.getState 0x50, .ok gossipState⟩,
    .answer 1 ⟨.verifySignatureSets signatureSets, .ok true⟩,
    .answer 0 ⟨.verifySignatureSets signatureSets, .ok true⟩]

/-- Both calls pass the first check, and the first one is too late. -/
theorem gossip_accepts_once_singleVote :
    ∃ loop, GossipRun (AttestationCall.validate (List Nat)) singleVoteTwice loop ∧
      loop.calls.map (fun call => call.turn.result?.map fun result => result.isOk) =
        [some false, some true] ∧
      loop.store.isKnown 3 4 = true ∧
      AcceptsOnce attestationKey (AttestationCall.validate (List Nat)) singleVoteTwice loop := by
  have hrun : ∃ loop, GossipRun (AttestationCall.validate (List Nat)) singleVoteTwice loop ∧
      loop.calls.map (fun call => call.turn.result?.map fun result => result.isOk) =
        [some false, some true] ∧
      loop.store.isKnown 3 4 = true := by
    refine ⟨_, .step (.step (.step (.step (.step (.step (.step .start trivial (.call _ _))
      trivial (.act _ _)) trivial (.call _ _)) trivial (.answer rfl _)) trivial (.answer rfl _))
      trivial (.answer rfl _)) trivial (.answer rfl _), ?_, ?_⟩
    · rfl
    · rfl
  obtain ⟨loop, hrun, hresults, hknown⟩ := hrun
  exact ⟨loop, hrun, hresults, hknown,
    (gossip_accepts_once (List Nat)).1 singleVoteTwice loop hrun (List.pairwise_singleton _ _)⟩

end Lodestar.Chain
