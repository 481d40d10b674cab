import Lodestar.Base.FirstAccepted
import Lodestar.Chain.GossipBlock
import Lodestar.Chain.GossipSyncCommittee

/-!
# The first message seen

A block that is held until its slot starts is marked with no check after the
wait, and the messages of sync committees are marked with no check after their
signatures. In the runs where nothing was marked meanwhile, each key is accepted
once.
-/

namespace Lodestar.Chain

open Lodestar.Base Lodestar.Base.EventLoop Lodestar.StateTransition

section

variable [Preset] {β : Type}

/-! ## Blocks -/

/-- The slot and the proposer. -/
def GossipBlockCall.key (args : GossipBlockCall) : Nat × Nat :=
  (args.signedBlock.message.slot, args.signedBlock.message.proposerIndex)

abbrev BlockLoop (β : Type) :=
  EventLoop GossipBlockCall SeenBlockProposers GossipBlockQuery (GossipBlockAnswer β)
    GossipBlockError Unit

abbrev BlockLabel (β : Type) :=
  EventLoop.Label GossipBlockCall GossipBlockQuery (GossipBlockAnswer β) Nat

/-- What the steps of a run meet: when a block has waited for its slot, its proposer is not known,
and the finalized slot of a prune is not before that of the last one. -/
def BlockCondition (loop : BlockLoop β) : BlockLabel β → Prop
  | .call _ => True
  | .answer i ⟨.sleep _, _⟩ => ∀ call, loop.calls[i]? = some call →
      loop.store.isKnown call.args.key.1 call.args.key.2 = false
  | .answer _ _ => True
  | .act finalizedSlot => loop.store.finalizedSlot ≤ finalizedSlot

/-- The calls of `validateGossipBlock` and the prunes of `seenBlockProposers`. -/
abbrev BlockRun (C : BlockLoop β → BlockLabel β → Prop) :
    List (BlockLabel β) → BlockLoop β → Prop :=
  EventLoop.Run (GossipBlockCall.validate β) (fun finalizedSlot seen => seen.prune finalizedSlot) C
    .new

/-- A block that is accepted is marked; if it did not wait for its slot, its proposer was not
known. -/
def MarksProposer (args : GossipBlockCall)
    (answers : Answers GossipBlockQuery (GossipBlockAnswer β)) (before : SeenBlockProposers) :
    Except GossipBlockError Unit → SeenBlockProposers → Prop
  | .ok _, after => before.add args.key.1 args.key.2 = .ok after ∧
      (before.isKnown args.key.1 args.key.2 = false ∨
        ∃ earlier ms, answers = earlier ++ [⟨.sleep ms, ()⟩])
  | .error _, after => after = before

omit [Preset] in
theorem verifyProposerNotKnown_eq_ok {block : GossipBlock} {seen : SeenBlockProposers} {u : Unit}
    (h : verifyProposerNotKnown block seen = .ok u) :
    seen.isKnown block.slot block.proposerIndex = false := by
  unfold verifyProposerNotKnown at h
  split_ifs at h with hknown
  exact Bool.eq_false_of_not_eq_true hknown

omit [Preset] in
theorem addProposer_eq_ok {block : GossipBlock} {seen seen' : SeenBlockProposers} {u : Unit}
    (h : addProposer block seen = .ok (u, seen')) :
    seen.add block.slot block.proposerIndex = .ok seen' := by
  unfold addProposer at h
  cases hadd : seen.add block.slot block.proposerIndex with
  | error e =>
    rw [hadd] at h
    cases h
  | ok this =>
    rw [hadd] at h
    cases h
    rfl

theorem validateGossipBlock_sat (args : GossipBlockCall) (seen : SeenBlockProposers) :
    (args.validate β seen).Sat (fun _ _ => True) (fun _ s _ s' => s' = s) (MarksProposer args) []
      seen := by
  unfold GossipBlockCall.validate validateGossipBlock
  rw [Async.sat_lift_bind]
  refine ⟨fun _ _ => ?_, fun e _ => rfl⟩
  rw [Async.sat_read_bind]
  refine ⟨fun _ _ => ?_, fun e _ => rfl⟩
  rw [Async.sat_lift_bind]
  refine ⟨fun _ _ => ?_, fun e _ => rfl⟩
  rw [Async.sat_await_bind]
  refine ⟨rfl, fun answer seen _ => ?_⟩
  rw [Async.sat_lift_bind]
  refine ⟨fun blockState _ => ?_, fun e _ => rfl⟩
  rw [Async.sat_lift_bind]
  refine ⟨fun _ _ => ?_, fun e _ => rfl⟩
  rw [Async.sat_await_bind]
  refine ⟨rfl, fun answer seen _ => ?_⟩
  rw [Async.sat_lift_bind]
  refine ⟨fun _ _ => ?_, fun e _ => rfl⟩
  rw [Async.sat_lift_bind]
  refine ⟨fun _ _ => ?_, fun e _ => rfl⟩
  rw [Async.sat_read_bind]
  refine ⟨fun _ hnew => ?_, fun e _ => rfl⟩
  unfold holdEarlyBlock
  split
  · -- the mark comes after the wait
    rw [Async.sat_await_bind]
    refine ⟨rfl, fun _ seen _ => ?_⟩
    rw [Async.sat_sync]
    refine ⟨fun _ seen' hadd => ?_, fun e _ => rfl⟩
    exact ⟨addProposer_eq_ok hadd, .inr ⟨_, _, rfl⟩⟩
  · rw [Async.sat_pure_bind, Async.sat_sync]
    refine ⟨fun _ seen' hadd => ?_, fun e _ => rfl⟩
    exact ⟨addProposer_eq_ok hadd, .inl (verifyProposerNotKnown_eq_ok hnew)⟩

/-- Each proposer is accepted once for a slot, and known until the slot is finalized. -/
structure BlockInv (loop : BlockLoop β) : Prop where
  once : AcceptedOnce GossipBlockCall.key loop
  known : ∀ i k, Accepted GossipBlockCall.key loop i k → k.1 < loop.store.finalizedSlot ∨
    loop.store.isKnown k.1 k.2 = true

abbrev BlockStretch (l : BlockLabel β) (loop loop' : BlockLoop β) :=
  EventLoop.Stretch (fun _ _ => True) (fun _ s _ s' => s' = s) MarksProposer l loop loop'

variable {loop loop' : BlockLoop β} {l : BlockLabel β} {labels : List (BlockLabel β)} {i : Nat}
  {call : Call GossipBlockCall SeenBlockProposers GossipBlockQuery (GossipBlockAnswer β)
    GossipBlockError Unit}

/-- A stretch changes nothing, or accepts a proposer, who was not known, and marks it. -/
theorem BlockStretch.cases (h : BlockStretch l loop loop' i call) (hC : BlockCondition loop l) :
    (loop'.store = loop.store ∧ ∀ j k, Accepted GossipBlockCall.key loop' j k ↔
      Accepted GossipBlockCall.key loop j k) ∨
    (loop.store.isKnown call.args.key.1 call.args.key.2 = false ∧
      loop.store.add call.args.key.1 call.args.key.2 = .ok loop'.store) := by
  have hiff : ∀ j k, Accepted GossipBlockCall.key loop' j k ↔
      Accepted GossipBlockCall.key loop j k ∨ (j = i ∧ GossipBlockCall.key call.args = k ∧
        ∃ result, call.turn.result? = some (.ok result)) := fun _ _ => h.accepted_iff
  have hstarted := h.started
  have hstore := h.store
  have hsat := h.sat
  generalize call.turn = turn at hiff hstore hsat
  cases turn with
  | await q s resume =>
    refine .inl ⟨hstore.trans hsat.1, fun j k => (hiff j k).trans ?_⟩
    simp [Turn.result?]
  | done result s =>
    cases result with
    | error e =>
      refine .inl ⟨hstore.trans hsat, fun j k => (hiff j k).trans ?_⟩
      simp [Turn.result?]
    | ok u =>
      obtain ⟨hadd, hnew⟩ := hsat
      refine .inr ⟨?_, by rw [hstore]; exact hadd⟩
      rcases hnew with hnew | ⟨earlier, ms, hanswers⟩
      · exact hnew
      · -- the last answer is that of `sleep`, so the condition is about this call
        cases l with
        | call args =>
          rw [hstarted.2.2] at hanswers
          simp at hanswers
        | act d => exact hstarted.elim
        | answer j r =>
          obtain ⟨rfl, old, s, resume, hold, -, hargs, hlast⟩ := hstarted
          rw [hlast] at hanswers
          obtain rfl := List.singleton_inj.1 (List.append_inj_right' hanswers rfl)
          rw [hargs]
          exact hC old hold

theorem BlockInv.step (h : BlockInv loop) (hC : BlockCondition loop l)
    (hstep : (∃ d, l = .act d ∧ loop' = { loop with store := loop.store.prune d }) ∨
      ∃ i call, BlockStretch l loop loop' i call) : BlockInv loop' := by
  rcases hstep with ⟨finalizedSlot, rfl, rfl⟩ | ⟨i, call, hstretch⟩
  · refine ⟨h.once, fun i k haccepted => ?_⟩
    by_cases hlt : k.1 < finalizedSlot
    · exact .inl hlt
    · rcases h.known i k haccepted with hlow | hknown
      · exact absurd (lt_of_lt_of_le hlow hC) hlt
      · exact .inr (SeenBlockProposers.isKnown_prune.2 ⟨Nat.le_of_not_lt hlt, hknown⟩)
  · rcases BlockStretch.cases hstretch hC with ⟨hstore, hiff⟩ | ⟨hnew, hadd⟩
    · refine ⟨fun a b k ha hb => ?_, fun j k haccepted => ?_⟩
      · exact h.once a b k ((hiff a k).1 ha) ((hiff b k).1 hb)
      · rw [hstore]
        exact h.known j k ((hiff j k).1 haccepted)
    · obtain ⟨hlow, hbound, hiff⟩ := SeenBlockProposers.add_eq_ok hadd
      -- the proposer was not known and the slot is not finalized, so no call was accepted for it
      have hfresh : ∀ j, ¬ Accepted GossipBlockCall.key loop j call.args.key := by
        intro j hj
        rcases h.known j _ hj with hlt | hknown
        · omega
        · rw [hnew] at hknown
          cases hknown
      refine ⟨h.once.stretch hstretch fun _ _ => hfresh, fun j k haccepted => ?_⟩
      rw [hbound, hiff]
      rcases hstretch.accepted_iff.1 haccepted with hbefore | ⟨-, rfl, -⟩
      · exact (h.known j k hbefore).imp_right .inl
      · exact .inr (.inr ⟨rfl, rfl⟩)

theorem BlockRun.inv (hrun : BlockRun BlockCondition labels loop) : BlockInv loop := by
  induction hrun with
  | start => exact ⟨fun i j k hi => (not_accepted_nil _ hi).elim,
      fun i k hi => (not_accepted_nil _ hi).elim⟩
  | step hrun hC hstep ih => exact ih.step hC (hrun.step_cases validateGossipBlock_sat hstep)

/-! ## Sync committee messages -/

/-- The slot, the subnet and the validator. -/
def SyncCommitteeCall.key (args : SyncCommitteeCall β) : Nat × Nat × Nat :=
  (args.syncCommittee.slot, args.subnet, args.syncCommittee.validatorIndex)

/-- The slot, the subcommittee and the aggregator. -/
def ContributionCall.key (args : ContributionCall β) : Nat × Nat × Nat :=
  (args.signedContributionAndProof.message.contribution.slot,
    args.signedContributionAndProof.message.contribution.subcommitteeIndex,
    args.signedContributionAndProof.message.aggregatorIndex)

/-- The key is known. -/
def SeenBySlot.Has (this : SeenBySlot) (k : Nat × Nat × Nat) : Prop :=
  this.isKnown k.1 k.2.1 k.2.2 = true

section

variable {ι : Type}

abbrev SyncLoop (ι : Type) :=
  EventLoop ι SeenBySlot (List SyncSignatureSet) (fun _ => Except String Bool) GossipSyncError Nat

abbrev SyncLabel (ι : Type) :=
  EventLoop.Label ι (List SyncSignatureSet) (fun _ => Except String Bool) Int

/-- What the steps of a run meet: when the signatures of a message were valid, its key is not known,
and a prune drops no key that a call waits with. -/
def SyncCondition (key : ι → Nat × Nat × Nat) (maxSlots : Nat) (loop : SyncLoop ι) :
    SyncLabel ι → Prop
  | .call _ => True
  | .answer i r => r.2 = .ok true → ∀ call, loop.calls[i]? = some call →
      ¬ loop.store.Has (key call.args)
  | .act clockSlot => ∀ call ∈ loop.calls, call.turn.result? = none →
      loop.store.Has (key call.args) →
      (loop.store.pruneSlots maxSlots clockSlot).Has (key call.args)

/-- The calls of a validation and the prunes of its cache. -/
abbrev SyncRun (validate : ι → GossipSyncTask Nat) (prune : SeenBySlot → Int → SeenBySlot)
    (C : SyncLoop ι → SyncLabel ι → Prop) : List (SyncLabel ι) → SyncLoop ι → Prop :=
  EventLoop.Run validate (fun clockSlot seen => prune seen clockSlot) C .new

/-- The slot of a prune is not after the clock of a later call. -/
def InTime (currentSlot : ι → Int) (labels : List (SyncLabel ι)) : Prop :=
  labels.Pairwise fun before after => ∀ clockSlot args, before = .act clockSlot →
    after = .call args → clockSlot ≤ currentSlot args

/-- The one wait of a call, of which the key is not known. -/
def WaitsUnknown (key : ι → Nat × Nat × Nat) (currentSlot : ι → Int) (args : ι)
    (answers : Answers (List SyncSignatureSet) fun _ => Except String Bool) (before : SeenBySlot)
    (_ : List SyncSignatureSet) (after : SeenBySlot) : Prop :=
  after = before ∧ answers = [] ∧ ¬ before.Has (key args) ∧ currentSlot args - 1 ≤ (key args).1

/-- A message that is accepted is marked, after its signatures were valid. -/
def MarksMessage (key : ι → Nat × Nat × Nat) (args : ι)
    (answers : Answers (List SyncSignatureSet) fun _ => Except String Bool) (before : SeenBySlot) :
    Except GossipSyncError Nat → SeenBySlot → Prop
  | .ok _, after => after = before.add (key args).1 (key args).2.1 (key args).2.2 ∧
      ∃ q, answers = [⟨q, .ok true⟩]
  | .error _, after => after = before

/-- Whatever it is told, the validation checks the key before its wait and marks it at its end. -/
def ChecksThenMarks (key : ι → Nat × Nat × Nat) (currentSlot : ι → Int)
    (validate : ι → GossipSyncTask Nat) : Prop :=
  ∀ args seen, (validate args seen).Sat (fun _ _ => True) (WaitsUnknown key currentSlot args)
    (MarksMessage key args) [] seen

/-- Each key is accepted once; it is known until a prune that leaves its slot behind, and then no
call waits with it. -/
structure SyncInv (key : ι → Nat × Nat × Nat) (maxSlots : Nat) (labels : List (SyncLabel ι))
    (loop : SyncLoop ι) : Prop where
  once : AcceptedOnce key loop
  known : ∀ i k, Accepted key loop i k → loop.store.Has k ∨
    ∃ clockSlot, Label.act clockSlot ∈ labels ∧ (k.1 : Int) < clockSlot - maxSlots
  waiting : ∀ call ∈ loop.calls, call.turn.result? = none → ∀ i,
    Accepted key loop i (key call.args) → loop.store.Has (key call.args)

variable {key : ι → Nat × Nat × Nat} {currentSlot : ι → Int} {maxSlots : Nat}
  {loop loop' : SyncLoop ι} {l : SyncLabel ι} {labels : List (SyncLabel ι)} {i : Nat}
  {call : Call ι SeenBySlot (List SyncSignatureSet) (fun _ => Except String Bool) GossipSyncError
    Nat}

abbrev SyncStretch (key : ι → Nat × Nat × Nat) (currentSlot : ι → Int) (l : SyncLabel ι)
    (loop loop' : SyncLoop ι) (i : Nat) (call : Call ι SeenBySlot (List SyncSignatureSet)
      (fun _ => Except String Bool) GossipSyncError Nat) :=
  EventLoop.Stretch (fun _ _ => True) (WaitsUnknown key currentSlot call.args) (MarksMessage key) l
    loop loop' i call

omit [Preset] in
/-- A stretch accepts nothing and leaves the cache, and a call that waits then has a key that is not
known; or it accepts the key, after valid signatures. -/
theorem SyncStretch.cases (h : SyncStretch key currentSlot l loop loop' i call) :
    (loop'.store = loop.store ∧ (∀ j k, Accepted key loop' j k ↔ Accepted key loop j k) ∧
      (call.turn.result? = none → l = .call call.args ∧ ¬ loop.store.Has (key call.args) ∧
        currentSlot call.args - 1 ≤ (key call.args).1)) ∨
    (loop'.store = loop.store.add (key call.args).1 (key call.args).2.1 (key call.args).2.2 ∧
      (∀ j k, Accepted key loop' j k ↔ Accepted key loop j k ∨ (j = i ∧ key call.args = k)) ∧
      ∃ q old, l = .answer i ⟨q, .ok true⟩ ∧ loop.calls[i]? = some old ∧
        call.args = old.args ∧ old.turn.result? = none) := by
  have hiff : ∀ j k, Accepted key loop' j k ↔ Accepted key loop j k ∨ (j = i ∧
      key call.args = k ∧ ∃ result, call.turn.result? = some (.ok result)) := fun _ _ =>
    h.accepted_iff
  have hstarted := h.started
  have hover : ∀ old, loop.calls[i]? = some old → old.turn.result? = none := fun old hold =>
    h.result?_eq_none hold
  have hstore := h.store
  have hsat := h.sat
  generalize call.turn = turn at hiff hstore hsat
  cases turn with
  | await q s resume =>
    obtain ⟨⟨hsame, hanswers, hnew, hslot⟩, -⟩ := hsat
    refine .inl ⟨hstore.trans hsame, fun j k => (hiff j k).trans (by simp [Turn.result?]),
      fun _ => ?_⟩
    cases l with
    | call args => exact ⟨by rw [hstarted.2.1], hnew, hslot⟩
    | act d => exact hstarted.elim
    | answer j r =>
      obtain ⟨-, old, s, resume, -, -, -, hlast⟩ := hstarted
      rw [hlast] at hanswers
      simp at hanswers
  | done result s =>
    cases result with
    | error e =>
      refine .inl ⟨hstore.trans hsat, fun j k => (hiff j k).trans (by simp [Turn.result?]), ?_⟩
      intro hnone
      cases hnone
    | ok u =>
      obtain ⟨hadd, q, hanswers⟩ := hsat
      refine .inr ⟨hstore.trans hadd, fun j k => (hiff j k).trans (by simp [Turn.result?]), q, ?_⟩
      cases l with
      | call args =>
        rw [hstarted.2.2] at hanswers
        simp at hanswers
      | act d => exact hstarted.elim
      | answer j r =>
        obtain ⟨rfl, old, s, resume, hold, -, hargs, hlast⟩ := hstarted
        have hr := congrArg List.getLast? (hlast.symm.trans hanswers)
        rw [List.getLast?_concat] at hr
        obtain rfl := Option.some.inj hr
        exact ⟨old, rfl, hold, hargs, hover old hold⟩

omit [Preset] in
theorem SyncInv.stretch (h : SyncInv key maxSlots labels loop) (hmax : 2 ≤ maxSlots)
    (hC : SyncCondition key maxSlots loop l) (htime : InTime currentSlot (labels ++ [l]))
    (hstretch : SyncStretch key currentSlot l loop loop' i call) :
    SyncInv key maxSlots (labels ++ [l]) loop' := by
  have hmono : ∀ k, (∃ clockSlot, Label.act clockSlot ∈ labels ∧
      (k : Int) < clockSlot - maxSlots) → ∃ clockSlot, Label.act clockSlot ∈ labels ++ [l] ∧
      (k : Int) < clockSlot - maxSlots := by
    rintro k ⟨clockSlot, hmem, hlt⟩
    exact ⟨clockSlot, List.mem_append_left _ hmem, hlt⟩
  rcases SyncStretch.cases hstretch with
    ⟨hstore, hiff, hwaits⟩ | ⟨hstore, hiff, q, old, rfl, hold, hargs, hover⟩
  · refine ⟨fun a b k ha hb => ?_, fun j k haccepted => ?_,
      fun other hother hnone j haccepted => ?_⟩
    · exact h.once a b k ((hiff a k).1 ha) ((hiff b k).1 hb)
    · rw [hstore]
      exact (h.known j k ((hiff j k).1 haccepted)).imp_right (hmono _)
    · rw [hstore]
      rw [hiff] at haccepted
      rcases hstretch.mem_calls hother with rfl | hother
      · -- the call is new: a key that is not known was pruned, which is too long ago
        obtain ⟨rfl, hnew, hslot⟩ := hwaits hnone
        rcases h.known j _ haccepted with hknown | ⟨clockSlot, hmem, hlt⟩
        · exact hknown
        · have hle := (List.pairwise_append.1 htime).2.2 _ hmem _ (List.mem_singleton_self _)
            clockSlot other.args rfl rfl
          omega
      · exact h.waiting other hother hnone j haccepted
  · have hnew : ¬ loop.store.Has (key call.args) := by
      rw [hargs]
      exact hC rfl old hold
    have hfresh : ∀ j, ¬ Accepted key loop j (key call.args) := by
      intro j hj
      rw [hargs] at hj hnew
      exact hnew (h.waiting old (List.mem_of_getElem? hold) hover j hj)
    refine ⟨h.once.stretch hstretch fun _ _ => hfresh, fun j k haccepted => ?_,
      fun other hother hnone j haccepted => ?_⟩
    · rw [hstore]
      rcases (hiff j k).1 haccepted with hbefore | ⟨-, rfl⟩
      · rcases h.known j k hbefore with hknown | hpruned
        · exact .inl (SeenBySlot.isKnown_add hknown)
        · exact .inr (hmono _ hpruned)
      · exact .inl SeenBySlot.isKnown_add_self
    · rw [hstore]
      rcases (hiff j _).1 haccepted with hbefore | ⟨-, heq⟩
      · rcases hstretch.mem_calls hother with rfl | hother
        · exact (hfresh j hbefore).elim
        · exact SeenBySlot.isKnown_add (h.waiting other hother hnone j hbefore)
      · rw [← heq]
        exact SeenBySlot.isKnown_add_self

omit [Preset] in
theorem SyncInv.prune (h : SyncInv key maxSlots labels loop) {clockSlot : Int}
    (hC : SyncCondition key maxSlots loop (.act clockSlot)) :
    SyncInv key maxSlots (labels ++ [.act clockSlot])
      { loop with store := loop.store.pruneSlots maxSlots clockSlot } := by
  refine ⟨h.once, fun i k haccepted => ?_, fun call hcall hnone i haccepted => ?_⟩
  · rcases h.known i k haccepted with hknown | ⟨earlier, hmem, hlt⟩
    · by_cases hlt : (k.1 : Int) < clockSlot - maxSlots
      · exact .inr ⟨clockSlot, by simp, hlt⟩
      · exact .inl (SeenBySlot.isKnown_pruneSlots.2 ⟨Int.not_lt.1 hlt, hknown⟩)
    · exact .inr ⟨earlier, List.mem_append_left _ hmem, hlt⟩
  · exact hC call hcall hnone (h.waiting call hcall hnone i haccepted)

omit [Preset] in
theorem SyncRun.inv {validate : ι → GossipSyncTask Nat} {prune : SeenBySlot → Int → SeenBySlot}
    (hvalidate : ChecksThenMarks key currentSlot validate)
    (hprune : ∀ seen clockSlot, prune seen clockSlot = seen.pruneSlots maxSlots clockSlot)
    (hmax : 2 ≤ maxSlots) (hrun : SyncRun validate prune (SyncCondition key maxSlots) labels loop)
    (htime : InTime currentSlot labels) : SyncInv key maxSlots labels loop := by
  induction hrun with
  | start =>
    refine ⟨fun i j k hi => (not_accepted_nil _ hi).elim,
      fun i k hi => (not_accepted_nil _ hi).elim, fun call hcall => ?_⟩
    cases hcall
  | @step labels loop loop' l hrun hC hstep ih =>
    have hinv := ih (List.pairwise_append.1 htime).1
    rcases hrun.step_cases hvalidate hstep with ⟨clockSlot, rfl, rfl⟩ | ⟨i, call, hstretch⟩
    · rw [hprune]
      exact hinv.prune hC
    · exact hinv.stretch hmax hC htime hstretch

end

omit [Preset] in
theorem verifySyncNotKnown_eq_ok {slot subnet validatorIndex : Nat} {seen : SeenBySlot} {u : Unit}
    (h : verifySyncNotKnown slot subnet validatorIndex seen = .ok u) :
    ¬ seen.Has (slot, subnet, validatorIndex) := by
  unfold verifySyncNotKnown at h
  split_ifs at h with hknown
  exact hknown

omit [Preset] in
theorem verifySyncSignatures_eq_ok {answer : Except String Bool} {u : Unit}
    (h : verifySyncSignatures answer = .ok u) : answer = .ok true := by
  unfold verifySyncSignatures at h
  cases answer with
  | error e => cases h
  | ok valid =>
    cases valid with
    | false => cases h
    | true => rfl

theorem verifySyncCommittee_eq_ok {chain : GossipSyncChain β} {slot subnet validatorIndex : Nat}
    {out : CachedBeaconStateAllForks β × Nat}
    (h : verifySyncCommittee chain slot subnet validatorIndex = .ok out) :
    chain.clock.currentSlot - 1 ≤ slot := by
  obtain ⟨headState, -, hrest⟩ := eq_ok_of_bind h
  obtain ⟨indexInSubcommittee, hchecks, -⟩ := eq_ok_of_bind hrest
  by_contra hslot
  have hthrow : validateGossipSyncCommitteeExceptSig chain.clock headState subnet slot
      validatorIndex =
        .error (.syncCommitteeError .IGNORE (.NOT_CURRENT_SLOT slot chain.clock.currentSlot)) :=
    if_pos fun hcurrent => hslot (GossipClock.isCurrentSlotGivenGossipDisparity_ge hcurrent)
  rw [hthrow] at hchecks
  cases hchecks

theorem checksThenMarks_syncCommittee :
    ChecksThenMarks (SyncCommitteeCall.key (β := β)) (fun args => args.chain.clock.currentSlot)
      SyncCommitteeCall.validate := by
  intro args seen
  unfold SyncCommitteeCall.validate validateGossipSyncCommittee
  rw [Async.sat_lift_bind]
  refine ⟨?_, fun e _ => rfl⟩
  rintro ⟨headState, indexInSubcommittee⟩ hchecks
  rw [Async.sat_read_bind]
  refine ⟨fun _ hnew => ?_, fun e _ => rfl⟩
  rw [Async.sat_await_bind]
  refine ⟨⟨rfl, rfl, verifySyncNotKnown_eq_ok hnew, verifySyncCommittee_eq_ok hchecks⟩,
    fun answer seen _ => ?_⟩
  rw [Async.sat_lift_bind]
  refine ⟨fun _ hvalid => ?_, fun e _ => rfl⟩
  obtain rfl := verifySyncSignatures_eq_ok hvalid
  rw [Async.sat_sync_bind]
  refine ⟨fun _ seen' hadd => ?_, fun e _ => rfl⟩
  cases hadd
  exact ⟨rfl, _, rfl⟩

theorem checksThenMarks_contribution :
    ChecksThenMarks (ContributionCall.key (β := β)) (fun args => args.chain.clock.currentSlot)
      ContributionCall.validate := by
  intro args seen
  unfold ContributionCall.validate validateSyncCommitteeGossipContributionAndProof
  rw [Async.sat_lift_bind]
  refine ⟨?_, fun e _ => rfl⟩
  rintro ⟨headState, _⟩ hchecks
  rw [Async.sat_read_bind]
  refine ⟨fun _ hnew => ?_, fun e _ => rfl⟩
  rw [Async.sat_lift_bind]
  refine ⟨fun validatorIndices _ => ?_, fun e _ => rfl⟩
  rw [Async.sat_await_bind]
  refine ⟨⟨rfl, rfl, verifySyncNotKnown_eq_ok hnew, verifySyncCommittee_eq_ok hchecks⟩,
    fun answer seen _ => ?_⟩
  rw [Async.sat_lift_bind]
  refine ⟨fun _ hvalid => ?_, fun e _ => rfl⟩
  obtain rfl := verifySyncSignatures_eq_ok hvalid
  rw [Async.sat_sync_bind]
  refine ⟨fun _ seen' hadd => ?_, fun e _ => rfl⟩
  cases hadd
  exact ⟨rfl, _, rfl⟩

/-! ## Each message once -/

/-- The calls of `validateGossipSyncCommittee` and the prunes of `seenSyncCommitteeMessages`. -/
abbrev MessageRun (β : Type) :=
  SyncRun (SyncCommitteeCall.validate (β := β)) SeenSyncCommitteeMessages.prune
    (SyncCondition SyncCommitteeCall.key SeenSyncCommitteeMessages.MAX_SLOTS_IN_CACHE)

/-- The calls of `validateSyncCommitteeGossipContributionAndProof` and the prunes of
`seenContributionAndProof`. -/
abbrev ContributionRun (β : Type) :=
  SyncRun (ContributionCall.validate (β := β)) SeenContributionAndProof.prune
    (SyncCondition ContributionCall.key SeenContributionAndProof.MAX_SLOTS_IN_CACHE)

/-- In every run in which nothing is marked while a call waits to mark it, each message is accepted
once. -/
theorem gossip_accepts_first (β : Type) :
    (∀ labels (loop : BlockLoop β), BlockRun BlockCondition labels loop →
      AcceptedOnce GossipBlockCall.key loop) ∧
    (∀ labels loop, MessageRun β labels loop →
      InTime (fun args => args.chain.clock.currentSlot) labels →
      AcceptedOnce SyncCommitteeCall.key loop) ∧
    (∀ labels loop, ContributionRun β labels loop →
      InTime (fun args => args.chain.clock.currentSlot) labels →
      AcceptedOnce ContributionCall.key loop) := by
  refine ⟨fun labels loop hrun => hrun.inv.once, fun labels loop hrun htime => ?_,
    fun labels loop hrun htime => ?_⟩
  · exact (hrun.inv checksThenMarks_syncCommittee (fun _ _ => rfl) (by decide) htime).once
  · exact (hrun.inv checksThenMarks_contribution (fun _ _ => rfl) (by decide) htime).once

end

/-! ## Overlapping messages -/

attribute [local instance] minimal

/-- A chain 200 milliseconds before slot 25, whose head is of slot 24. -/
def earlyChain : GossipBlockChain where
  config := chainConfigMinimal
  genesisTime := 0
  clock := ⟨chainConfigMinimal, 0, 24, 149800⟩
  finalizedCheckpoint := ⟨1, 0xa1⟩
  getBlockHex root := if root = 0xb1 then some { gossipBlock with slot := 24 } else none

/-- A block of slot 25, of its proposer. -/
def earlyBlock (hashTreeRoot : Root) : GossipBlockCall :=
  ⟨earlyChain, ⟨⟨25, 1, 0xb1, none, hashTreeRoot⟩, 0⟩, .phase0⟩

/-- The state is found, the signature is valid, and the time is as it was. -/
def answerBlock : (q : GossipBlockQuery) → GossipBlockAnswer (List Nat) q
  | .getBlockSlotState .. => .ok { gossipState with latestExecutionPayloadHeader := none }
  | .verifySignatureSets _ => (.ok true, 149800)
  | .sleep _ => ()

/-- A head state with validator 4 in the first subcommittee. -/
def syncState : CachedBeaconStateAllForks (List Nat) :=
  { gossipState with
    epochCache := { gossipState.epochCache with
      currentSyncCommitteeIndexed := some ⟨[4], [(4, [0])]⟩ } }

def syncChain : GossipSyncChain (List Nat) where
  clock := ⟨chainConfigMinimal, 0, 25, 151000⟩
  getHeadState := .ok syncState
  hashSelectionProof _ := 0

/-- A message of validator 4. -/
def syncVote : SyncCommitteeCall (List Nat) := ⟨syncChain, ⟨25, 0xb0, 4, 0⟩, 0⟩

/-- A contribution of validator 4. -/
def syncContribution : ContributionCall (List Nat) :=
  ⟨syncChain, ⟨⟨4, ⟨25, 0xb0, 0, [true], 0⟩, 0⟩, 0⟩⟩

/-- The block waits for its slot. -/
def earlyBlockOnce : List (BlockLabel (List Nat)) :=
  [.call (earlyBlock 0xb2), .act 16, .answer 0 ⟨.getBlockSlotState 0xb1 25, answerBlock _⟩,
    .answer 0 ⟨.verifySignatureSets (earlyBlock 0xb2).signedBlock, answerBlock _⟩,
    .answer 0 ⟨.sleep 200, answerBlock _⟩]

def syncVoteOnce : List (SyncLabel (SyncCommitteeCall (List Nat))) :=
  [.act 25, .call syncVote, .answer 0 ⟨[.syncCommittee syncVote.syncCommittee], .ok true⟩]

def syncContributionOnce : List (SyncLabel (ContributionCall (List Nat))) :=
  let signed := syncContribution.signedContributionAndProof
  [.act 25, .call syncContribution,
    .answer 0 ⟨[.selectionProof signed.message, .contributionAndProof signed,
      .contribution signed.message.contribution [some 4]], .ok true⟩]

set_option maxRecDepth 4000 in
/-- One call of each validation succeeds, after a prune. -/
theorem gossip_accepts_first_once :
    ∃ (blocks : BlockLoop (List Nat)) (messages : SyncLoop (SyncCommitteeCall (List Nat)))
      (contributions : SyncLoop (ContributionCall (List Nat))),
      (Accepted GossipBlockCall.key blocks 0 (25, 1) ∧ AcceptedOnce GossipBlockCall.key blocks) ∧
      (Accepted SyncCommitteeCall.key messages 0 (25, 0, 4) ∧
        AcceptedOnce SyncCommitteeCall.key messages) ∧
      (Accepted ContributionCall.key contributions 0 (25, 0, 4) ∧
        AcceptedOnce ContributionCall.key contributions) := by
  obtain ⟨hblocks, hmessages, hcontributions⟩ := gossip_accepts_first (List Nat)
  have hblock : ∃ loop, BlockRun BlockCondition earlyBlockOnce loop ∧
      Accepted GossipBlockCall.key loop 0 (25, 1) := by
    refine ⟨_, .step (.step (.step (.step (.step .start trivial (.call _ _)) (Nat.zero_le _)
      (.act _ _)) trivial (.answer rfl _)) trivial (.answer rfl _)) ?_ (.answer rfl _), ?_⟩
    · intro call hcall
      cases hcall
      rfl
    · exact accepted_iff_getElem?.2 (by decide +kernel)
  have hmessage : ∃ loop, MessageRun (List Nat) syncVoteOnce loop ∧
      Accepted SyncCommitteeCall.key loop 0 (25, 0, 4) := by
    refine ⟨_, .step (.step (.step .start ?_ (.act _ _)) trivial (.call _ _)) ?_ (.answer rfl _),
      ?_⟩
    · intro call hcall
      cases hcall
    · intro _ call hcall
      cases hcall
      exact Bool.false_ne_true
    · exact accepted_iff_getElem?.2 (by decide +kernel)
  have hcontribution : ∃ loop, ContributionRun (List Nat) syncContributionOnce loop ∧
      Accepted ContributionCall.key loop 0 (25, 0, 4) := by
    refine ⟨_, .step (.step (.step .start ?_ (.act _ _)) trivial (.call _ _)) ?_ (.answer rfl _),
      ?_⟩
    · intro call hcall
      cases hcall
    · intro _ call hcall
      cases hcall
      exact Bool.false_ne_true
    · exact accepted_iff_getElem?.2 (by decide +kernel)
  obtain ⟨blocks, hrun, haccepted⟩ := hblock
  obtain ⟨messages, hrun', haccepted'⟩ := hmessage
  obtain ⟨contributions, hrun'', haccepted''⟩ := hcontribution
  refine ⟨blocks, messages, contributions, ⟨haccepted, hblocks _ _ hrun⟩,
    ⟨haccepted', hmessages _ _ hrun' ?_⟩, ⟨haccepted'', hcontributions _ _ hrun'' ?_⟩⟩
  · simp [InTime, syncVoteOnce, syncVote, syncChain]
  · simp [InTime, syncContributionOnce, syncContribution, syncChain]

/-- Two early blocks of one proposer, and two equal messages, are checked before either is marked. -/
theorem gossip_accepts_twice :
    (∃ labels loop, BlockRun (β := List Nat) (fun _ _ => True) labels loop ∧
      ¬ AcceptedOnce GossipBlockCall.key loop) ∧
    (∃ labels loop, SyncRun (SyncCommitteeCall.validate (β := List Nat))
      SeenSyncCommitteeMessages.prune (fun _ _ => True) labels loop ∧
      ¬ AcceptedOnce SyncCommitteeCall.key loop) ∧
    (∃ labels loop, SyncRun (ContributionCall.validate (β := List Nat))
      SeenContributionAndProof.prune (fun _ _ => True) labels loop ∧
      ¬ AcceptedOnce ContributionCall.key loop) := by
  refine ⟨?_, ?_, ?_⟩
  · refine ⟨_, _, Run.answered answerBlock [.call (earlyBlock 0xb2), .call (earlyBlock 0xb3),
      .resume 0, .resume 1, .resume 0, .resume 1, .resume 0, .resume 1], fun honce => ?_⟩
    have heq := honce 0 1 (25, 1) (accepted_iff_getElem?.2 (by decide +kernel))
      (accepted_iff_getElem?.2 (by decide +kernel))
    cases heq
  · refine ⟨_, _, Run.answered (fun _ => .ok true)
      [.call syncVote, .call syncVote, .resume 0, .resume 1], fun honce => ?_⟩
    have heq := honce 0 1 (25, 0, 4) (accepted_iff_getElem?.2 (by decide +kernel))
      (accepted_iff_getElem?.2 (by decide +kernel))
    cases heq
  · refine ⟨_, _, Run.answered (fun _ => .ok true)
      [.call syncContribution, .call syncContribution, .resume 0, .resume 1], fun honce => ?_⟩
    have heq := honce 0 1 (25, 0, 4) (accepted_iff_getElem?.2 (by decide +kernel))
      (accepted_iff_getElem?.2 (by decide +kernel))
    cases heq

end Lodestar.Chain
