import Lodestar.Network.AdvertisedRuns
import Lodestar.Network.GossipSubscriptions

/-!
# Runs of the attestation subnets

Gossip follows the maps as long as no subnet is asked for that a map holds without its
topics being joined, and no subnet is needed when a fork becomes active or is left
(`alwaysFollows`).
-/

namespace Lodestar.Network

open Lodestar.Base Lodestar.StateTransition

section

variable [Preset] {opts : SubnetsServiceOpts} {currentSlot : Nat} {this : SubnetsServices}

/-! ## Runs -/

inductive AttnetsEvent where
  | addCommitteeSubscriptions (subscriptions : List CommitteeSubscription) (random : RandomDraws)
  | clockSlot (slot : Nat)
  | clockEpoch (epoch : Nat) (expired pruned : RandomDraws)
  | subscribeSubnetsToNextFork (nextFork : ForkName)
  | unsubscribeSubnetsFromPrevFork (prevFork : ForkName)

/-- An event and `clock.currentSlot` at it. -/
structure TimedAttnetsEvent where
  currentSlot : Nat
  event : AttnetsEvent

open AttnetsService in
def SubnetsServices.stepAttnets (opts : SubnetsServiceOpts) (this : SubnetsServices)
    (e : TimedAttnetsEvent) : SubnetsServices :=
  match e.event with
  | .addCommitteeSubscriptions subscriptions random =>
    addCommitteeSubscriptions opts e.currentSlot random subscriptions this
  | .clockSlot slot => onSlot opts e.currentSlot slot this
  | .clockEpoch epoch expired pruned => onEpoch opts e.currentSlot expired pruned epoch this
  | .subscribeSubnetsToNextFork nextFork => subscribeSubnetsToNextFork nextFork this
  | .unsubscribeSubnetsFromPrevFork prevFork => unsubscribeSubnetsFromPrevFork opts prevFork this

/-- Nothing ticks before its slot. -/
def Due : TimedAttnetsEvent → Prop
  | ⟨currentSlot, .clockSlot slot⟩ => slot ≤ currentSlot
  | ⟨currentSlot, .clockEpoch epoch _ _⟩ => computeStartSlotAtEpoch epoch ≤ currentSlot
  | _ => True

/-- The clock does not go back, and no tick is early. -/
def InTickOrder : Nat → List TimedAttnetsEvent → Prop
  | _, [] => True
  | now, e :: events => now ≤ e.currentSlot ∧ Due e ∧ InTickOrder e.currentSlot events

/-- What is asked for is joined if it is held, and no subnet is needed at a change of forks. -/
def KeepsSubscriptions (opts : SubnetsServiceOpts) (this : SubnetsServices) :
    TimedAttnetsEvent → Prop
  | ⟨currentSlot, .addCommitteeSubscriptions subscriptions _⟩ =>
    (∀ sub ∈ subscriptions, sub.isAggregator = true → this.attnetsService.Held sub.subnet →
      Joined opts currentSlot this.gossip sub.subnet) ∧
    ((∀ sub ∈ subscriptions,
      this.attnetsService.knownValidators.has sub.validatorIndex = true) ∨
      HeldJoined opts currentSlot this)
  | ⟨_, .clockSlot _⟩ => True
  | ⟨currentSlot, .clockEpoch epoch _ _⟩ =>
    let slot := computeStartSlotAtEpoch epoch
    HeldJoined opts currentSlot this ∧
    ∀ subnet ∈ (this.attnetsService.subscriptionsRandom.getExpired slot).1,
      this.attnetsService.subscriptionsCommittee.has subnet = true →
        this.attnetsService.subscriptionsCommittee.isActiveAtSlot subnet slot = true
  | ⟨currentSlot, .subscribeSubnetsToNextFork nextFork⟩ =>
    nextFork ∈ currentForks opts currentSlot
  | ⟨currentSlot, .unsubscribeSubnetsFromPrevFork prevFork⟩ =>
    prevFork ∉ currentForks opts currentSlot ∨
    this.attnetsService.subscriptionsCommittee.getActive currentSlot = [] ∧
      this.attnetsService.subscriptionsRandom.getActive currentSlot = []

/-- Of every event of a run, in the state before it and after the event at `earlier`. -/
def AlwaysKeepsSubscriptions (opts : SubnetsServiceOpts) :
    Nat → SubnetsServices → List TimedAttnetsEvent → Prop
  | _, _, [] => True
  | earlier, this, e :: events =>
    ForksSettled opts earlier e.currentSlot this ∧ KeepsSubscriptions opts this e ∧
    AlwaysKeepsSubscriptions opts e.currentSlot (this.stepAttnets opts e) events

/-- After every event of a run. -/
def AlwaysFollows (opts : SubnetsServiceOpts) : SubnetsServices → List TimedAttnetsEvent → Prop
  | _, [] => True
  | this, e :: events =>
    FollowsMaps opts e.currentSlot (this.stepAttnets opts e) ∧
    AlwaysFollows opts (this.stepAttnets opts e) events

theorem AlwaysFollows.of_cons {e : TimedAttnetsEvent} {events : List TimedAttnetsEvent}
    (h : AlwaysFollows opts this (e :: events)) :
    AlwaysFollows opts (this.stepAttnets opts e) events :=
  h.2

theorem AlwaysFollows.of_append {before after : List TimedAttnetsEvent} {e : TimedAttnetsEvent}
    (h : AlwaysFollows opts this (before ++ e :: after)) :
    FollowsMaps opts e.currentSlot
      ((before ++ [e]).foldl (SubnetsServices.stepAttnets opts) this) := by
  induction before generalizing this with
  | nil => exact h.1
  | cons e' before ih => exact ih h.2

theorem InTickOrder.append_cons {now : Nat} {before after : List TimedAttnetsEvent}
    {e : TimedAttnetsEvent} (h : InTickOrder now (before ++ [e]))
    (hafter : InTickOrder e.currentSlot after) : InTickOrder now (before ++ [e] ++ after) := by
  induction before generalizing now with
  | nil => exact ⟨h.1, h.2.1, hafter⟩
  | cons e' before ih => exact ⟨h.1, h.2.1, ih h.2.2⟩

theorem tracks_init : Tracks opts currentSlot SubnetsServices.init where
  joined _ h := h.elim (fun h => absurd h Bool.false_ne_true) fun h => absurd h Bool.false_ne_true
  free _ _ _ _ := rfl
  begun _ h := absurd h Bool.false_ne_true

open AttnetsService in
theorem tracks_stepAttnets (hall : opts.subscribeAllSubnets = false) {e : TimedAttnetsEvent}
    (h : Tracks opts e.currentSlot this) (hdue : Due e) (hkeeps : KeepsSubscriptions opts this e) :
    Tracks opts e.currentSlot (this.stepAttnets opts e) := by
  obtain ⟨currentSlot, event⟩ := e
  cases event with
  | addCommitteeSubscriptions subscriptions random =>
    exact tracks_addCommitteeSubscriptions h hall random subscriptions hkeeps.1 hkeeps.2
  | clockSlot slot => exact tracks_onSlot h hall hdue
  | clockEpoch epoch expired pruned =>
    exact tracks_onEpoch h hall expired pruned epoch hdue hkeeps.1 hkeeps.2
  | subscribeSubnetsToNextFork nextFork => exact tracks_subscribeSubnetsToNextFork h hkeeps
  | unsubscribeSubnetsFromPrevFork prevFork =>
    exact tracks_unsubscribeSubnetsFromPrevFork h (hkeeps.imp id not_activeAt_of_getActive)

theorem alwaysFollows_of_tracks (hall : opts.subscribeAllSubnets = false)
    {events : List TimedAttnetsEvent} (h : Tracks opts currentSlot this)
    (horder : InTickOrder currentSlot events)
    (hkeeps : AlwaysKeepsSubscriptions opts currentSlot this events) :
    AlwaysFollows opts this events := by
  induction events generalizing this currentSlot with
  | nil => trivial
  | cons e events ih =>
    obtain ⟨hle, hdue, horder⟩ := horder
    obtain ⟨hforks, hnow, hkeeps⟩ := hkeeps
    have htracks := tracks_stepAttnets hall (h.later hle hforks) hdue hnow
    exact ⟨htracks.toFollowsMaps, ih htracks horder hkeeps⟩

/-- In a run that keeps its subscriptions, gossip follows the maps after every event. -/
theorem alwaysFollows (hall : opts.subscribeAllSubnets = false) {events : List TimedAttnetsEvent}
    (horder : InTickOrder 0 events) (hkeeps : AlwaysKeepsSubscriptions opts 0 .init events) :
    AlwaysFollows opts .init events :=
  alwaysFollows_of_tracks hall tracks_init horder hkeeps

/-! ## Ticks without effect -/

/-- Nothing ends at the tick. -/
def Quiet (this : SubnetsServices) : TimedAttnetsEvent → Prop
  | ⟨_, .clockSlot slot⟩ => (this.attnetsService.subscriptionsCommittee.getExpired slot).1 = []
  | ⟨_, .clockEpoch epoch _ _⟩ =>
    let slot := computeStartSlotAtEpoch epoch
    (this.attnetsService.subscriptionsRandom.getExpired slot).1 = [] ∧
    AttnetsService.expiredKnownValidators slot this.attnetsService.knownValidators = [] ∧
    this.attnetsService.subscriptionsRandom.size = AttnetsService.target this
  | _ => False

theorem unsubscribeSubnets_nil {slot : Nat} :
    AttnetsService.unsubscribeSubnets opts currentSlot [] slot this = this := by
  unfold AttnetsService.unsubscribeSubnets
  split_ifs
  · rfl
  · show { this with gossip := this.gossip ++ [] } = this
    rw [List.append_nil]

open AttnetsService in
theorem stepAttnets_of_quiet {e : TimedAttnetsEvent} (h : Quiet this e) :
    this.stepAttnets opts e = this := by
  obtain ⟨currentSlot, event⟩ := e
  cases event with
  | clockSlot slot =>
    show onSlot opts currentSlot slot this = this
    unfold onSlot
    dsimp only
    rw [SubnetMap.getExpired_eq_self h, h]
    exact unsubscribeSubnets_nil
  | clockEpoch epoch expired pruned =>
    obtain ⟨hexpired, hknown, hsize⟩ := h
    show onEpoch opts currentSlot expired pruned epoch this = this
    unfold onEpoch unsubscribeExpiredRandomSubnets
    dsimp only
    rw [SubnetMap.getExpired_eq_self hexpired, hexpired]
    have hthis : unsubscribeSubnets opts currentSlot [] (computeStartSlotAtEpoch epoch)
        { this with
          attnetsService.subscriptionsRandom := this.attnetsService.subscriptionsRandom }
        = this := unsubscribeSubnets_nil
    rw [hthis, rebalanceRandomSubnets_eq_self expired hsize]
    unfold pruneExpiredKnownValidators
    rw [hknown]
    exact if_neg fun h => h rfl
  | addCommitteeSubscriptions | subscribeSubnetsToNextFork | unsubscribeSubnetsFromPrevFork =>
    exact h.elim

theorem foldl_stepAttnets_of_quiet {events : List TimedAttnetsEvent}
    (h : ∀ e ∈ events, Quiet this e) :
    events.foldl (SubnetsServices.stepAttnets opts) this = this := by
  induction events with
  | nil => rfl
  | cons e events ih =>
    obtain ⟨he, hevents⟩ := List.forall_mem_cons.mp h
    rw [List.foldl_cons, stepAttnets_of_quiet he, ih hevents]

instance : (e : TimedAttnetsEvent) → Decidable (Quiet this e)
  | ⟨_, .clockSlot _⟩ => inferInstanceAs (Decidable (_ = _))
  | ⟨_, .clockEpoch ..⟩ => inferInstanceAs (Decidable (_ ∧ _ ∧ _))
  | ⟨_, .addCommitteeSubscriptions ..⟩ => .isFalse id
  | ⟨_, .subscribeSubnetsToNextFork _⟩ => .isFalse id
  | ⟨_, .unsubscribeSubnetsFromPrevFork _⟩ => .isFalse id

omit [Preset] in
instance {service : AttnetsService} {subnet : Nat} :
    Decidable (service.ActiveAt currentSlot subnet) :=
  inferInstanceAs (Decidable (_ ∨ _))

instance {gossip : List GossipCall} {subnet : Nat} :
    Decidable (Joined opts currentSlot gossip subnet) :=
  inferInstanceAs (Decidable (∀ fork ∈ currentForks opts currentSlot, _ = _))

instance : Decidable (HeldJoined opts currentSlot this) :=
  inferInstanceAs (Decidable (∀ _ ∈ _, Joined ..))

instance {earlier : Nat} : Decidable (ForksSettled opts earlier currentSlot this) :=
  inferInstanceAs (Decidable ((∀ _ ∈ _, _ ∈ _) ∨ _ ∧ _))

omit [Preset] in
instance {service : AttnetsService} {subnet : Nat} : Decidable (service.Held subnet) :=
  inferInstanceAs (Decidable (_ ∨ _))

instance : (e : TimedAttnetsEvent) → Decidable (Due e)
  | ⟨_, .clockSlot _⟩ => inferInstanceAs (Decidable (_ ≤ _))
  | ⟨_, .clockEpoch ..⟩ => inferInstanceAs (Decidable (_ ≤ _))
  | ⟨_, .addCommitteeSubscriptions ..⟩ => .isTrue trivial
  | ⟨_, .subscribeSubnetsToNextFork _⟩ => .isTrue trivial
  | ⟨_, .unsubscribeSubnetsFromPrevFork _⟩ => .isTrue trivial

instance : (e : TimedAttnetsEvent) → Decidable (KeepsSubscriptions opts this e)
  | ⟨_, .addCommitteeSubscriptions ..⟩ =>
    inferInstanceAs (Decidable ((∀ _ ∈ _, _ → _ → Joined ..) ∧ (_ ∨ _)))
  | ⟨_, .clockSlot _⟩ => .isTrue trivial
  | ⟨_, .clockEpoch ..⟩ => inferInstanceAs (Decidable (_ ∧ ∀ _ ∈ _, _ → _))
  | ⟨_, .subscribeSubnetsToNextFork _⟩ => inferInstanceAs (Decidable (_ ∈ _))
  | ⟨_, .unsubscribeSubnetsFromPrevFork _⟩ => inferInstanceAs (Decidable (_ ∨ _ ∧ _))

instance decidableAlwaysKeepsSubscriptions :
    (earlier : Nat) → (this : SubnetsServices) → (events : List TimedAttnetsEvent) →
      Decidable (AlwaysKeepsSubscriptions opts earlier this events)
  | _, _, [] => .isTrue trivial
  | _, this, e :: events =>
    have := decidableAlwaysKeepsSubscriptions e.currentSlot (this.stepAttnets opts e) events
    inferInstanceAs (Decidable (_ ∧ _ ∧ AlwaysKeepsSubscriptions ..))

instance decidableInTickOrder :
    (now : Nat) → (events : List TimedAttnetsEvent) → Decidable (InTickOrder now events)
  | _, [] => .isTrue trivial
  | _, e :: events =>
    have := decidableInTickOrder e.currentSlot events
    inferInstanceAs (Decidable (_ ∧ _ ∧ InTickOrder ..))

end

/-! ## A subnet asked for again -/

section Examples

attribute [local instance] minimal

/-- The ticks of some slots. -/
def attnetsTicks (first slots : Nat) : List TimedAttnetsEvent :=
  (List.range slots).flatMap fun i =>
    let slot := first + i
    if slot % SLOTS_PER_EPOCH = 0 then
      [⟨slot, .clockSlot slot⟩, ⟨slot, .clockEpoch (computeEpochAtSlot slot) noDraws noDraws⟩]
    else [⟨slot, .clockSlot slot⟩]

def attnetsRequest (currentSlot subnet slot : Nat) (isAggregator : Bool) : TimedAttnetsEvent :=
  ⟨currentSlot, .addCommitteeSubscriptions [⟨0, subnet, slot, isAggregator⟩] noDraws⟩

theorem alwaysFollows_firstSlots :
    AlwaysFollows altairOpts .init (attnetsRequest 0 9 4 true :: attnetsTicks 1 20) :=
  alwaysFollows rfl (by decide +kernel) (by decide +kernel)

/-- A validator that is seen every 128 slots, with a random subscription of subnet 1 up to slot
2048. -/
def seenEvents (i : Nat) : List TimedAttnetsEvent :=
  attnetsTicks (128 * i + 1) 128 ++ [attnetsRequest (128 * (i + 1)) 9 (128 * (i + 1)) false]

/-- An aggregator asks for that subnet in its last slot. -/
def lastSlotRequest : List TimedAttnetsEvent :=
  [attnetsRequest 2048 1 2048 true, ⟨2049, .clockSlot 2049⟩]

/-- It asks again when both subscriptions have ended. -/
def repeatedRequest : List TimedAttnetsEvent :=
  attnetsRequest 0 9 0 false ::
    ((List.range 16).flatMap seenEvents ++ (lastSlotRequest ++ [attnetsRequest 2049 1 2050 true]))

/-- The state after some of its blocks. -/
def seenState (i : Nat) : SubnetsServices :=
  (List.range i).foldl (fun this j => this.stepAttnets altairOpts
    (attnetsRequest (128 * (j + 1)) 9 (128 * (j + 1)) false))
    (SubnetsServices.init.stepAttnets altairOpts (attnetsRequest 0 9 0 false))

theorem quiet_attnetsTicks :
    ∀ i ∈ List.range 16, ∀ e ∈ attnetsTicks (128 * i + 1) 128, Quiet (seenState i) e := by
  decide +kernel

theorem seenState_zero :
    seenState 0 = SubnetsServices.init.stepAttnets altairOpts (attnetsRequest 0 9 0 false) := by
  unfold seenState
  rw [List.range_zero, List.foldl_nil]

theorem seenState_succ {i : Nat} :
    seenState (i + 1) = (seenState i).stepAttnets altairOpts
      (attnetsRequest (128 * (i + 1)) 9 (128 * (i + 1)) false) := by
  unfold seenState
  rw [List.range_succ, List.foldl_append, List.foldl_cons, List.foldl_nil]

theorem foldl_seenEvents {i : Nat} (hi : i ≤ 16) :
    ((List.range i).flatMap seenEvents).foldl (SubnetsServices.stepAttnets altairOpts)
      (seenState 0) = seenState i := by
  induction i with
  | zero => rw [List.range_zero, List.flatMap_nil, List.foldl_nil]
  | succ i ih =>
    have hquiet := quiet_attnetsTicks i (List.mem_range.mpr hi)
    rw [List.range_succ, List.flatMap_append, List.foldl_append, ih (Nat.le_of_succ_le hi),
      List.flatMap_singleton, seenEvents, List.foldl_append, foldl_stepAttnets_of_quiet hquiet,
      List.foldl_cons, List.foldl_nil, seenState_succ]

theorem inTickOrder_seenEvents :
    ∀ i ∈ List.range 16, InTickOrder (128 * i) (seenEvents i) := by
  decide +kernel

theorem inTickOrder_flatMap_seenEvents {i : Nat} (hi : i ≤ 16) {after : List TimedAttnetsEvent}
    (hafter : InTickOrder (128 * i) after) :
    InTickOrder 0 ((List.range i).flatMap seenEvents ++ after) := by
  induction i generalizing after with
  | zero => exact hafter
  | succ i ih =>
    rw [List.range_succ, List.flatMap_append, List.flatMap_singleton, List.append_assoc]
    refine ih (Nat.le_of_succ_le hi) ?_
    exact (inTickOrder_seenEvents i (List.mem_range.mpr hi)).append_cons hafter

/-- The subnet is held by the random subscription that has ended, so its topic is not joined. -/
theorem repeatedRequest_not_alwaysFollows :
    InTickOrder 0 repeatedRequest ∧ ¬ AlwaysFollows altairOpts .init repeatedRequest := by
  refine ⟨⟨Nat.le_refl 0, trivial, ?_⟩, fun h => ?_⟩
  · exact inTickOrder_flatMap_seenEvents (Nat.le_refl 16) (by decide +kernel)
  unfold repeatedRequest at h
  have hrun := h.of_cons
  rw [← seenState_zero, ← List.append_assoc] at hrun
  have hlast := hrun.of_append.joined 1
  rw [List.append_assoc, List.foldl_append, foldl_seenEvents (Nat.le_refl 16)] at hlast
  exact absurd (hlast (by decide +kernel)) (by decide +kernel)

end Examples

end Lodestar.Network
