import Lodestar.Network.AdvertisedSubnets

/-!
# Runs of the subnets services

The advertised subnets are the subscribed ones as long as no subscription ends without
a write of the bits and gossip leaves no subnet that is still held (`alwaysAdvertised`).
-/

namespace Lodestar.Network

open Lodestar.Base Lodestar.StateTransition

section

variable [Preset] {opts : SubnetsServiceOpts} {currentSlot : Nat} {this : SubnetsServices}

/-! ## Runs -/

/-- An event and `clock.currentSlot` at it. -/
structure TimedEvent where
  currentSlot : Nat
  event : SubnetsEvent

/-- The clock does not go back. -/
def InClockOrder : Nat → List TimedEvent → Prop
  | _, [] => True
  | now, e :: events => now ≤ e.currentSlot ∧ InClockOrder e.currentSlot events

variable (opts) in
def SubnetsServices.run (this : SubnetsServices) (events : List TimedEvent) : SubnetsServices :=
  events.foldl (fun this e => this.step opts e.currentSlot e.event) this

/-- No bit goes stale at the event, and no subnet is left that is still held. -/
def Keeps (opts : SubnetsServiceOpts) (currentSlot : Nat) (this : SubnetsServices) :
    SubnetsEvent → Prop
  | .prepareBeaconCommitteeSubnet subscriptions _ =>
    (∀ sub ∈ subscriptions,
      this.attnetsService.knownValidators.has sub.validatorIndex = true) ∨
    CommitteeNotLeft opts currentSlot this
  | .prepareSyncCommitteeSubnets subscriptions =>
    ∀ sub ∈ subscriptions, sub.subnet < SYNC_COMMITTEE_SUBNET_COUNT
  | .clockSlot slot =>
    opts.subscribeAllSubnets = true ∨
    ∀ subnet ∈ (this.attnetsService.subscriptionsCommittee.getExpired slot).1,
      this.attnetsService.subscriptionsRandom.has subnet = true →
        this.attnetsService.subscriptionsRandom.isActiveAtSlot subnet slot = true
  | .clockEpoch epoch _ _ =>
    let slot := computeStartSlotAtEpoch epoch
    (this.syncnetsService.subscriptionsCommittee.getExpired slot).1 = [] ∧
    AttnetsService.ExpiryWritten slot this.attnetsService ∧
    CommitteeNotLeft opts currentSlot this ∧
    (opts.subscribeAllSubnets = true ∨
      ∀ subnet ∈ (this.attnetsService.subscriptionsRandom.getExpired slot).1,
        this.attnetsService.subscriptionsCommittee.has subnet = true →
          this.attnetsService.subscriptionsCommittee.isActiveAtSlot subnet slot = true)

/-- Of every event of a run, in the state before it. -/
def AlwaysKeeps (opts : SubnetsServiceOpts) : SubnetsServices → List TimedEvent → Prop
  | _, [] => True
  | this, e :: events =>
    Keeps opts e.currentSlot this e.event ∧
    AlwaysKeeps opts (this.step opts e.currentSlot e.event) events

/-- After every event of a run. -/
def AlwaysAdvertised (opts : SubnetsServiceOpts) : SubnetsServices → List TimedEvent → Prop
  | _, [] => True
  | this, e :: events =>
    AdvertisesSubscribed opts e.currentSlot (this.step opts e.currentSlot e.event) ∧
    AlwaysAdvertised opts (this.step opts e.currentSlot e.event) events

theorem AlwaysAdvertised.of_append {before after : List TimedEvent} {e : TimedEvent}
    (h : AlwaysAdvertised opts this (before ++ e :: after)) :
    AdvertisesSubscribed opts e.currentSlot (this.run opts (before ++ [e])) := by
  induction before generalizing this with
  | nil => exact h.1
  | cons e' before ih => exact ih h.2

theorem sound_init : Sound opts currentSlot SubnetsServices.init where
  syncnets subnet := by
    show bitAt (List.replicate _ false) subnet = true ↔ _
    rw [bitAt_replicate]
    rfl
  syncRange _ h := absurd h Bool.false_ne_true
  syncNotLeft _ h := absurd h Bool.false_ne_true
  bitsRange subnet h := by
    have hnone : bitAt (List.replicate ATTESTATION_SUBNET_COUNT false) subnet = true := h
    rw [bitAt_replicate] at hnone
    cases hnone
  attRange _ h := absurd h Bool.false_ne_true
  attNotLeft _ h := absurd h Bool.false_ne_true
  begun _ h := absurd h Bool.false_ne_true

omit [Preset] in
theorem attnetsWritten_init : AttnetsWritten SubnetsServices.init := by
  intro subnet
  show bitAt (List.replicate _ false) subnet = true ↔ _
  rw [bitAt_replicate]
  rfl

theorem sound_step (h : Sound opts currentSlot this) (hbits : AttnetsWritten this)
    {event : SubnetsEvent} (hkeeps : Keeps opts currentSlot this event) :
    Sound opts currentSlot (this.step opts currentSlot event) ∧
      AttnetsWritten (this.step opts currentSlot event) := by
  cases event with
  | prepareBeaconCommitteeSubnet subscriptions random =>
    exact AttnetsService.sound_addCommitteeSubscriptions h hbits random subscriptions hkeeps
  | prepareSyncCommitteeSubnets subscriptions =>
    exact SyncnetsService.sound_addCommitteeSubscriptions h hbits subscriptions hkeeps
  | clockSlot slot => exact AttnetsService.sound_onSlot h hbits hkeeps
  | clockEpoch epoch expired pruned =>
    obtain ⟨hsync, hwritten, hcommittee, hactive⟩ := hkeeps
    have hdone := AttnetsService.sound_onEpoch h hbits expired pruned epoch hwritten hcommittee
      hactive
    have hsync' : ((AttnetsService.onEpoch opts currentSlot expired pruned epoch
        this).syncnetsService.subscriptionsCommittee.getExpired (computeStartSlotAtEpoch epoch)).1
          = [] := by
      rw [AttnetsService.syncnetsService_onEpoch]
      exact hsync
    have hstep : this.step opts currentSlot (.clockEpoch epoch expired pruned)
        = AttnetsService.onEpoch opts currentSlot expired pruned epoch this :=
      SyncnetsService.onEpoch_eq_self hsync'
    rw [hstep]
    exact hdone

theorem alwaysAdvertised_of_sound {events : List TimedEvent} (h : Sound opts currentSlot this)
    (hbits : AttnetsWritten this) (hclock : InClockOrder currentSlot events)
    (hkeeps : AlwaysKeeps opts this events) : AlwaysAdvertised opts this events := by
  induction events generalizing this currentSlot with
  | nil => trivial
  | cons e events ih =>
    obtain ⟨hle, hclock⟩ := hclock
    obtain ⟨hnow, hkeeps⟩ := hkeeps
    obtain ⟨hsound, hwritten⟩ := sound_step (h.later hle) hbits hnow
    exact ⟨hsound.advertises hwritten, ih hsound hwritten hclock hkeeps⟩

theorem alwaysAdvertised {events : List TimedEvent} (hclock : InClockOrder 0 events)
    (hkeeps : AlwaysKeeps opts .init events) : AlwaysAdvertised opts .init events :=
  alwaysAdvertised_of_sound sound_init attnetsWritten_init hclock hkeeps

instance {type : SubnetGossipType} {gossip : List GossipCall} {subnet : Nat} :
    Decidable (NotLeft opts currentSlot gossip type subnet) :=
  inferInstanceAs (Decidable (∀ fork ∈ currentForks opts currentSlot, _ = _))

instance : Decidable (CommitteeNotLeft opts currentSlot this) :=
  inferInstanceAs (Decidable (∀ _ ∈ _, NotLeft ..))

instance {slot : Nat} {service : AttnetsService} :
    Decidable (AttnetsService.ExpiryWritten slot service) :=
  inferInstanceAs (Decidable (_ ∨ _ ∨ _))

instance : (event : SubnetsEvent) → Decidable (Keeps opts currentSlot this event)
  | .prepareBeaconCommitteeSubnet .. => inferInstanceAs (Decidable (_ ∨ _))
  | .prepareSyncCommitteeSubnets _ => inferInstanceAs (Decidable (∀ _ ∈ _, _))
  | .clockSlot _ => inferInstanceAs (Decidable (_ ∨ ∀ _ ∈ _, _ → _))
  | .clockEpoch .. => inferInstanceAs (Decidable (_ ∧ _ ∧ _ ∧ (_ ∨ ∀ _ ∈ _, _ → _)))

instance decidableAlwaysKeeps :
    (this : SubnetsServices) → (events : List TimedEvent) →
      Decidable (AlwaysKeeps opts this events)
  | _, [] => .isTrue trivial
  | this, e :: events =>
    have := decidableAlwaysKeeps (this.step opts e.currentSlot e.event) events
    inferInstanceAs (Decidable (_ ∧ AlwaysKeeps ..))

instance decidableInClockOrder :
    (now : Nat) → (events : List TimedEvent) → Decidable (InClockOrder now events)
  | _, [] => .isTrue trivial
  | _, e :: events =>
    have := decidableInClockOrder e.currentSlot events
    inferInstanceAs (Decidable (_ ∧ InClockOrder ..))

end

/-! ## Runs of a few subscriptions -/

section Examples

attribute [local instance] minimal

def altairOpts : SubnetsServiceOpts :=
  ⟨{ chainConfigMinimal with ALTAIR_FORK_EPOCH := (0 : Nat) }, false⟩

def noDraws : RandomDraws := ⟨fun _ => 0, fun _ => 0⟩

/-- The ticks up to a slot. -/
def ticks (slots : Nat) : List TimedEvent :=
  (List.range slots).flatMap fun i =>
    if (i + 1) % SLOTS_PER_EPOCH = 0 then
      [⟨i + 1, .clockSlot (i + 1)⟩,
        ⟨i + 1, .clockEpoch (computeEpochAtSlot (i + 1)) noDraws noDraws⟩]
    else [⟨i + 1, .clockSlot (i + 1)⟩]

/-- A validator asks for a subnet of its sync committee and aggregates on a subnet of its
attestations. -/
def committeeEvents : List TimedEvent :=
  [⟨0, .prepareSyncCommitteeSubnets [⟨0, 1, 8, true⟩]⟩,
    ⟨0, .prepareBeaconCommitteeSubnet [⟨0, 5, 2, true⟩] noDraws⟩]

theorem alwaysAdvertised_firstEpoch :
    AlwaysAdvertised altairOpts .init (committeeEvents ++ ticks 8) :=
  alwaysAdvertised (by decide +kernel) (by decide +kernel)

/-- The events up to the tick of the epoch after the sync committee subscription. -/
def beforeExpiry : List TimedEvent :=
  committeeEvents ++ ticks 15 ++ [⟨16, .clockSlot 16⟩]

def expiryTick : TimedEvent := ⟨16, .clockEpoch 2 noDraws noDraws⟩

/-- The subscription ends, gossip leaves its subnet, and its bit stays. -/
theorem expiryTick_not_alwaysAdvertised :
    InClockOrder 0 (beforeExpiry ++ [expiryTick]) ∧
      ¬ AlwaysAdvertised altairOpts .init (beforeExpiry ++ [expiryTick]) := by
  refine ⟨by decide +kernel, fun h => ?_⟩
  have hbit : bitAt (SubnetsServices.init.run altairOpts
      (beforeExpiry ++ [expiryTick])).metadata.syncnets 1 = true := by
    decide +kernel
  have hheld : (SubnetsServices.init.run altairOpts
      (beforeExpiry ++ [expiryTick])).syncnetsService.subscriptionsCommittee.has 1 = false := by
    decide +kernel
  exact Bool.false_ne_true (hheld.symm.trans ((h.of_append.syncnets 1).mp hbit))

end Examples

end Lodestar.Network
