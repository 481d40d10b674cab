import Lodestar.Network.SubnetsServices

/-!
# Advertised subnets

The bits of the metadata against the subscriptions and what gossip was told: what each
operation of the two services keeps (`Sound`), and under which condition the bits are
written when subscriptions end.
-/

namespace Lodestar.Network

open Lodestar.Base Lodestar.StateTransition

/-! ## What is kept -/

variable [Preset] {opts : SubnetsServiceOpts} {currentSlot : Nat} {this : SubnetsServices}

/-- In no fork of the clock's epoch was gossip told to leave the subnet. -/
def NotLeft (opts : SubnetsServiceOpts) (currentSlot : Nat) (gossip : List GossipCall)
    (type : SubnetGossipType) (subnet : Nat) : Prop :=
  ∀ fork ∈ currentForks opts currentSlot, toldToLeave gossip ⟨type, fork, subnet⟩ = false

/-- The advertised subnets are those of the subscriptions, and gossip has not left them. -/
structure AdvertisesSubscribed (opts : SubnetsServiceOpts) (currentSlot : Nat)
    (this : SubnetsServices) : Prop where
  syncnets : ∀ subnet, bitAt this.metadata.syncnets subnet = true ↔
    this.syncnetsService.subscriptionsCommittee.has subnet = true
  attnets : ∀ subnet, bitAt this.metadata.attnets subnet = true ↔
    this.attnetsService.subscriptionsRandom.has subnet = true
  syncNotLeft : ∀ subnet, bitAt this.metadata.syncnets subnet = true →
    NotLeft opts currentSlot this.gossip .sync_committee subnet
  attNotLeft : ∀ subnet, bitAt this.metadata.attnets subnet = true →
    NotLeft opts currentSlot this.gossip .beacon_attestation subnet

/-- What the operations of the long-lived subscriptions keep, before the bits are written. -/
structure Sound (opts : SubnetsServiceOpts) (currentSlot : Nat) (this : SubnetsServices) :
    Prop where
  syncnets : ∀ subnet, bitAt this.metadata.syncnets subnet = true ↔
    this.syncnetsService.subscriptionsCommittee.has subnet = true
  syncRange : ∀ subnet, this.syncnetsService.subscriptionsCommittee.has subnet = true →
    subnet < SYNC_COMMITTEE_SUBNET_COUNT
  syncNotLeft : ∀ subnet, this.syncnetsService.subscriptionsCommittee.has subnet = true →
    NotLeft opts currentSlot this.gossip .sync_committee subnet
  bitsRange : ∀ subnet, bitAt this.metadata.attnets subnet = true →
    subnet < ATTESTATION_SUBNET_COUNT
  attRange : ∀ subnet, this.attnetsService.subscriptionsRandom.has subnet = true →
    subnet < ATTESTATION_SUBNET_COUNT
  attNotLeft : ∀ subnet, this.attnetsService.subscriptionsRandom.has subnet = true →
    NotLeft opts currentSlot this.gossip .beacon_attestation subnet
  /-- No topic of a fork yet to come was left. -/
  begun : ∀ topic, toldToLeave this.gossip topic = true →
    ∃ epoch ≤ computeEpochAtSlot currentSlot, topic.fork ∈ getActiveForks opts.config epoch

/-- The bits of the long-lived subscriptions are written. -/
def AttnetsWritten (this : SubnetsServices) : Prop :=
  ∀ subnet, bitAt this.metadata.attnets subnet = true ↔
    this.attnetsService.subscriptionsRandom.has subnet = true

/-- Gossip has not left a subnet of a committee subscription. -/
def CommitteeNotLeft (opts : SubnetsServiceOpts) (currentSlot : Nat) (this : SubnetsServices) :
    Prop :=
  ∀ subnet ∈ this.attnetsService.subscriptionsCommittee.getAll,
    NotLeft opts currentSlot this.gossip .beacon_attestation subnet

theorem Sound.advertises (h : Sound opts currentSlot this) (hbits : AttnetsWritten this) :
    AdvertisesSubscribed opts currentSlot this where
  syncnets := h.syncnets
  attnets := hbits
  syncNotLeft subnet hsubnet := h.syncNotLeft subnet ((h.syncnets subnet).mp hsubnet)
  attNotLeft subnet hsubnet := h.attNotLeft subnet ((hbits subnet).mp hsubnet)

theorem computeEpochAtSlot_mono {a b : Nat} (h : a ≤ b) :
    computeEpochAtSlot a ≤ computeEpochAtSlot b :=
  Nat.div_le_div_right h

theorem Sound.later {later : Nat} (h : Sound opts currentSlot this) (hle : currentSlot ≤ later) :
    Sound opts later this := by
  have hmono := computeEpochAtSlot_mono hle
  have hnotLeft : ∀ {type : SubnetGossipType} {subnet : Nat},
      NotLeft opts currentSlot this.gossip type subnet →
        NotLeft opts later this.gossip type subnet := by
    intro type subnet hnow fork hfork
    by_contra hleft
    have htold := Bool.eq_true_of_not_eq_false hleft
    obtain ⟨epoch, hepoch, hactive⟩ := h.begun _ htold
    exact hleft (hnow fork (mem_getActiveForks_of_between hepoch hmono hactive hfork))
  refine ⟨h.syncnets, h.syncRange, fun subnet hsubnet => hnotLeft (h.syncNotLeft subnet hsubnet),
    h.bitsRange, h.attRange, fun subnet hsubnet => hnotLeft (h.attNotLeft subnet hsubnet), ?_⟩
  intro topic htold
  obtain ⟨epoch, hepoch, hactive⟩ := h.begun topic htold
  exact ⟨epoch, hepoch.trans hmono, hactive⟩

/-! ## Calls and what is kept -/

variable {type type' : SubnetGossipType} {subnet slot : Nat} {gossip : List GossipCall}
  {subnets : List Nat} {forks : List ForkName}

theorem NotLeft.subscribe (h : NotLeft opts currentSlot gossip type subnet)
    {topics : List SubnetTopic} :
    NotLeft opts currentSlot (gossip ++ topics.map .subscribeTopic) type subnet := by
  intro fork hfork
  refine Bool.eq_false_iff.mpr fun hleft => ?_
  exact Bool.eq_false_iff.mp (h fork hfork) (toldToLeave_subscribe.mp hleft).1

theorem notLeft_of_subscribe (h : subnet ∈ subnets) :
    NotLeft opts currentSlot
      (gossip ++ (subnetTopics type (currentForks opts currentSlot) subnets).map .subscribeTopic)
      type subnet := by
  intro fork hfork
  refine Bool.eq_false_iff.mpr fun hleft => ?_
  exact (toldToLeave_subscribe.mp hleft).2 (mem_subnetTopics_iff.mpr ⟨rfl, hfork, h⟩)

theorem NotLeft.unsubscribe (h : NotLeft opts currentSlot gossip type subnet)
    (hother : type' = type → subnet ∉ subnets) :
    NotLeft opts currentSlot
      (gossip ++ (subnetTopics type' forks subnets).map .unsubscribeTopic) type subnet := by
  intro fork hfork
  refine Bool.eq_false_iff.mpr fun hleft => ?_
  rcases toldToLeave_unsubscribe.mp hleft with hleft | hmem
  · exact Bool.eq_false_iff.mp (h fork hfork) hleft
  · obtain ⟨htype, -, hsubnet⟩ := mem_subnetTopics_iff.mp hmem
    exact hother htype.symm hsubnet

theorem Sound.subscribe (h : Sound opts currentSlot this) {topics : List SubnetTopic} :
    Sound opts currentSlot { this with gossip := this.gossip ++ topics.map .subscribeTopic } where
  syncnets := h.syncnets
  syncRange := h.syncRange
  syncNotLeft subnet hsubnet := (h.syncNotLeft subnet hsubnet).subscribe
  bitsRange := h.bitsRange
  attRange := h.attRange
  attNotLeft subnet hsubnet := (h.attNotLeft subnet hsubnet).subscribe
  begun topic hleft := h.begun topic (toldToLeave_subscribe.mp hleft).1

theorem Sound.unsubscribe (h : Sound opts currentSlot this)
    (hfree : ∀ subnet ∈ subnets, this.attnetsService.subscriptionsRandom.has subnet ≠ true) :
    Sound opts currentSlot
      { this with
        gossip := this.gossip
          ++ (subnetTopics .beacon_attestation (currentForks opts currentSlot) subnets).map
            .unsubscribeTopic } where
  syncnets := h.syncnets
  syncRange := h.syncRange
  syncNotLeft subnet hsubnet :=
    (h.syncNotLeft subnet hsubnet).unsubscribe fun htype => absurd htype (by decide)
  bitsRange := h.bitsRange
  attRange := h.attRange
  attNotLeft subnet hsubnet :=
    (h.attNotLeft subnet hsubnet).unsubscribe fun _ hmem => hfree subnet hmem hsubnet
  begun topic hleft := by
    rcases toldToLeave_unsubscribe.mp hleft with hleft | hmem
    · exact h.begun topic hleft
    · exact ⟨_, le_rfl, (mem_subnetTopics_iff.mp hmem).2.1⟩

theorem Sound.withRandom (h : Sound opts currentSlot this) {map : SubnetMap}
    (hmap : ∀ subnet, map.has subnet = true → subnet < ATTESTATION_SUBNET_COUNT ∧
      NotLeft opts currentSlot this.gossip .beacon_attestation subnet) :
    Sound opts currentSlot { this with attnetsService.subscriptionsRandom := map } where
  syncnets := h.syncnets
  syncRange := h.syncRange
  syncNotLeft := h.syncNotLeft
  bitsRange := h.bitsRange
  attRange subnet hsubnet := (hmap subnet hsubnet).1
  attNotLeft subnet hsubnet := (hmap subnet hsubnet).2
  begun := h.begun

theorem Sound.withFewer (h : Sound opts currentSlot this) {map : SubnetMap}
    (hmap : ∀ subnet, map.has subnet = true →
      this.attnetsService.subscriptionsRandom.has subnet = true) :
    Sound opts currentSlot { this with attnetsService.subscriptionsRandom := map } :=
  h.withRandom fun subnet hsubnet =>
    ⟨h.attRange subnet (hmap subnet hsubnet), h.attNotLeft subnet (hmap subnet hsubnet)⟩

theorem Sound.withSync (h : Sound opts currentSlot this) {map : SubnetMap} {syncnets : List Bool}
    (hmap : ∀ subnet, map.has subnet = true → subnet < SYNC_COMMITTEE_SUBNET_COUNT ∧
      NotLeft opts currentSlot this.gossip .sync_committee subnet)
    (hbits : ∀ subnet, bitAt syncnets subnet = true ↔ map.has subnet = true) :
    Sound opts currentSlot
      { this with
        syncnetsService := ⟨map⟩
        metadata := { this.metadata with syncnets } } where
  syncnets := hbits
  syncRange subnet hsubnet := (hmap subnet hsubnet).1
  syncNotLeft subnet hsubnet := (hmap subnet hsubnet).2
  bitsRange := h.bitsRange
  attRange := h.attRange
  attNotLeft := h.attNotLeft
  begun := h.begun

theorem Sound.withService (h : Sound opts currentSlot this) {service : AttnetsService}
    (hrandom : service.subscriptionsRandom = this.attnetsService.subscriptionsRandom) :
    Sound opts currentSlot { this with attnetsService := service } where
  syncnets := h.syncnets
  syncRange := h.syncRange
  syncNotLeft := h.syncNotLeft
  bitsRange := h.bitsRange
  attRange subnet hsubnet := h.attRange subnet (hrandom ▸ hsubnet)
  attNotLeft subnet hsubnet := h.attNotLeft subnet (hrandom ▸ hsubnet)
  begun := h.begun

/-! ## Long-lived subscriptions -/

namespace AttnetsService

theorem sound_unsubscribeSubnets (h : Sound opts currentSlot this)
    (hfree : opts.subscribeAllSubnets = true ∨ ∀ subnet ∈ subnets,
      this.attnetsService.subscriptionsRandom.has subnet = true →
        this.attnetsService.subscriptionsRandom.isActiveAtSlot subnet slot = true) :
    Sound opts currentSlot (unsubscribeSubnets opts currentSlot subnets slot this) := by
  unfold unsubscribeSubnets
  split_ifs with hall
  · exact h
  · refine h.unsubscribe fun subnet hsubnet hhas => ?_
    obtain ⟨hmem, hinactive⟩ := List.mem_filter.mp hsubnet
    have hactive := hfree.resolve_left hall subnet hmem hhas
    rw [hactive, Bool.not_true, Bool.and_false] at hinactive
    exact Bool.false_ne_true hinactive

theorem committeeNotLeft_unsubscribeSubnets (h : CommitteeNotLeft opts currentSlot this)
    (hactive : opts.subscribeAllSubnets = true ∨ ∀ subnet ∈ subnets,
      this.attnetsService.subscriptionsCommittee.has subnet = true →
        this.attnetsService.subscriptionsCommittee.isActiveAtSlot subnet slot = true) :
    CommitteeNotLeft opts currentSlot (unsubscribeSubnets opts currentSlot subnets slot this) := by
  unfold unsubscribeSubnets
  split_ifs with hall
  · exact h
  · refine fun subnet hsubnet => (h subnet hsubnet).unsubscribe fun _ hmem => ?_
    obtain ⟨hmem, hinactive⟩ := List.mem_filter.mp hmem
    rw [hactive.resolve_left hall subnet hmem (SubnetMap.mem_getAll_iff.mp hsubnet),
      Bool.not_true, Bool.false_and] at hinactive
    exact Bool.false_ne_true hinactive

theorem updateMetadata_written (h : Sound opts currentSlot this) :
    Sound opts currentSlot (updateMetadata this) ∧ AttnetsWritten (updateMetadata this) := by
  have hrange : ∀ subnet ∈ this.attnetsService.subscriptionsRandom.getAll,
      subnet < ATTESTATION_SUBNET_COUNT := fun subnet hsubnet =>
    h.attRange subnet (SubnetMap.mem_getAll_iff.mp hsubnet)
  unfold updateMetadata
  dsimp only
  split_ifs with hequal
  · exact ⟨h, fun subnet =>
      (bitAt_of_equalBits hequal hrange h.bitsRange).trans SubnetMap.mem_getAll_iff⟩
  · refine ⟨⟨h.syncnets, h.syncRange, h.syncNotLeft, ?_, h.attRange, h.attNotLeft, h.begun⟩, ?_⟩
    · exact fun subnet hsubnet => hrange subnet (bitAt_subnetBits.mp hsubnet)
    · exact fun subnet => bitAt_subnetBits.trans SubnetMap.mem_getAll_iff

theorem sound_connectRandomSubnets (h : Sound opts currentSlot this)
    (hcommittee : CommitteeNotLeft opts currentSlot this) (random : RandomDraws)
    (subnetDiff : Nat) :
    Sound opts currentSlot (connectRandomSubnets opts currentSlot random subnetDiff this) ∧
      CommitteeNotLeft opts currentSlot
        (connectRandomSubnets opts currentSlot random subnetDiff this) := by
  unfold connectRandomSubnets
  dsimp only
  generalize hconnect : (shuffle random.shuffle ((List.range ATTESTATION_SUBNET_COUNT).filter
    (· ∉ this.attnetsService.subscriptionsRandom.getActive currentSlot))).take subnetDiff = connect
  have hrange : ∀ subnet ∈ connect, subnet < ATTESTATION_SUBNET_COUNT := by
    intro subnet hsubnet
    rw [← hconnect] at hsubnet
    have hmem := mem_shuffle_iff.mp (List.mem_of_mem_take hsubnet)
    exact List.mem_range.mp (List.mem_filter.mp hmem).1
  have hsound : Sound opts currentSlot (subscribeToSubnets opts currentSlot connect this) :=
    h.subscribe
  have hstill : CommitteeNotLeft opts currentSlot
      (subscribeToSubnets opts currentSlot connect this) := fun subnet hsubnet =>
    (hcommittee subnet hsubnet).subscribe
  have hjoined : ∀ subnet ∈ connect, NotLeft opts currentSlot
      (subscribeToSubnets opts currentSlot connect this).gossip .beacon_attestation subnet := by
    intro subnet hsubnet
    by_cases hheld : this.attnetsService.subscriptionsCommittee.has subnet = true
    · exact hstill subnet (SubnetMap.mem_getAll_iff.mpr hheld)
    by_cases hrandom : this.attnetsService.subscriptionsRandom.has subnet = true
    · exact hsound.attNotLeft subnet hrandom
    · refine notLeft_of_subscribe (List.mem_filter.mpr ⟨hsubnet, ?_⟩)
      rw [Bool.eq_false_iff.mpr hheld, Bool.eq_false_iff.mpr hrandom]
      rfl
  refine ⟨hsound.withRandom fun subnet hsubnet => ?_, hstill⟩
  rcases SubnetMap.has_foldl_request.mp hsubnet with hnew | hold
  · rw [map_subnet_requests] at hnew
    exact ⟨hrange subnet hnew, hjoined subnet hnew⟩
  · exact ⟨hsound.attRange subnet hold, hsound.attNotLeft subnet hold⟩

@[simp] theorem attnetsService_unsubscribeSubnets :
    (unsubscribeSubnets opts currentSlot subnets slot this).attnetsService
      = this.attnetsService := by
  unfold unsubscribeSubnets
  split_ifs <;> rfl

@[simp] theorem metadata_unsubscribeSubnets :
    (unsubscribeSubnets opts currentSlot subnets slot this).metadata = this.metadata := by
  unfold unsubscribeSubnets
  split_ifs <;> rfl

theorem sound_removeRandomSubnets (h : Sound opts currentSlot this) (excess : Nat) :
    Sound opts currentSlot (removeRandomSubnets opts currentSlot excess this) := by
  unfold removeRandomSubnets
  dsimp only
  refine sound_unsubscribeSubnets (h.withFewer fun subnet hsubnet =>
    (SubnetMap.has_foldl_delete.mp hsubnet).2) (.inr fun subnet hmem hhas => ?_)
  exact absurd hmem (SubnetMap.has_foldl_delete.mp hhas).1

theorem size_le_removeRandomSubnets (excess : Nat) :
    this.attnetsService.subscriptionsRandom.size
      ≤ (removeRandomSubnets opts currentSlot excess this).attnetsService.subscriptionsRandom.size
        + excess := by
  unfold removeRandomSubnets
  dsimp only
  rw [attnetsService_unsubscribeSubnets]
  refine (SubnetMap.size_le_foldl_delete _).trans (Nat.add_le_add_left ?_ _)
  rw [List.length_drop]
  omega

/-- The number of random subnets that the known validators call for. -/
abbrev target (this : SubnetsServices) : Nat :=
  targetRandomSubnetCount this.attnetsService.knownValidators.size

theorem sound_rebalanceRandomSubnets (h : Sound opts currentSlot this) (random : RandomDraws)
    (hcommittee : this.attnetsService.subscriptionsRandom.size < target this →
      CommitteeNotLeft opts currentSlot this) :
    Sound opts currentSlot (rebalanceRandomSubnets opts currentSlot random this) ∧
      (this.attnetsService.subscriptionsRandom.size ≠ target this ∨ AttnetsWritten this →
        AttnetsWritten (rebalanceRandomSubnets opts currentSlot random this)) := by
  unfold rebalanceRandomSubnets
  dsimp only
  split_ifs with hless hmore
  · obtain ⟨hsound, hwritten⟩ := updateMetadata_written
      (sound_connectRandomSubnets h (hcommittee hless) random _).1
    exact ⟨hsound, fun _ => hwritten⟩
  · obtain ⟨hsound, hwritten⟩ := updateMetadata_written (sound_removeRandomSubnets h _)
    exact ⟨hsound, fun _ => hwritten⟩
  · have hsize : this.attnetsService.subscriptionsRandom.size = target this :=
      Nat.le_antisymm (Nat.le_of_not_lt hmore) (Nat.le_of_not_lt hless)
    exact ⟨h, (·.resolve_left (not_not.mpr hsize))⟩

@[simp] theorem syncnetsService_unsubscribeSubnets :
    (unsubscribeSubnets opts currentSlot subnets slot this).syncnetsService
      = this.syncnetsService := by
  unfold unsubscribeSubnets
  split_ifs <;> rfl

@[simp] theorem syncnetsService_rebalanceRandomSubnets (random : RandomDraws) :
    (rebalanceRandomSubnets opts currentSlot random this).syncnetsService
      = this.syncnetsService := by
  unfold rebalanceRandomSubnets removeRandomSubnets unsubscribeSubnets updateMetadata
  dsimp only
  split_ifs <;> rfl

theorem syncnetsService_onEpoch (expired pruned : RandomDraws) (epoch : Nat) :
    (onEpoch opts currentSlot expired pruned epoch this).syncnetsService
      = this.syncnetsService := by
  unfold onEpoch pruneExpiredKnownValidators unsubscribeExpiredRandomSubnets
  dsimp only
  split_ifs <;> simp

theorem committeeNotLeft_rebalanceRandomSubnets (h : Sound opts currentSlot this)
    (random : RandomDraws) (hcommittee : CommitteeNotLeft opts currentSlot this)
    (hsize : ¬ target this < this.attnetsService.subscriptionsRandom.size) :
    CommitteeNotLeft opts currentSlot (rebalanceRandomSubnets opts currentSlot random this) := by
  unfold rebalanceRandomSubnets
  dsimp only
  rw [if_neg hsize]
  split_ifs
  · unfold CommitteeNotLeft
    rw [attnetsService_updateMetadata, gossip_updateMetadata]
    exact (sound_connectRandomSubnets h hcommittee random _).2
  · exact hcommittee

theorem target_le_size_rebalanceRandomSubnets (random : RandomDraws)
    (hsize : target this < this.attnetsService.subscriptionsRandom.size) :
    target this ≤ (rebalanceRandomSubnets opts currentSlot random
      this).attnetsService.subscriptionsRandom.size := by
  unfold rebalanceRandomSubnets
  dsimp only
  rw [if_neg (Nat.lt_asymm hsize), if_pos hsize, attnetsService_updateMetadata]
  have hremoved := @size_le_removeRandomSubnets _ opts currentSlot this
    (this.attnetsService.subscriptionsRandom.size - target this)
  show target this ≤ (removeRandomSubnets opts currentSlot
    (this.attnetsService.subscriptionsRandom.size - target this)
      this).attnetsService.subscriptionsRandom.size
  omega

theorem knownValidators_rebalanceRandomSubnets (random : RandomDraws) :
    (rebalanceRandomSubnets opts currentSlot random this).attnetsService.knownValidators
      = this.attnetsService.knownValidators := by
  unfold rebalanceRandomSubnets
  dsimp only
  split_ifs
  · rw [attnetsService_updateMetadata]
    rfl
  · rw [attnetsService_updateMetadata]
    unfold removeRandomSubnets
    rw [attnetsService_unsubscribeSubnets]
  · rfl

theorem rebalanceRandomSubnets_eq_self (random : RandomDraws)
    (hsize : this.attnetsService.subscriptionsRandom.size = target this) :
    rebalanceRandomSubnets opts currentSlot random this = this := by
  unfold rebalanceRandomSubnets
  dsimp only
  rw [if_neg (Nat.not_lt.mpr hsize.ge), if_neg (Nat.not_lt.mpr hsize.le)]

/-! ## Ticks -/

/-- If random subscriptions end, the bits are written by one of the rebalances. -/
def ExpiryWritten (slot : Nat) (this : AttnetsService) : Prop :=
  (this.subscriptionsRandom.getExpired slot).1 = [] ∨
  (this.subscriptionsRandom.getExpired slot).2.size
    ≠ targetRandomSubnetCount this.knownValidators.size ∨
  (this.subscriptionsRandom.getExpired slot).2.size
    ≠ targetRandomSubnetCount ((expiredKnownValidators slot this.knownValidators).foldl
      OrderedMap.delete this.knownValidators).size

theorem sound_pruneExpiredKnownValidators (h : Sound opts currentSlot this) (random : RandomDraws)
    (hcommittee : this.attnetsService.subscriptionsRandom.size < target this →
      CommitteeNotLeft opts currentSlot this)
    (hwritten : AttnetsWritten this ∨ this.attnetsService.subscriptionsRandom.size = target this ∧
      this.attnetsService.subscriptionsRandom.size ≠ targetRandomSubnetCount
        ((expiredKnownValidators slot this.attnetsService.knownValidators).foldl
          OrderedMap.delete this.attnetsService.knownValidators).size) :
    Sound opts currentSlot (pruneExpiredKnownValidators opts currentSlot random slot this) ∧
      AttnetsWritten (pruneExpiredKnownValidators opts currentSlot random slot this) := by
  unfold pruneExpiredKnownValidators
  dsimp only
  generalize expiredKnownValidators slot this.attnetsService.knownValidators = deleted
    at hwritten ⊢
  split_ifs with hany
  · have hsound : Sound opts currentSlot
        { this with
          attnetsService.knownValidators :=
            deleted.foldl OrderedMap.delete this.attnetsService.knownValidators } :=
      h.withService rfl
    obtain ⟨hsound', hwritten'⟩ := sound_rebalanceRandomSubnets hsound random fun hless =>
      hcommittee (hless.trans_le (targetRandomSubnetCount_mono size_foldl_delete_le))
    exact ⟨hsound', hwritten' (hwritten.symm.imp And.right id)⟩
  · rw [not_not] at hany
    subst hany
    exact ⟨h, hwritten.resolve_right fun hchanged => hchanged.2 hchanged.1⟩

theorem sound_onEpoch (h : Sound opts currentSlot this) (hbits : AttnetsWritten this)
    (expired pruned : RandomDraws) (epoch : Nat)
    (hwritten : ExpiryWritten (computeStartSlotAtEpoch epoch) this.attnetsService)
    (hcommittee : CommitteeNotLeft opts currentSlot this)
    (hactive : opts.subscribeAllSubnets = true ∨
      ∀ subnet ∈ (this.attnetsService.subscriptionsRandom.getExpired
        (computeStartSlotAtEpoch epoch)).1,
        this.attnetsService.subscriptionsCommittee.has subnet = true →
          this.attnetsService.subscriptionsCommittee.isActiveAtSlot subnet
            (computeStartSlotAtEpoch epoch) = true) :
    Sound opts currentSlot (onEpoch opts currentSlot expired pruned epoch this) ∧
      AttnetsWritten (onEpoch opts currentSlot expired pruned epoch this) := by
  unfold onEpoch unsubscribeExpiredRandomSubnets
  unfold ExpiryWritten at hwritten
  generalize computeStartSlotAtEpoch epoch = slot at hwritten hactive ⊢
  dsimp only
  generalize hthis : unsubscribeSubnets opts currentSlot
    (this.attnetsService.subscriptionsRandom.getExpired slot).1 slot
    { this with
      attnetsService.subscriptionsRandom :=
        (this.attnetsService.subscriptionsRandom.getExpired slot).2 } = this'
  have hservice : this'.attnetsService =
      { this.attnetsService with
        subscriptionsRandom := (this.attnetsService.subscriptionsRandom.getExpired slot).2 } := by
    rw [← hthis, attnetsService_unsubscribeSubnets]
  have hsound : Sound opts currentSlot this' := by
    rw [← hthis, SubnetMap.getExpired_snd]
    refine sound_unsubscribeSubnets (h.withFewer fun subnet hsubnet =>
      (SubnetMap.has_foldl_delete.mp hsubnet).2) (.inr fun subnet hmem hhas => ?_)
    exact absurd hmem (SubnetMap.has_foldl_delete.mp hhas).1
  have hcommittee' : CommitteeNotLeft opts currentSlot this' := by
    rw [← hthis]
    exact committeeNotLeft_unsubscribeSubnets hcommittee hactive
  have hsize : this'.attnetsService.subscriptionsRandom
      = (this.attnetsService.subscriptionsRandom.getExpired slot).2 := by
    rw [hservice]
  have hknown : this'.attnetsService.knownValidators = this.attnetsService.knownValidators := by
    rw [hservice]
  -- nothing ended, and the bits are those of before
  have hnone : (this.attnetsService.subscriptionsRandom.getExpired slot).1 = [] →
      AttnetsWritten this' := by
    intro hnone subnet
    rw [hsize, SubnetMap.getExpired_eq_self hnone, ← hthis, metadata_unsubscribeSubnets]
    exact hbits subnet
  rw [← hsize, ← hknown] at hwritten
  obtain ⟨hsound', hwritten'⟩ := sound_rebalanceRandomSubnets hsound expired fun _ => hcommittee'
  refine sound_pruneExpiredKnownValidators hsound' pruned (fun hless => ?_) ?_
  · have htarget : target (rebalanceRandomSubnets opts currentSlot expired this')
        = target this' := by
      unfold target
      rw [knownValidators_rebalanceRandomSubnets]
    rw [htarget] at hless
    refine committeeNotLeft_rebalanceRandomSubnets hsound expired hcommittee' fun hmore => ?_
    exact (hless.trans_le (target_le_size_rebalanceRandomSubnets expired hmore)).false
  · by_cases hequal : this'.attnetsService.subscriptionsRandom.size = target this'
    · rw [rebalanceRandomSubnets_eq_self expired hequal]
      rcases hwritten with hended | hchanged | hchanged
      · exact .inl (hnone hended)
      · exact absurd hequal hchanged
      · exact .inr ⟨hequal, hchanged⟩
    · exact .inl (hwritten' (.inl hequal))

theorem sound_onSlot (h : Sound opts currentSlot this) (hbits : AttnetsWritten this)
    (hactive : opts.subscribeAllSubnets = true ∨
      ∀ subnet ∈ (this.attnetsService.subscriptionsCommittee.getExpired slot).1,
        this.attnetsService.subscriptionsRandom.has subnet = true →
          this.attnetsService.subscriptionsRandom.isActiveAtSlot subnet slot = true) :
    Sound opts currentSlot (onSlot opts currentSlot slot this) ∧
      AttnetsWritten (onSlot opts currentSlot slot this) := by
  unfold onSlot
  dsimp only
  refine ⟨sound_unsubscribeSubnets (h.withService rfl) hactive, ?_⟩
  unfold AttnetsWritten
  rw [attnetsService_unsubscribeSubnets, metadata_unsubscribeSubnets]
  exact hbits

omit [Preset] in
theorem registerSubscriptions_spec {subscriptions : List CommitteeSubscription}
    {service : AttnetsService} {added : Bool} {requests : List RequestedSubnet} :
    let registered := registerSubscriptions currentSlot subscriptions (service, added, requests)
    registered.1.subscriptionsCommittee = service.subscriptionsCommittee ∧
      registered.1.subscriptionsRandom = service.subscriptionsRandom ∧
      ((∀ sub ∈ subscriptions, service.knownValidators.has sub.validatorIndex = true) →
        registered.2.1 = added) := by
  induction subscriptions generalizing service added requests with
  | nil => exact ⟨rfl, rfl, fun _ => rfl⟩
  | cons sub subscriptions ih =>
    obtain ⟨hcommittee, hrandom, hadded⟩ := @ih
      { service with
        knownValidators := service.knownValidators.set sub.validatorIndex currentSlot
        committeeSubnets := service.committeeSubnets.request ⟨sub.subnet, sub.slot + 1⟩ }
      (added || !service.knownValidators.has sub.validatorIndex)
      (if sub.isAggregator then requests ++ [⟨sub.subnet, sub.slot⟩] else requests)
    refine ⟨hcommittee, hrandom, fun hknown => (hadded fun other hother => ?_).trans ?_⟩
    · exact OrderedMap.isSome_get_set (hknown other (List.mem_cons_of_mem _ hother))
    · rw [hknown sub List.mem_cons_self, Bool.not_true, Bool.or_false]

theorem committeeNotLeft_request (h : Sound opts currentSlot this)
    (hcommittee : CommitteeNotLeft opts currentSlot this) (requests : List RequestedSubnet) :
    CommitteeNotLeft opts currentSlot
      { subscribeToSubnets opts currentSlot (requests.map (·.subnet)) this with
        attnetsService.subscriptionsCommittee :=
          requests.foldl SubnetMap.request this.attnetsService.subscriptionsCommittee } := by
  intro subnet hsubnet
  show NotLeft opts currentSlot
    (subscribeToSubnets opts currentSlot (requests.map (·.subnet)) this).gossip
      .beacon_attestation subnet
  by_cases hheld : this.attnetsService.subscriptionsCommittee.has subnet = true
  · exact (hcommittee subnet (SubnetMap.mem_getAll_iff.mpr hheld)).subscribe
  by_cases hlong : this.attnetsService.subscriptionsRandom.has subnet = true
  · exact (h.attNotLeft subnet hlong).subscribe
  have hnew := (SubnetMap.has_foldl_request.mp (SubnetMap.mem_getAll_iff.mp hsubnet)).resolve_right
    hheld
  refine notLeft_of_subscribe (List.mem_filter.mpr ⟨hnew, ?_⟩)
  rw [Bool.eq_false_iff.mpr hheld, Bool.eq_false_iff.mpr hlong]
  rfl

theorem sound_addCommitteeSubscriptions (h : Sound opts currentSlot this)
    (hbits : AttnetsWritten this) (random : RandomDraws) (subscriptions : List CommitteeSubscription)
    (hcommittee : (∀ sub ∈ subscriptions,
        this.attnetsService.knownValidators.has sub.validatorIndex = true) ∨
      CommitteeNotLeft opts currentSlot this) :
    Sound opts currentSlot
        (addCommitteeSubscriptions opts currentSlot random subscriptions this) ∧
      AttnetsWritten (addCommitteeSubscriptions opts currentSlot random subscriptions this) := by
  unfold addCommitteeSubscriptions
  have hspec := @registerSubscriptions_spec currentSlot subscriptions this.attnetsService false []
  generalize registerSubscriptions currentSlot subscriptions (this.attnetsService, false, [])
    = registered at hspec ⊢
  obtain ⟨service, added, requests⟩ := registered
  obtain ⟨hsame, hrandom, hadded⟩ := hspec
  dsimp only at hsame hrandom hadded ⊢
  have hsound : Sound opts currentSlot { this with attnetsService := service } :=
    h.withService hrandom
  have hrequested : Sound opts currentSlot
      { subscribeToSubnets opts currentSlot (requests.map (·.subnet))
          { this with attnetsService := service } with
        attnetsService.subscriptionsCommittee :=
          requests.foldl SubnetMap.request service.subscriptionsCommittee } :=
    (@Sound.subscribe _ opts currentSlot _ hsound _).withService rfl
  have hwritten : AttnetsWritten { this with attnetsService := service } := by
    intro subnet
    rw [hrandom]
    exact hbits subnet
  split_ifs with hnew
  · have hnotLeft : CommitteeNotLeft opts currentSlot { this with attnetsService := service } := by
      have hbefore := hcommittee.resolve_left fun hknown => by
        rw [hadded hknown] at hnew
        cases hnew
      intro subnet hsubnet
      exact hbefore subnet (hsame ▸ hsubnet)
    obtain ⟨hdone, hdoneBits⟩ := sound_rebalanceRandomSubnets hrequested random fun _ =>
      committeeNotLeft_request hsound hnotLeft requests
    exact ⟨hdone, hdoneBits (.inr hwritten)⟩
  · exact ⟨hrequested, hwritten⟩

end AttnetsService

/-! ## Sync committee subscriptions -/

namespace SyncnetsService

theorem notLeft_request (h : Sound opts currentSlot this) {requests : List RequestedSubnet}
    (hheld : (requests.foldl SubnetMap.request
      this.syncnetsService.subscriptionsCommittee).has subnet = true) :
    NotLeft opts currentSlot
      (subscribeToSubnets opts currentSlot (requests.map (·.subnet)) this).gossip
      .sync_committee subnet := by
  by_cases hbefore : this.syncnetsService.subscriptionsCommittee.has subnet = true
  · exact (h.syncNotLeft subnet hbefore).subscribe
  · have hnew := (SubnetMap.has_foldl_request.mp hheld).resolve_right hbefore
    refine notLeft_of_subscribe (List.mem_filter.mpr ⟨hnew, ?_⟩)
    rw [Bool.eq_false_iff.mpr hbefore]
    rfl

theorem updateMetadata_sound (h : Sound opts currentSlot this) {map : SubnetMap}
    (hmap : ∀ subnet, map.has subnet = true → subnet < SYNC_COMMITTEE_SUBNET_COUNT ∧
      NotLeft opts currentSlot this.gossip .sync_committee subnet) :
    Sound opts currentSlot (updateMetadata { this with syncnetsService := ⟨map⟩ }) := by
  have hrange : ∀ subnet ∈ map.getAll, subnet < SYNC_COMMITTEE_SUBNET_COUNT := fun subnet hsubnet =>
    (hmap subnet (SubnetMap.mem_getAll_iff.mp hsubnet)).1
  have hold : ∀ subnet, bitAt this.metadata.syncnets subnet = true →
      subnet < SYNC_COMMITTEE_SUBNET_COUNT := fun subnet hsubnet =>
    h.syncRange subnet ((h.syncnets subnet).mp hsubnet)
  unfold updateMetadata
  dsimp only
  split_ifs with hequal
  · exact h.withSync hmap fun subnet =>
      (bitAt_of_equalBits hequal hrange hold).trans SubnetMap.mem_getAll_iff
  · exact h.withSync hmap fun subnet => bitAt_subnetBits.trans SubnetMap.mem_getAll_iff

theorem sound_addCommitteeSubscriptions (h : Sound opts currentSlot this)
    (hbits : AttnetsWritten this) (subscriptions : List CommitteeSubscription)
    (hrange : ∀ sub ∈ subscriptions, sub.subnet < SYNC_COMMITTEE_SUBNET_COUNT) :
    Sound opts currentSlot (addCommitteeSubscriptions opts currentSlot subscriptions this) ∧
      AttnetsWritten (addCommitteeSubscriptions opts currentSlot subscriptions this) := by
  unfold addCommitteeSubscriptions
  dsimp only
  generalize hrequests : subscriptions.map (fun sub => RequestedSubnet.mk sub.subnet sub.slot)
    = requests
  have hsubnets : subscriptions.map (·.subnet) = requests.map (·.subnet) := by
    rw [← hrequests, List.map_map]
    rfl
  rw [hsubnets]
  have hsound : Sound opts currentSlot
      (subscribeToSubnets opts currentSlot (requests.map (·.subnet)) this) := h.subscribe
  constructor
  · refine updateMetadata_sound hsound fun subnet hheld => ⟨?_, notLeft_request h hheld⟩
    rcases SubnetMap.has_foldl_request.mp hheld with hnew | hbefore
    · rw [← hsubnets] at hnew
      obtain ⟨sub, hsub, rfl⟩ := List.mem_map.mp hnew
      exact hrange sub hsub
    · exact h.syncRange subnet hbefore
  · unfold updateMetadata
    dsimp only
    split_ifs <;> exact hbits

theorem onEpoch_eq_self {epoch : Nat}
    (h : (this.syncnetsService.subscriptionsCommittee.getExpired
      (computeStartSlotAtEpoch epoch)).1 = []) :
    onEpoch opts currentSlot epoch this = this := by
  unfold onEpoch unsubscribeSubnets
  dsimp only
  rw [h, SubnetMap.getExpired_eq_self h]
  split_ifs
  · rfl
  · show { this with gossip := this.gossip ++ [] } = this
    rw [List.append_nil]

end SyncnetsService

end Lodestar.Network
