import Lodestar.Network.AdvertisedSubnets

/-!
# Gossip subscriptions

The topics that gossip joined against the two maps of `AttnetsService`. Subnets are
joined before they are registered unless a map holds them, and left after they are taken
out unless a map needs them (`Tracks.join`, `Tracks.leave`).
-/

namespace Lodestar.Network

open Lodestar.Base Lodestar.StateTransition

/-! ## Calls -/

/-- The last call for the topic was to join it. -/
def subscribedTo (gossip : List GossipCall) (topic : SubnetTopic) : Bool :=
  gossip.foldl (fun joined call => match call with
    | .subscribeTopic called => joined || called = topic
    | .unsubscribeTopic called => joined && called ≠ topic) false

section Calls

variable {gossip : List GossipCall} {topics : List SubnetTopic} {topic : SubnetTopic}

theorem subscribedTo_subscribe : subscribedTo (gossip ++ topics.map .subscribeTopic) topic = true
    ↔ subscribedTo gossip topic = true ∨ topic ∈ topics := by
  induction topics using List.reverseRecOn with
  | nil => simp
  | append_singleton topics called ih =>
    have hlast : subscribedTo (gossip ++ (topics ++ [called]).map .subscribeTopic) topic
        = (subscribedTo (gossip ++ topics.map .subscribeTopic) topic || called = topic) := by
      unfold subscribedTo
      rw [List.map_append, ← List.append_assoc, List.foldl_append]
      rfl
    rw [hlast, Bool.or_eq_true, ih, decide_eq_true_iff, List.mem_append, List.mem_singleton,
      or_assoc, @eq_comm _ called]

theorem subscribedTo_unsubscribe :
    subscribedTo (gossip ++ topics.map .unsubscribeTopic) topic = true
      ↔ subscribedTo gossip topic = true ∧ topic ∉ topics := by
  induction topics using List.reverseRecOn with
  | nil => simp
  | append_singleton topics called ih =>
    have hlast : subscribedTo (gossip ++ (topics ++ [called]).map .unsubscribeTopic) topic
        = (subscribedTo (gossip ++ topics.map .unsubscribeTopic) topic && called ≠ topic) := by
      unfold subscribedTo
      rw [List.map_append, ← List.append_assoc, List.foldl_append]
      rfl
    rw [hlast, Bool.and_eq_true, ih, decide_eq_true_iff, List.mem_append, List.mem_singleton,
      not_or, and_assoc, ne_comm]

end Calls

/-! ## The maps -/

/-- A map holds the subnet. -/
def AttnetsService.Held (this : AttnetsService) (subnet : Nat) : Prop :=
  this.subscriptionsCommittee.has subnet = true ∨ this.subscriptionsRandom.has subnet = true

/-- A map needs the subnet at the slot. -/
def AttnetsService.ActiveAt (this : AttnetsService) (slot subnet : Nat) : Prop :=
  this.subscriptionsCommittee.isActiveAtSlot subnet slot = true ∨
  this.subscriptionsRandom.isActiveAtSlot subnet slot = true

theorem AttnetsService.ActiveAt.of_le {this : AttnetsService} {slot earlier subnet : Nat}
    (hle : earlier ≤ slot) (h : this.ActiveAt slot subnet) : this.ActiveAt earlier subnet :=
  h.imp (SubnetMap.isActiveAtSlot_of_le hle) (SubnetMap.isActiveAtSlot_of_le hle)

theorem AttnetsService.ActiveAt.held {this : AttnetsService} {slot subnet : Nat}
    (h : this.ActiveAt slot subnet) : this.Held subnet :=
  h.imp SubnetMap.has_of_isActiveAtSlot SubnetMap.has_of_isActiveAtSlot

section

variable [Preset] {opts : SubnetsServiceOpts} {currentSlot : Nat} {this : SubnetsServices}
  {subnet slot : Nat} {subnets : List Nat} {gossip : List GossipCall}

/-- The subnet is joined in every fork of the clock's epoch. -/
def Joined (opts : SubnetsServiceOpts) (currentSlot : Nat) (gossip : List GossipCall)
    (subnet : Nat) : Prop :=
  ∀ fork ∈ currentForks opts currentSlot,
    subscribedTo gossip ⟨.beacon_attestation, fork, subnet⟩ = true

/-- What is needed is joined, what is not held is not. -/
structure FollowsMaps (opts : SubnetsServiceOpts) (currentSlot : Nat) (this : SubnetsServices) :
    Prop where
  joined : ∀ subnet, this.attnetsService.ActiveAt currentSlot subnet →
    Joined opts currentSlot this.gossip subnet
  free : ∀ subnet, ¬ this.attnetsService.Held subnet →
    ∀ fork ∈ currentForks opts currentSlot,
      subscribedTo this.gossip ⟨.beacon_attestation, fork, subnet⟩ = false

structure Tracks (opts : SubnetsServiceOpts) (currentSlot : Nat) (this : SubnetsServices) :
    Prop extends FollowsMaps opts currentSlot this where
  /-- No topic of a fork yet to come was joined. -/
  begun : ∀ topic, subscribedTo this.gossip topic = true →
    ∃ epoch ≤ computeEpochAtSlot currentSlot, topic.fork ∈ getActiveForks opts.config epoch

/-- Every subnet that a map holds is joined, needed or not. -/
def HeldJoined (opts : SubnetsServiceOpts) (currentSlot : Nat) (this : SubnetsServices) : Prop :=
  ∀ subnet ∈ this.attnetsService.subscriptionsCommittee.getAll
      ++ this.attnetsService.subscriptionsRandom.getAll,
    Joined opts currentSlot this.gossip subnet

theorem heldJoined_iff : HeldJoined opts currentSlot this ↔
    ∀ subnet, this.attnetsService.Held subnet → Joined opts currentSlot this.gossip subnet := by
  unfold HeldJoined AttnetsService.Held
  simp only [List.mem_append, SubnetMap.mem_getAll_iff]

/-- The forks that are active now were so before, or no subnet is needed. -/
def ForksSettled (opts : SubnetsServiceOpts) (earlier currentSlot : Nat) (this : SubnetsServices) :
    Prop :=
  (∀ fork ∈ currentForks opts currentSlot, fork ∈ currentForks opts earlier) ∨
  this.attnetsService.subscriptionsCommittee.getActive currentSlot = [] ∧
    this.attnetsService.subscriptionsRandom.getActive currentSlot = []

omit [Preset] in
theorem not_activeAt_of_getActive
    (h : this.attnetsService.subscriptionsCommittee.getActive currentSlot = [] ∧
      this.attnetsService.subscriptionsRandom.getActive currentSlot = []) (subnet : Nat) :
    ¬ this.attnetsService.ActiveAt currentSlot subnet := by
  unfold AttnetsService.ActiveAt
  rw [← SubnetMap.mem_getActive_iff, ← SubnetMap.mem_getActive_iff, h.1, h.2]
  simp

theorem Tracks.later {later : Nat} (h : Tracks opts currentSlot this) (hle : currentSlot ≤ later)
    (hforks : ForksSettled opts currentSlot later this) : Tracks opts later this := by
  have hmono := computeEpochAtSlot_mono hle
  refine ⟨⟨fun subnet hactive => ?_, fun subnet hfree fork hfork => ?_⟩, fun topic hjoined => ?_⟩
  · rcases hforks with hforks | hnone
    · exact fun fork hfork => h.joined subnet (hactive.of_le hle) fork (hforks fork hfork)
    · exact absurd hactive (not_activeAt_of_getActive hnone subnet)
  · refine Bool.eq_false_iff.mpr fun hjoined => ?_
    obtain ⟨epoch, hepoch, hbegun⟩ := h.begun _ hjoined
    have hnow := mem_getActiveForks_of_between hepoch hmono hbegun hfork
    exact Bool.eq_false_iff.mp (h.free subnet hfree fork hnow) hjoined
  · obtain ⟨epoch, hepoch, hbegun⟩ := h.begun topic hjoined
    exact ⟨epoch, hepoch.trans hmono, hbegun⟩

theorem Tracks.congr {this' : SubnetsServices} (h : Tracks opts currentSlot this)
    (hservice : this'.attnetsService = this.attnetsService) (hgossip : this'.gossip = this.gossip) :
    Tracks opts currentSlot this' := by
  refine ⟨⟨?_, ?_⟩, ?_⟩
  · rw [hservice, hgossip]
    exact h.joined
  · rw [hservice, hgossip]
    exact h.free
  · rw [hgossip]
    exact h.begun

theorem Tracks.withKnown (h : Tracks opts currentSlot this) (knownValidators : OrderedMap Nat Nat) :
    Tracks opts currentSlot
      { this with attnetsService.knownValidators := knownValidators } :=
  ⟨⟨h.joined, h.free⟩, h.begun⟩

/-! ## Joining and leaving -/

theorem Joined.subscribe (h : Joined opts currentSlot gossip subnet) {topics : List SubnetTopic} :
    Joined opts currentSlot (gossip ++ topics.map .subscribeTopic) subnet := fun fork hfork =>
  subscribedTo_subscribe.mpr (.inl (h fork hfork))

theorem joined_subscribeToSubnets (hmem : subnet ∈ subnets)
    (hheld : this.attnetsService.Held subnet → Joined opts currentSlot this.gossip subnet) :
    Joined opts currentSlot
      (AttnetsService.subscribeToSubnets opts currentSlot subnets this).gossip subnet := by
  by_cases hbefore : this.attnetsService.Held subnet
  · exact (hheld hbefore).subscribe
  · obtain ⟨hcommittee, hrandom⟩ := not_or.mp hbefore
    refine fun fork hfork => subscribedTo_subscribe.mpr (.inr (mem_subnetTopics_iff.mpr
      ⟨rfl, hfork, List.mem_filter.mpr ⟨hmem, ?_⟩⟩))
    rw [Bool.eq_false_iff.mpr hcommittee, Bool.eq_false_iff.mpr hrandom]
    rfl

theorem Tracks.join (h : Tracks opts currentSlot this) {service : AttnetsService}
    (hheld : ∀ subnet, service.Held subnet ↔ subnet ∈ subnets ∨ this.attnetsService.Held subnet)
    (hactive : ∀ subnet, subnet ∉ subnets → service.ActiveAt currentSlot subnet →
      this.attnetsService.ActiveAt currentSlot subnet)
    (hjoined : ∀ subnet ∈ subnets, this.attnetsService.Held subnet →
      Joined opts currentSlot this.gossip subnet) :
    Tracks opts currentSlot
      { AttnetsService.subscribeToSubnets opts currentSlot subnets this with
        attnetsService := service } := by
  refine ⟨⟨fun subnet hneeded => ?_, fun subnet hfree fork hfork => ?_⟩, fun topic hnow => ?_⟩
  · by_cases hmem : subnet ∈ subnets
    · exact joined_subscribeToSubnets hmem (hjoined subnet hmem)
    · exact (h.joined subnet (hactive subnet hmem hneeded)).subscribe
  · obtain ⟨hnew, hbefore⟩ := not_or.mp (mt (hheld subnet).mpr hfree)
    refine Bool.eq_false_iff.mpr fun hnow => ?_
    rcases subscribedTo_subscribe.mp hnow with hold | hmem
    · exact Bool.eq_false_iff.mp (h.free subnet hbefore fork hfork) hold
    · exact hnew (List.mem_filter.mp (mem_subnetTopics_iff.mp hmem).2.2).1
  · rcases subscribedTo_subscribe.mp hnow with hold | hmem
    · exact h.begun topic hold
    · exact ⟨_, le_rfl, (mem_subnetTopics_iff.mp hmem).2.1⟩

theorem Tracks.leave (h : Tracks opts currentSlot this) (hall : opts.subscribeAllSubnets = false)
    {service : AttnetsService} (hslot : slot ≤ currentSlot)
    (hheld : ∀ subnet, this.attnetsService.Held subnet → service.Held subnet ∨ subnet ∈ subnets)
    (hsub : ∀ subnet, service.ActiveAt currentSlot subnet →
      this.attnetsService.ActiveAt currentSlot subnet) :
    Tracks opts currentSlot (AttnetsService.unsubscribeSubnets opts currentSlot subnets slot
      { this with attnetsService := service }) := by
  unfold AttnetsService.unsubscribeSubnets
  rw [if_neg (Bool.eq_false_iff.mp hall)]
  refine ⟨⟨fun subnet hneeded fork hfork => ?_, fun subnet hfree fork hfork => ?_⟩,
    fun topic hnow => h.begun topic (subscribedTo_unsubscribe.mp hnow).1⟩
  · refine subscribedTo_unsubscribe.mpr
      ⟨h.joined subnet (hsub subnet hneeded) fork hfork, fun hmem => ?_⟩
    have hidle := (List.mem_filter.mp (mem_subnetTopics_iff.mp hmem).2.2).2
    have hneededThen : service.ActiveAt slot subnet := AttnetsService.ActiveAt.of_le hslot hneeded
    rcases hneededThen with hcommittee | hrandom
    · simp [hcommittee] at hidle
    · simp [hrandom] at hidle
  · refine Bool.eq_false_iff.mpr fun hnow => ?_
    obtain ⟨hold, hstays⟩ := subscribedTo_unsubscribe.mp hnow
    by_cases hbefore : this.attnetsService.Held subnet
    · refine hstays (mem_subnetTopics_iff.mpr ⟨rfl, hfork, List.mem_filter.mpr
        ⟨(hheld subnet hbefore).resolve_left hfree, ?_⟩⟩)
      have hidle : ¬ service.ActiveAt slot subnet := fun hneeded => hfree hneeded.held
      obtain ⟨hcommittee, hrandom⟩ := not_or.mp hidle
      rw [Bool.eq_false_iff.mpr hcommittee, Bool.eq_false_iff.mpr hrandom]
      rfl
    · exact Bool.eq_false_iff.mp (h.free subnet hbefore fork hfork) hold

theorem HeldJoined.leave (h : HeldJoined opts currentSlot this) {service : AttnetsService}
    (hsub : ∀ subnet, service.Held subnet → this.attnetsService.Held subnet)
    (hneeded : ∀ subnet ∈ subnets, service.Held subnet → service.ActiveAt slot subnet) :
    HeldJoined opts currentSlot (AttnetsService.unsubscribeSubnets opts currentSlot subnets slot
      { this with attnetsService := service }) := by
  rw [heldJoined_iff] at h ⊢
  unfold AttnetsService.unsubscribeSubnets
  split_ifs
  · exact fun subnet hheld => h subnet (hsub subnet hheld)
  · refine fun subnet hheld fork hfork => subscribedTo_unsubscribe.mpr
      ⟨h subnet (hsub subnet hheld) fork hfork, fun hmem => ?_⟩
    obtain ⟨hmem, hidle⟩ := List.mem_filter.mp (mem_subnetTopics_iff.mp hmem).2.2
    rcases hneeded subnet hmem hheld with hcommittee | hrandom
    · simp [hcommittee] at hidle
    · simp [hrandom] at hidle

/-! ## The operations -/

namespace AttnetsService

theorem tracks_connectRandomSubnets (h : Tracks opts currentSlot this)
    (hheld : HeldJoined opts currentSlot this) (random : RandomDraws) (subnetDiff : Nat) :
    Tracks opts currentSlot (connectRandomSubnets opts currentSlot random subnetDiff this) ∧
      HeldJoined opts currentSlot
        (connectRandomSubnets opts currentSlot random subnetDiff this) := by
  unfold connectRandomSubnets
  dsimp only
  generalize (shuffle random.shuffle ((List.range ATTESTATION_SUBNET_COUNT).filter
    (· ∉ this.attnetsService.subscriptionsRandom.getActive currentSlot))).take subnetDiff = connect
  generalize hrequests : (connect.mapIdx fun i subnet =>
    RequestedSubnet.mk subnet (randomSubscriptionSlotLen (random.slotLen i) + currentSlot))
    = requests
  have hsubnets : requests.map RequestedSubnet.subnet = connect := by
    rw [← hrequests, map_subnet_requests]
  have hiff : ∀ subnet, ({ this.attnetsService with
      subscriptionsRandom := requests.foldl SubnetMap.request
        this.attnetsService.subscriptionsRandom } : AttnetsService).Held subnet ↔
      subnet ∈ connect ∨ this.attnetsService.Held subnet := by
    intro subnet
    unfold Held
    rw [SubnetMap.has_foldl_request, hsubnets, or_left_comm]
  rw [heldJoined_iff] at hheld ⊢
  constructor
  · refine h.join hiff (fun subnet hnot hactive => hactive.imp id fun hrandom => ?_)
      fun subnet _ => hheld subnet
    rwa [SubnetMap.isActiveAtSlot_foldl_request (by rwa [hsubnets])] at hrandom
  · intro subnet hnow
    rcases (hiff subnet).mp hnow with hmem | hbefore
    · exact joined_subscribeToSubnets hmem (hheld subnet)
    · exact (hheld subnet hbefore).subscribe

theorem tracks_removeRandomSubnets (h : Tracks opts currentSlot this)
    (hall : opts.subscribeAllSubnets = false) (excess : Nat) :
    Tracks opts currentSlot (removeRandomSubnets opts currentSlot excess this) := by
  unfold removeRandomSubnets
  dsimp only
  refine h.leave hall le_rfl (fun subnet hbefore => ?_) fun subnet hactive =>
    hactive.imp id fun hrandom => (SubnetMap.isActiveAtSlot_foldl_delete.mp hrandom).2
  unfold Held
  rw [SubnetMap.has_foldl_delete]
  rcases hbefore with hcommittee | hrandom
  · exact .inl (.inl hcommittee)
  · exact (em _).symm.imp (fun hstays => .inr ⟨hstays, hrandom⟩) id

theorem tracks_rebalanceRandomSubnets (h : Tracks opts currentSlot this)
    (hall : opts.subscribeAllSubnets = false) (random : RandomDraws)
    (hheld : this.attnetsService.subscriptionsRandom.size < target this →
      HeldJoined opts currentSlot this) :
    Tracks opts currentSlot (rebalanceRandomSubnets opts currentSlot random this) := by
  unfold rebalanceRandomSubnets
  dsimp only
  split_ifs with hless hmore
  · exact (tracks_connectRandomSubnets h (hheld hless) random _).1.congr
      attnetsService_updateMetadata gossip_updateMetadata
  · exact (tracks_removeRandomSubnets h hall _).congr attnetsService_updateMetadata
      gossip_updateMetadata
  · exact h

theorem heldJoined_rebalanceRandomSubnets (h : Tracks opts currentSlot this)
    (random : RandomDraws) (hheld : HeldJoined opts currentSlot this)
    (hsize : ¬ target this < this.attnetsService.subscriptionsRandom.size) :
    HeldJoined opts currentSlot (rebalanceRandomSubnets opts currentSlot random this) := by
  unfold rebalanceRandomSubnets
  dsimp only
  rw [if_neg hsize]
  split_ifs
  · unfold HeldJoined
    rw [attnetsService_updateMetadata, gossip_updateMetadata]
    exact (tracks_connectRandomSubnets h hheld random _).2
  · exact hheld

theorem tracks_onSlot (h : Tracks opts currentSlot this)
    (hall : opts.subscribeAllSubnets = false) (hslot : slot ≤ currentSlot) :
    Tracks opts currentSlot (onSlot opts currentSlot slot this) := by
  unfold onSlot
  dsimp only
  rw [SubnetMap.getExpired_snd]
  refine h.leave hall hslot (fun subnet hbefore => ?_) fun subnet hactive =>
    hactive.imp (fun hcommittee => (SubnetMap.isActiveAtSlot_foldl_delete.mp hcommittee).2) id
  unfold Held
  rw [SubnetMap.has_foldl_delete]
  rcases hbefore with hcommittee | hrandom
  · exact (em _).symm.imp (fun hstays => .inl ⟨hstays, hcommittee⟩) id
  · exact .inl (.inr hrandom)

theorem tracks_onEpoch (h : Tracks opts currentSlot this)
    (hall : opts.subscribeAllSubnets = false) (expired pruned : RandomDraws) (epoch : Nat)
    (hslot : computeStartSlotAtEpoch epoch ≤ currentSlot) (hheld : HeldJoined opts currentSlot this)
    (hactive : ∀ subnet ∈ (this.attnetsService.subscriptionsRandom.getExpired
        (computeStartSlotAtEpoch epoch)).1,
      this.attnetsService.subscriptionsCommittee.has subnet = true →
        this.attnetsService.subscriptionsCommittee.isActiveAtSlot subnet
          (computeStartSlotAtEpoch epoch) = true) :
    Tracks opts currentSlot (onEpoch opts currentSlot expired pruned epoch this) := by
  unfold onEpoch unsubscribeExpiredRandomSubnets
  generalize computeStartSlotAtEpoch epoch = slot at hslot hactive ⊢
  dsimp only
  rw [SubnetMap.getExpired_snd]
  generalize hremoved : (this.attnetsService.subscriptionsRandom.getExpired slot).1 = removed
    at hactive ⊢
  generalize hthis : unsubscribeSubnets opts currentSlot removed slot
    { this with
      attnetsService.subscriptionsRandom :=
        removed.foldl SubnetMap.delete this.attnetsService.subscriptionsRandom } = this'
  have htracks : Tracks opts currentSlot this' := by
    rw [← hthis]
    refine h.leave hall hslot (fun subnet hbefore => ?_) fun subnet hneeded =>
      hneeded.imp id fun hrandom => (SubnetMap.isActiveAtSlot_foldl_delete.mp hrandom).2
    unfold Held
    rw [SubnetMap.has_foldl_delete]
    rcases hbefore with hcommittee | hrandom
    · exact .inl (.inl hcommittee)
    · exact (em _).symm.imp (fun hstays => .inr ⟨hstays, hrandom⟩) id
  have hheld' : HeldJoined opts currentSlot this' := by
    rw [← hthis]
    refine hheld.leave (fun subnet hnow => hnow.imp id fun hrandom =>
      (SubnetMap.has_foldl_delete.mp hrandom).2) fun subnet hmem hnow => .inl ?_
    rcases hnow with hcommittee | hrandom
    · exact hactive subnet hmem hcommittee
    · exact absurd hmem (SubnetMap.has_foldl_delete.mp hrandom).1
  have htracks' := tracks_rebalanceRandomSubnets htracks hall expired fun _ => hheld'
  unfold pruneExpiredKnownValidators
  dsimp only
  split_ifs
  · refine tracks_rebalanceRandomSubnets (htracks'.withKnown _) hall pruned fun hless => ?_
    refine heldJoined_rebalanceRandomSubnets htracks expired hheld' fun hmore => ?_
    have hfewer := targetRandomSubnetCount_mono (@size_foldl_delete_le
      (expiredKnownValidators slot (rebalanceRandomSubnets opts currentSlot expired
        this').attnetsService.knownValidators)
      (rebalanceRandomSubnets opts currentSlot expired this').attnetsService.knownValidators)
    rw [knownValidators_rebalanceRandomSubnets] at hfewer hless
    exact (hless.trans_le
      (hfewer.trans (target_le_size_rebalanceRandomSubnets expired hmore))).false
  · exact htracks'.withKnown _

omit [Preset] in
theorem mem_registerSubscriptions {subscriptions : List CommitteeSubscription}
    {service : AttnetsService} {added : Bool} {requests : List RequestedSubnet}
    {request : RequestedSubnet}
    (h : request ∈ (registerSubscriptions currentSlot subscriptions (service, added, requests)).2.2) :
    request ∈ requests ∨
      ∃ sub ∈ subscriptions, sub.isAggregator = true ∧ request.subnet = sub.subnet := by
  induction subscriptions generalizing service added requests with
  | nil => exact .inl h
  | cons sub subscriptions ih =>
    rcases ih h with hbefore | ⟨other, hother, haggregates⟩
    · split_ifs at hbefore with haggregates
      · rcases List.mem_append.mp hbefore with hbefore | hnew
        · exact .inl hbefore
        · rw [List.mem_singleton.mp hnew]
          exact .inr ⟨sub, List.mem_cons_self, haggregates, rfl⟩
      · exact .inl hbefore
    · exact .inr ⟨other, List.mem_cons_of_mem _ hother, haggregates⟩

theorem tracks_addCommitteeSubscriptions (h : Tracks opts currentSlot this)
    (hall : opts.subscribeAllSubnets = false) (random : RandomDraws)
    (subscriptions : List CommitteeSubscription)
    (hrequested : ∀ sub ∈ subscriptions, sub.isAggregator = true →
      this.attnetsService.Held sub.subnet → Joined opts currentSlot this.gossip sub.subnet)
    (hheld : (∀ sub ∈ subscriptions,
        this.attnetsService.knownValidators.has sub.validatorIndex = true) ∨
      HeldJoined opts currentSlot this) :
    Tracks opts currentSlot
      (addCommitteeSubscriptions opts currentSlot random subscriptions this) := by
  unfold addCommitteeSubscriptions
  have hspec := @registerSubscriptions_spec currentSlot subscriptions this.attnetsService false []
  have hmem := fun request => @mem_registerSubscriptions currentSlot subscriptions
    this.attnetsService false [] request
  generalize registerSubscriptions currentSlot subscriptions (this.attnetsService, false, [])
    = registered at hspec hmem ⊢
  obtain ⟨service, added, requests⟩ := registered
  obtain ⟨hsame, hrandom, hadded⟩ := hspec
  dsimp only at hsame hrandom hadded hmem ⊢
  have hserviceHeld : ∀ subnet, service.Held subnet ↔ this.attnetsService.Held subnet := by
    intro subnet
    unfold Held
    rw [hsame, hrandom]
  have hiff : ∀ subnet, ({ service with
      subscriptionsCommittee := requests.foldl SubnetMap.request
        service.subscriptionsCommittee } : AttnetsService).Held subnet ↔
      subnet ∈ requests.map RequestedSubnet.subnet ∨ service.Held subnet := by
    intro subnet
    unfold Held
    rw [SubnetMap.has_foldl_request, or_assoc]
  have hbefore : Tracks opts currentSlot { this with attnetsService := service } := by
    refine ⟨⟨fun subnet hneeded => h.joined subnet ?_, fun subnet hfree =>
      h.free subnet fun hnow => hfree ((hserviceHeld subnet).mpr hnow)⟩, h.begun⟩
    unfold ActiveAt at hneeded ⊢
    rwa [hsame, hrandom] at hneeded
  have hjoin : ∀ subnet ∈ requests.map RequestedSubnet.subnet, service.Held subnet →
      Joined opts currentSlot this.gossip subnet := by
    intro subnet hsubnet hnow
    obtain ⟨request, hrequest, rfl⟩ := List.mem_map.mp hsubnet
    obtain ⟨sub, hsub, haggregates, heq⟩ := (hmem request hrequest).resolve_left List.not_mem_nil
    rw [heq] at hnow ⊢
    exact hrequested sub hsub haggregates ((hserviceHeld _).mp hnow)
  have htracks := hbefore.join hiff (fun subnet hnot hneeded => hneeded.imp
    (fun hcommittee => by rwa [SubnetMap.isActiveAtSlot_foldl_request hnot] at hcommittee) id) hjoin
  split_ifs with hnew
  · refine tracks_rebalanceRandomSubnets htracks hall random fun _ => ?_
    have hjoined := heldJoined_iff.mp (hheld.resolve_left fun hknown => by
      rw [hadded hknown] at hnew
      cases hnew)
    refine heldJoined_iff.mpr fun subnet hnow => ?_
    rcases (hiff subnet).mp hnow with hmem | hold
    · exact joined_subscribeToSubnets hmem (hjoin subnet hmem)
    · exact (hjoined subnet ((hserviceHeld subnet).mp hold)).subscribe
  · exact htracks

theorem tracks_subscribeSubnetsToNextFork (h : Tracks opts currentSlot this) {fork : ForkName}
    (hfork : fork ∈ currentForks opts currentSlot) :
    Tracks opts currentSlot (subscribeSubnetsToNextFork fork this) := by
  refine ⟨⟨fun subnet hneeded => (h.joined subnet hneeded).subscribe,
    fun subnet hfree other hother => ?_⟩, fun topic hnow => ?_⟩
  · refine Bool.eq_false_iff.mpr fun hnow => ?_
    rcases subscribedTo_subscribe.mp hnow with hold | hmem
    · exact Bool.eq_false_iff.mp (h.free subnet hfree other hother) hold
    · exact hfree (.inr (SubnetMap.mem_getAll_iff.mp (mem_subnetTopics_iff.mp hmem).2.2))
  · rcases subscribedTo_subscribe.mp hnow with hold | hmem
    · exact h.begun topic hold
    · rw [List.mem_singleton.mp (mem_subnetTopics_iff.mp hmem).2.1]
      exact ⟨_, le_rfl, hfork⟩

theorem tracks_unsubscribeSubnetsFromPrevFork (h : Tracks opts currentSlot this) {fork : ForkName}
    (hover : fork ∉ currentForks opts currentSlot ∨
      ∀ subnet, ¬ this.attnetsService.ActiveAt currentSlot subnet) :
    Tracks opts currentSlot (unsubscribeSubnetsFromPrevFork opts fork this) := by
  unfold unsubscribeSubnetsFromPrevFork
  split_ifs
  · exact h
  refine ⟨⟨fun subnet hneeded other hother => subscribedTo_unsubscribe.mpr
    ⟨h.joined subnet hneeded other hother, fun hmem => ?_⟩, fun subnet hfree other hother => ?_⟩,
    fun topic hnow => h.begun topic (subscribedTo_unsubscribe.mp hnow).1⟩
  · have hsame := List.mem_singleton.mp (mem_subnetTopics_iff.mp hmem).2.1
    exact hover.elim (fun hnot => hnot (hsame ▸ hother)) fun hnone => hnone subnet hneeded
  · refine Bool.eq_false_iff.mpr fun hnow => ?_
    exact Bool.eq_false_iff.mp (h.free subnet hfree other hother)
      (subscribedTo_unsubscribe.mp hnow).1

end AttnetsService

end

end Lodestar.Network
