import Lodestar.Network.GossipTopic
import Lodestar.Network.SubnetMap
import Lodestar.StateTransition.Domains

/-!
# Subnets services

`syncnetsService.ts` and `attnetsService.ts`: the subnets that the node was asked for,
with the bits of the metadata that advertise them and the topics that gossip is told to
join and to leave, in the forks that `network/forks.ts` has active.
An event is given `clock.currentSlot`, which may be past the slot that ticks, and what
is drawn at random.
-/

namespace Lodestar.Network

open Lodestar.Base Lodestar.StateTransition

/-! ## Forks -/

def FORK_EPOCH_LOOKAHEAD : Nat := 2

def getActiveForks (config : ChainConfig) (epoch : Nat) : List ForkName :=
  forks.filter fun fork =>
    -- of forks at the same epoch, only the latest one
    config.forkEpoch fork ≠ config.nextForkEpoch fork ∧
    config.forkEpoch fork ≤ (epoch + FORK_EPOCH_LOOKAHEAD : Nat) ∧
    (epoch : WithTop Nat) ≤ config.nextForkEpoch fork + (FORK_EPOCH_LOOKAHEAD : Nat)

theorem mem_getActiveForks_of_between {config : ChainConfig} {fork : ForkName} {a b c : Nat}
    (hab : a ≤ b) (hbc : b ≤ c) (ha : fork ∈ getActiveForks config a)
    (hc : fork ∈ getActiveForks config c) : fork ∈ getActiveForks config b := by
  unfold getActiveForks at ha hc ⊢
  obtain ⟨hmem, ha⟩ := List.mem_filter.mp ha
  obtain ⟨hne, hbegun, -⟩ := of_decide_eq_true ha
  obtain ⟨-, -, hover⟩ := of_decide_eq_true (List.mem_filter.mp hc).2
  refine List.mem_filter.mpr ⟨hmem, decide_eq_true ⟨hne, hbegun.trans ?_, le_trans ?_ hover⟩⟩
  · exact_mod_cast Nat.add_le_add_right hab _
  · exact_mod_cast hbc

/-! ## Gossip -/

structure SubnetTopic where
  type : SubnetGossipType
  fork : ForkName
  subnet : Nat
  deriving DecidableEq

inductive GossipCall where
  | subscribeTopic (topic : SubnetTopic)
  | unsubscribeTopic (topic : SubnetTopic)

/-- The topics of the subnets in every one of the forks. -/
def subnetTopics (type : SubnetGossipType) (forks : List ForkName) (subnets : List Nat) :
    List SubnetTopic :=
  subnets.flatMap fun subnet => forks.map fun fork => ⟨type, fork, subnet⟩

/-- The last call for the topic was to leave it. -/
def toldToLeave (gossip : List GossipCall) (topic : SubnetTopic) : Bool :=
  gossip.foldl (fun left call => match call with
    | .subscribeTopic called => left && called ≠ topic
    | .unsubscribeTopic called => left || called = topic) false

section Gossip

variable {gossip : List GossipCall} {topics : List SubnetTopic} {topic : SubnetTopic}

theorem mem_subnetTopics_iff {type : SubnetGossipType} {forks : List ForkName}
    {subnets : List Nat} : topic ∈ subnetTopics type forks subnets
      ↔ topic.type = type ∧ topic.fork ∈ forks ∧ topic.subnet ∈ subnets := by
  unfold subnetTopics
  rw [List.mem_flatMap]
  constructor
  · rintro ⟨subnet, hsubnet, htopic⟩
    obtain ⟨fork, hfork, rfl⟩ := List.mem_map.mp htopic
    exact ⟨rfl, hfork, hsubnet⟩
  · rintro ⟨rfl, hfork, hsubnet⟩
    exact ⟨topic.subnet, hsubnet, List.mem_map.mpr ⟨topic.fork, hfork, rfl⟩⟩

theorem toldToLeave_subscribe : toldToLeave (gossip ++ topics.map .subscribeTopic) topic = true
    ↔ toldToLeave gossip topic = true ∧ topic ∉ topics := by
  induction topics using List.reverseRecOn with
  | nil => simp
  | append_singleton topics called ih =>
    have hlast : toldToLeave (gossip ++ (topics ++ [called]).map .subscribeTopic) topic
        = (toldToLeave (gossip ++ topics.map .subscribeTopic) topic && called ≠ topic) := by
      unfold toldToLeave
      rw [List.map_append, ← List.append_assoc, List.foldl_append]
      rfl
    rw [hlast, Bool.and_eq_true, ih, decide_eq_true_iff, List.mem_append, List.mem_singleton,
      not_or, and_assoc, ne_comm]

theorem toldToLeave_unsubscribe : toldToLeave (gossip ++ topics.map .unsubscribeTopic) topic = true
    ↔ toldToLeave gossip topic = true ∨ topic ∈ topics := by
  induction topics using List.reverseRecOn with
  | nil => simp
  | append_singleton topics called ih =>
    have hlast : toldToLeave (gossip ++ (topics ++ [called]).map .unsubscribeTopic) topic
        = (toldToLeave (gossip ++ topics.map .unsubscribeTopic) topic || called = topic) := by
      unfold toldToLeave
      rw [List.map_append, ← List.append_assoc, List.foldl_append]
      rfl
    rw [hlast, Bool.or_eq_true, ih, decide_eq_true_iff, List.mem_append, List.mem_singleton,
      or_assoc, @eq_comm _ called]

end Gossip

/-! ## Metadata -/

def ATTESTATION_SUBNET_COUNT : Nat := 64
def SYNC_COMMITTEE_SUBNET_COUNT : Nat := 4

/-- `subnets[subnet] = true`, where an index behind the end makes the array longer. -/
def setBit (bits : List Bool) (subnet : Nat) : List Bool :=
  if subnet < bits.length then bits.set subnet true
  else bits ++ (List.replicate (subnet - bits.length) false ++ [true])

/-- The default value of the vector with the bits of the subnets. -/
def subnetBits (count : Nat) (subnets : List Nat) : List Bool :=
  subnets.foldl setBit (List.replicate count false)

def bitAt (bits : List Bool) (subnet : Nat) : Bool := bits.getD subnet false

/-- `equals` of a vector reads as many bits as it has. -/
def equalBits (count : Nat) (a b : List Bool) : Bool :=
  (List.range count).all fun i => bitAt a i = bitAt b i

structure Metadata where
  seqNumber : Nat
  attnets : List Bool
  syncnets : List Bool

section Bits

variable {bits : List Bool} {count i : Nat} {subnets : List Nat}

theorem bitAt_setBit {subnet : Nat} :
    bitAt (setBit bits subnet) i = true ↔ i = subnet ∨ bitAt bits i = true := by
  unfold bitAt setBit
  split_ifs with hin
  · rw [List.getD_eq_getElem?_getD, List.getElem?_set]
    split_ifs with heq
    · simp [heq.symm, hin]
    · rw [← List.getD_eq_getElem?_getD]
      exact ⟨.inr, (·.resolve_left (Ne.symm heq))⟩
  · rcases Nat.lt_or_ge i bits.length with hlt | hge
    · rw [List.getD_append _ _ _ _ hlt]
      exact ⟨.inr, (·.resolve_left (by omega))⟩
    · have hold : bits.getD i false = false := List.getD_eq_default _ _ hge
      rw [List.getD_append_right _ _ _ _ hge, hold]
      rcases lt_trichotomy i subnet with hlt | rfl | hgt
      · rw [List.getD_append _ _ _ _ (by rw [List.length_replicate]; omega)]
        simp [hlt.ne]
      · rw [List.getD_append_right _ _ _ _ (by rw [List.length_replicate])]
        simp
      · rw [List.getD_eq_default _ _ (by simp; omega)]
        simp [hgt.ne']

theorem bitAt_replicate : bitAt (List.replicate count false) i = false := by
  unfold bitAt
  rw [List.getD_eq_getElem?_getD, List.getElem?_replicate]
  split_ifs <;> rfl

theorem bitAt_subnetBits : bitAt (subnetBits count subnets) i = true ↔ i ∈ subnets := by
  induction subnets using List.reverseRecOn with
  | nil =>
    have hnone : bitAt (subnetBits count []) i = false := bitAt_replicate
    rw [hnone]
    exact iff_of_false Bool.false_ne_true List.not_mem_nil
  | append_singleton subnets subnet ih =>
    have hlast : subnetBits count (subnets ++ [subnet])
        = setBit (subnetBits count subnets) subnet := List.foldl_append
    rw [hlast, bitAt_setBit, ih, List.mem_append, List.mem_singleton, or_comm]

theorem bitAt_of_equalBits (hequal : equalBits count (subnetBits count subnets) bits = true)
    (hrange : ∀ subnet ∈ subnets, subnet < count) (hbits : ∀ i, bitAt bits i = true → i < count) :
    bitAt bits i = true ↔ i ∈ subnets := by
  have hbelow : i < count → bitAt (subnetBits count subnets) i = bitAt bits i := fun hi =>
    of_decide_eq_true (List.all_eq_true.mp hequal i (List.mem_range.mpr hi))
  constructor
  · intro h
    rw [← hbelow (hbits i h)] at h
    exact bitAt_subnetBits.mp h
  · intro h
    rw [← hbelow (hrange i h)]
    exact bitAt_subnetBits.mpr h

end Bits

/-! ## Random choices -/

/-- What `Math.random` gives to one rebalance. -/
structure RandomDraws where
  shuffle : Nat → Nat
  slotLen : Nat → Nat

def shuffleFrom (draws : Nat → Nat) : Nat → Array Nat → Array Nat
  | 0, arr => arr
  | i + 1, arr => shuffleFrom draws i (arr.swapIfInBounds (i + 1) (draws (i + 1) % (i + 2)))

def shuffle (draws : Nat → Nat) (arr : List Nat) : List Nat :=
  (shuffleFrom draws (arr.length - 1) arr.toArray).toList

theorem perm_shuffleFrom (draws : Nat → Nat) (i : Nat) (arr : Array Nat) :
    (shuffleFrom draws i arr).Perm arr := by
  induction i generalizing arr with
  | zero => exact .rfl
  | succ i ih =>
    refine (ih _).trans ?_
    rw [Array.swapIfInBounds_def]
    split_ifs
    · exact Array.swap_perm _ _
    · exact .rfl
    · exact .rfl

theorem mem_shuffle_iff {draws : Nat → Nat} {arr : List Nat} {subnet : Nat} :
    subnet ∈ shuffle draws arr ↔ subnet ∈ arr := by
  unfold shuffle
  rw [(perm_shuffleFrom draws _ _).toList.mem_iff]

def randBetween (draw min max : Nat) : Nat := draw % (max - min) + min

def EPOCHS_PER_RANDOM_SUBNET_SUBSCRIPTION : Nat := 256

/-! ## The services -/

structure CommitteeSubscription where
  validatorIndex : Nat
  subnet : Nat
  slot : Nat
  isAggregator : Bool

structure SyncnetsService where
  subscriptionsCommittee : SubnetMap

structure AttnetsService where
  committeeSubnets : SubnetMap
  subscriptionsCommittee : SubnetMap
  subscriptionsRandom : SubnetMap
  /-- The slot at which each validator was last seen. -/
  knownValidators : OrderedMap Nat Nat

/-- Both services with what they write. -/
structure SubnetsServices where
  attnetsService : AttnetsService
  syncnetsService : SyncnetsService
  metadata : Metadata
  gossip : List GossipCall

structure SubnetsServiceOpts where
  config : ChainConfig
  subscribeAllSubnets : Bool

def SubnetsServices.init : SubnetsServices where
  attnetsService := ⟨.empty, .empty, .empty, .empty⟩
  syncnetsService := ⟨.empty⟩
  metadata :=
    { seqNumber := 0
      attnets := List.replicate ATTESTATION_SUBNET_COUNT false
      syncnets := List.replicate SYNC_COMMITTEE_SUBNET_COUNT false }
  gossip := []

variable [Preset] (opts : SubnetsServiceOpts) (currentSlot : Nat) {this : SubnetsServices}

/-- `getActiveForks` at `clock.currentEpoch`. -/
def currentForks : List ForkName :=
  getActiveForks opts.config (computeEpochAtSlot currentSlot)

namespace SyncnetsService

/-- Only subnets that no subscription holds. -/
def subscribeToSubnets (subnets : List Nat) (this : SubnetsServices) : SubnetsServices :=
  let subnets := subnets.filter fun subnet =>
    !this.syncnetsService.subscriptionsCommittee.has subnet
  { this with
    gossip := this.gossip
      ++ (subnetTopics .sync_committee (currentForks opts currentSlot) subnets).map
        .subscribeTopic }

def unsubscribeSubnets (subnets : List Nat) (this : SubnetsServices) : SubnetsServices :=
  if opts.subscribeAllSubnets then this
  else
    { this with
      gossip := this.gossip
        ++ (subnetTopics .sync_committee (currentForks opts currentSlot) subnets).map
          .unsubscribeTopic }

def updateMetadata (this : SubnetsServices) : SubnetsServices :=
  let subnets := subnetBits SYNC_COMMITTEE_SUBNET_COUNT
    this.syncnetsService.subscriptionsCommittee.getAll
  if equalBits SYNC_COMMITTEE_SUBNET_COUNT subnets this.metadata.syncnets then this
  else { this with metadata := { this.metadata with syncnets := subnets } }

def addCommitteeSubscriptions (subscriptions : List CommitteeSubscription)
    (this : SubnetsServices) : SubnetsServices :=
  let this := subscribeToSubnets opts currentSlot (subscriptions.map (·.subnet)) this
  let requests := subscriptions.map fun sub => RequestedSubnet.mk sub.subnet sub.slot
  updateMetadata
    { this with
      syncnetsService := ⟨requests.foldl SubnetMap.request
        this.syncnetsService.subscriptionsCommittee⟩ }

def onEpoch (epoch : Nat) (this : SubnetsServices) : SubnetsServices :=
  let slot := computeStartSlotAtEpoch epoch
  let (expired, subscriptionsCommittee) :=
    this.syncnetsService.subscriptionsCommittee.getExpired slot
  unsubscribeSubnets opts currentSlot expired
    { this with syncnetsService := ⟨subscriptionsCommittee⟩ }

end SyncnetsService

namespace AttnetsService

def LAST_SEEN_VALIDATOR_TIMEOUT : Nat := 150
def RANDOM_SUBNETS_PER_VALIDATOR : Nat := 1

def randomSubscriptionSlotLen (draw : Nat) : Nat :=
  randBetween draw EPOCHS_PER_RANDOM_SUBNET_SUBSCRIPTION (2 * EPOCHS_PER_RANDOM_SUBNET_SUBSCRIPTION)
    * SLOTS_PER_EPOCH

/-- Only subnets that no subscription holds. -/
def subscribeToSubnets (subnets : List Nat) (this : SubnetsServices) : SubnetsServices :=
  let subnets := subnets.filter fun subnet =>
    !this.attnetsService.subscriptionsCommittee.has subnet &&
      !this.attnetsService.subscriptionsRandom.has subnet
  { this with
    gossip := this.gossip
      ++ (subnetTopics .beacon_attestation (currentForks opts currentSlot) subnets).map
        .subscribeTopic }

/-- Only subnets that no subscription needs at the slot. -/
def unsubscribeSubnets (subnets : List Nat) (slot : Nat) (this : SubnetsServices) :
    SubnetsServices :=
  if opts.subscribeAllSubnets then this
  else
    let subnets := subnets.filter fun subnet =>
      !this.attnetsService.subscriptionsCommittee.isActiveAtSlot subnet slot &&
        !this.attnetsService.subscriptionsRandom.isActiveAtSlot subnet slot
    { this with
      gossip := this.gossip
        ++ (subnetTopics .beacon_attestation (currentForks opts currentSlot) subnets).map
          .unsubscribeTopic }

def updateMetadata (this : SubnetsServices) : SubnetsServices :=
  let subnets := subnetBits ATTESTATION_SUBNET_COUNT this.attnetsService.subscriptionsRandom.getAll
  if equalBits ATTESTATION_SUBNET_COUNT subnets this.metadata.attnets then this
  else
    { this with
      metadata :=
        { this.metadata with attnets := subnets, seqNumber := this.metadata.seqNumber + 1 } }

omit [Preset] in
theorem attnetsService_updateMetadata :
    (updateMetadata this).attnetsService = this.attnetsService := by
  unfold updateMetadata
  dsimp only
  split_ifs <;> rfl

omit [Preset] in
theorem gossip_updateMetadata : (updateMetadata this).gossip = this.gossip := by
  unfold updateMetadata
  dsimp only
  split_ifs <;> rfl

def targetRandomSubnetCount (knownValidators : Nat) : Nat :=
  min (knownValidators * RANDOM_SUBNETS_PER_VALIDATOR) ATTESTATION_SUBNET_COUNT

omit [Preset] in
theorem targetRandomSubnetCount_mono {a b : Nat} (h : a ≤ b) :
    targetRandomSubnetCount a ≤ targetRandomSubnetCount b :=
  min_le_min_right _ (Nat.mul_le_mul_right _ h)

/-- The branch of `rebalanceRandomSubnets` that subscribes to more. -/
def connectRandomSubnets (random : RandomDraws) (subnetDiff : Nat) (this : SubnetsServices) :
    SubnetsServices :=
  let activeSubnets := this.attnetsService.subscriptionsRandom.getActive currentSlot
  let availableSubnets := (List.range ATTESTATION_SUBNET_COUNT).filter (· ∉ activeSubnets)
  let subnetsToConnect := (shuffle random.shuffle availableSubnets).take subnetDiff
  let this := subscribeToSubnets opts currentSlot subnetsToConnect this
  let requests := subnetsToConnect.mapIdx fun i subnet =>
    RequestedSubnet.mk subnet (randomSubscriptionSlotLen (random.slotLen i) + currentSlot)
  { this with
    attnetsService.subscriptionsRandom :=
      requests.foldl SubnetMap.request this.attnetsService.subscriptionsRandom }

/-- The branch that unsubscribes from the last ones. -/
def removeRandomSubnets (excess : Nat) (this : SubnetsServices) : SubnetsServices :=
  let activeRandomSubnets := this.attnetsService.subscriptionsRandom.getActive currentSlot
  let toRemoveSubnets := activeRandomSubnets.drop (activeRandomSubnets.length - excess)
  unsubscribeSubnets opts currentSlot toRemoveSubnets currentSlot
    { this with
      attnetsService.subscriptionsRandom :=
        toRemoveSubnets.foldl SubnetMap.delete this.attnetsService.subscriptionsRandom }

def rebalanceRandomSubnets (random : RandomDraws) (this : SubnetsServices) : SubnetsServices :=
  let target := targetRandomSubnetCount this.attnetsService.knownValidators.size
  let size := this.attnetsService.subscriptionsRandom.size
  if size < target then
    updateMetadata (connectRandomSubnets opts currentSlot random (target - size) this)
  else if target < size then
    updateMetadata (removeRandomSubnets opts currentSlot (size - target) this)
  else this

/-- The random subnets in a fork that is to come. -/
def subscribeSubnetsToNextFork (nextFork : ForkName) (this : SubnetsServices) : SubnetsServices :=
  { this with
    gossip := this.gossip ++ (subnetTopics .beacon_attestation [nextFork]
      this.attnetsService.subscriptionsRandom.getAll).map .subscribeTopic }

/-- Every subnet in a fork that is over. -/
def unsubscribeSubnetsFromPrevFork (prevFork : ForkName) (this : SubnetsServices) :
    SubnetsServices :=
  if opts.subscribeAllSubnets then this
  else
    { this with
      gossip := this.gossip ++ (subnetTopics .beacon_attestation [prevFork]
        (List.range ATTESTATION_SUBNET_COUNT)).map .unsubscribeTopic }

/-- The loop of `addCommitteeSubscriptions`: the service, whether a validator is new, and what the
aggregators need. -/
def registerSubscriptions : List CommitteeSubscription →
    AttnetsService × Bool × List RequestedSubnet → AttnetsService × Bool × List RequestedSubnet
  | [], acc => acc
  | sub :: subscriptions, (this, addedknownValidators, subnetsToSubscribe) =>
    registerSubscriptions subscriptions
      ({ this with
          knownValidators := this.knownValidators.set sub.validatorIndex currentSlot
          -- the heartbeat looks for peers one slot longer
          committeeSubnets := this.committeeSubnets.request ⟨sub.subnet, sub.slot + 1⟩ },
        addedknownValidators || !this.knownValidators.has sub.validatorIndex,
        if sub.isAggregator then subnetsToSubscribe ++ [⟨sub.subnet, sub.slot⟩]
        else subnetsToSubscribe)

def addCommitteeSubscriptions (random : RandomDraws) (subscriptions : List CommitteeSubscription)
    (this : SubnetsServices) : SubnetsServices :=
  let (attnetsService, addedknownValidators, subnetsToSubscribe) :=
    registerSubscriptions currentSlot subscriptions (this.attnetsService, false, [])
  let this := subscribeToSubnets opts currentSlot (subnetsToSubscribe.map (·.subnet))
    { this with attnetsService }
  let this :=
    { this with
      attnetsService.subscriptionsCommittee :=
        subnetsToSubscribe.foldl SubnetMap.request this.attnetsService.subscriptionsCommittee }
  if addedknownValidators then rebalanceRandomSubnets opts currentSlot random this else this

def onSlot (slot : Nat) (this : SubnetsServices) : SubnetsServices :=
  let (expired, subscriptionsCommittee) :=
    this.attnetsService.subscriptionsCommittee.getExpired slot
  unsubscribeSubnets opts currentSlot expired slot
    { this with attnetsService.subscriptionsCommittee := subscriptionsCommittee }

def unsubscribeExpiredRandomSubnets (random : RandomDraws) (slot : Nat) (this : SubnetsServices) :
    SubnetsServices :=
  let (expired, subscriptionsRandom) := this.attnetsService.subscriptionsRandom.getExpired slot
  let this := unsubscribeSubnets opts currentSlot expired slot
    { this with attnetsService.subscriptionsRandom := subscriptionsRandom }
  rebalanceRandomSubnets opts currentSlot random this

/-- The validators that were not seen for too long. -/
def expiredKnownValidators (slot : Nat) (knownValidators : OrderedMap Nat Nat) : List Nat :=
  (knownValidators.entries.filter (·.2 + LAST_SEEN_VALIDATOR_TIMEOUT < slot)).map Prod.fst

omit [Preset] in
theorem size_foldl_delete_le {validators : List Nat} {known : OrderedMap Nat Nat} :
    (validators.foldl OrderedMap.delete known).size ≤ known.size := by
  induction validators generalizing known with
  | nil => exact le_rfl
  | cons validator validators ih => exact ih.trans (List.length_filter_le _ _)

def pruneExpiredKnownValidators (random : RandomDraws) (slot : Nat) (this : SubnetsServices) :
    SubnetsServices :=
  let deleted := expiredKnownValidators slot this.attnetsService.knownValidators
  let this :=
    { this with
      attnetsService.knownValidators :=
        deleted.foldl OrderedMap.delete this.attnetsService.knownValidators }
  if deleted ≠ [] then rebalanceRandomSubnets opts currentSlot random this else this

def onEpoch (expired pruned : RandomDraws) (epoch : Nat) (this : SubnetsServices) :
    SubnetsServices :=
  let slot := computeStartSlotAtEpoch epoch
  let this := unsubscribeExpiredRandomSubnets opts currentSlot expired slot this
  pruneExpiredKnownValidators opts currentSlot pruned slot this

end AttnetsService

/-! ## Runs -/

inductive SubnetsEvent where
  | prepareBeaconCommitteeSubnet (subscriptions : List CommitteeSubscription) (random : RandomDraws)
  | prepareSyncCommitteeSubnets (subscriptions : List CommitteeSubscription)
  | clockSlot (slot : Nat)
  | clockEpoch (epoch : Nat) (expired pruned : RandomDraws)

/-- The handlers of an event, in the order in which the services start. -/
def SubnetsServices.step (this : SubnetsServices) : SubnetsEvent → SubnetsServices
  | .prepareBeaconCommitteeSubnet subscriptions random =>
    AttnetsService.addCommitteeSubscriptions opts currentSlot random subscriptions this
  | .prepareSyncCommitteeSubnets subscriptions =>
    SyncnetsService.addCommitteeSubscriptions opts currentSlot subscriptions this
  | .clockSlot slot => AttnetsService.onSlot opts currentSlot slot this
  | .clockEpoch epoch expired pruned =>
    SyncnetsService.onEpoch opts currentSlot epoch
      (AttnetsService.onEpoch opts currentSlot expired pruned epoch this)

end Lodestar.Network
