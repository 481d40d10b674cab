import Lodestar.StateTransition.Operations
import Mathlib.Logic.Relation

/-!
# Signature domains

`config/src/genesisConfig` looks the version of a domain up in the fork
schedule, by the slot of the object. The specification's `get_domain` takes one
of the two versions of `state.fork`. The hash of a `ForkData` is a parameter.
-/

namespace Lodestar

/-! ## The schedule -/

/-- `forks[name].epoch`. -/
def ChainConfig.forkEpoch (config : ChainConfig) : ForkName → WithTop Nat
  | .phase0 => (GENESIS_EPOCH : Nat)
  | .altair => config.ALTAIR_FORK_EPOCH
  | .bellatrix => config.BELLATRIX_FORK_EPOCH

/-- `forks[name].version`. -/
def ChainConfig.forkVersion (config : ChainConfig) : ForkName → Version
  | .phase0 => config.GENESIS_FORK_VERSION
  | .altair => config.ALTAIR_FORK_VERSION
  | .bellatrix => config.BELLATRIX_FORK_VERSION

/-- The fork before, or the first one itself. -/
def ForkName.previous : ForkName → ForkName
  | .phase0 => .phase0
  | .altair => .phase0
  | .bellatrix => .altair

/-- The epoch of the fork after, if there is one. -/
def ChainConfig.nextForkEpoch (config : ChainConfig) : ForkName → WithTop Nat
  | .phase0 => config.ALTAIR_FORK_EPOCH
  | .altair => config.BELLATRIX_FORK_EPOCH
  | .bellatrix => ⊤

namespace StateTransition

/-! ## Domains -/

/-- 4 bytes. -/
abbrev DomainType := BitVec 32

/-- 32 bytes. -/
abbrev Domain := BitVec 256

def DOMAIN_RANDAO : DomainType := 0x02000000
def DOMAIN_SYNC_COMMITTEE : DomainType := 0x07000000

/-- `ssz.phase0.ForkData.hashTreeRoot`, of a version and of the validators' root. -/
abbrev ForkDataRoot := Version → Root → Root

/-- The first 28 bytes of a root. -/
def rootPrefix (root : Root) : BitVec 224 := root.extractLsb' 32 224

def computeDomain (computeForkDataRoot : ForkDataRoot) (domainType : DomainType)
    (forkVersion : Version) (genesisValidatorRoot : Root) : Domain :=
  domainType ++ rootPrefix (computeForkDataRoot forkVersion genesisValidatorRoot)

/-- `ICachedGenesis`, without the fork digests. -/
structure ICachedGenesis where
  config : ChainConfig
  computeForkDataRoot : ForkDataRoot
  genesisValidatorsRoot : Root

/-- `domainCache` of a closure of `createICachedGenesis`. -/
abbrev DomainCache := ForkName → DomainType → Option Domain

section

variable [Preset]

def ICachedGenesis.getDomain (this : ICachedGenesis) (domainType : DomainType) (slot : Nat)
    (domainCache : DomainCache) : Domain × DomainCache :=
  let name := getForkName this.config slot
  match domainCache name domainType with
  | some domain => (domain, domainCache)
  | none =>
    let domain := computeDomain this.computeForkDataRoot domainType
      (getForkVersion this.config slot) this.genesisValidatorsRoot
    (domain, fun name' domainType' =>
      if name' = name ∧ domainType' = domainType then some domain
      else domainCache name' domainType')

/-- The cache after calls on a new closure. -/
def ICachedGenesis.domainCache (this : ICachedGenesis) (calls : List (DomainType × Nat)) :
    DomainCache :=
  calls.foldl (fun cache (domainType, slot) => (this.getDomain domainType slot cache).2)
    fun _ _ => none

/-! ## What is signed -/

/-- The objects whose signatures a block carries, but for deposits. -/
inductive SignedObject where
  /-- Of an attestation, or of either side of an attester slashing. -/
  | indexedAttestation (data : AttestationData)
  /-- Of either side of a proposer slashing. -/
  | signedHeader (header : BeaconBlockHeader)
  | block (slot : Nat)
  | voluntaryExit (message : VoluntaryExit)
  | randaoReveal (blockSlot : Nat)
  | syncAggregate (blockSlot : Nat)

namespace SignedObject

def domainType : SignedObject → DomainType
  | indexedAttestation _ => DOMAIN_BEACON_ATTESTER
  | signedHeader _ => DOMAIN_BEACON_PROPOSER
  | block _ => DOMAIN_BEACON_PROPOSER
  | voluntaryExit _ => DOMAIN_VOLUNTARY_EXIT
  | randaoReveal _ => DOMAIN_RANDAO
  | syncAggregate _ => DOMAIN_SYNC_COMMITTEE

/-- The epoch that the specification gives to `get_domain`. The state of a randao reveal and of a
sync aggregate is at the slot of the block. -/
def epoch : SignedObject → Nat
  | indexedAttestation data => data.target.epoch
  | signedHeader header => computeEpochAtSlot header.slot
  | block slot => computeEpochAtSlot slot
  | voluntaryExit message => message.epoch
  | randaoReveal blockSlot => computeEpochAtSlot blockSlot
  | syncAggregate blockSlot => computeEpochAtSlot (max blockSlot 1 - 1)

end SignedObject

/-! ## `state.fork` -/

structure Fork where
  previousVersion : Version
  currentVersion : Version
  epoch : Nat
  deriving DecidableEq

/-- `getForkVersion` of `util/domain.ts`, which is the specification's choice. -/
def Fork.getForkVersion (fork : Fork) (epoch : Nat) : Version :=
  if epoch < fork.epoch then fork.previousVersion else fork.currentVersion

/-- The fields of a state that the upgrades read and write here. -/
structure ForkedState where
  slot : Nat
  fork : Fork
  deriving DecidableEq

/-- `upgradeState`, to the version of a fork. -/
def ForkedState.upgradeState (state : ForkedState) (version : Version) : ForkedState :=
  { state with fork :=
    { previousVersion := state.fork.currentVersion
      currentVersion := version
      epoch := computeEpochAtSlot state.slot } }

/-- A turn of the loop of `processSlotsWithTransientCache`. -/
def ForkedState.processSlot (config : ChainConfig) (state : ForkedState) : ForkedState :=
  if (state.slot + 1) % SLOTS_PER_EPOCH = 0 then
    let postState := { state with slot := state.slot + 1 }
    let stateEpoch : WithTop Nat := computeEpochAtSlot postState.slot
    let postState := if stateEpoch = config.ALTAIR_FORK_EPOCH then
      postState.upgradeState config.ALTAIR_FORK_VERSION else postState
    if stateEpoch = config.BELLATRIX_FORK_EPOCH then
      postState.upgradeState config.BELLATRIX_FORK_VERSION else postState
  else { state with slot := state.slot + 1 }

theorem getForkVersion_eq (config : ChainConfig) (slot : Nat) :
    getForkVersion config slot = config.forkVersion (getForkName config slot) := by
  unfold getForkVersion
  cases getForkName config slot <;> rfl

/-- The domains in the cache are those of their fork. -/
def CacheOk (this : ICachedGenesis) (cache : DomainCache) : Prop :=
  ∀ name domainType domain, cache name domainType = some domain →
    domain = computeDomain this.computeForkDataRoot domainType (this.config.forkVersion name)
      this.genesisValidatorsRoot

variable {this : ICachedGenesis} {cache : DomainCache}

theorem CacheOk.getDomain (h : CacheOk this cache) (domainType : DomainType) (slot : Nat) :
    (this.getDomain domainType slot cache).1 =
      computeDomain this.computeForkDataRoot domainType (getForkVersion this.config slot)
        this.genesisValidatorsRoot ∧
    CacheOk this (this.getDomain domainType slot cache).2 := by
  unfold ICachedGenesis.getDomain
  dsimp only
  cases hcached : cache (getForkName this.config slot) domainType with
  | some domain =>
    rw [getForkVersion_eq]
    exact ⟨h _ _ _ hcached, h⟩
  | none =>
    refine ⟨rfl, fun name domainType' domain hdomain => ?_⟩
    dsimp only at hdomain
    split_ifs at hdomain with hkey
    · obtain ⟨rfl, rfl⟩ := hkey
      rw [← Option.some.inj hdomain, getForkVersion_eq]
    · exact h _ _ _ hdomain

theorem cacheOk_domainCache (this : ICachedGenesis) (calls : List (DomainType × Nat)) :
    CacheOk this (this.domainCache calls) := by
  induction calls using List.reverseRecOn with
  | nil => intro _ _ _ h; cases h
  | append_singleton calls call ih =>
    unfold ICachedGenesis.domainCache at ih ⊢
    rw [List.foldl_append]
    exact (ih.getDomain call.1 call.2).2

theorem getDomain_domainCache (this : ICachedGenesis) (calls : List (DomainType × Nat))
    (domainType : DomainType) (slot : Nat) :
    (this.getDomain domainType slot (this.domainCache calls)).1 =
      computeDomain this.computeForkDataRoot domainType (getForkVersion this.config slot)
        this.genesisValidatorsRoot :=
  ((cacheOk_domainCache this calls).getDomain domainType slot).1

/-! ## The fork of a state -/

variable {config : ChainConfig} {state : ForkedState}

/-- `state.fork` is the scheduled fork, after the one before. A fork of epoch 0 has none before. -/
structure ForkOk (config : ChainConfig) (state : ForkedState) : Prop where
  epoch : (state.fork.epoch : WithTop Nat) = config.forkEpoch (getForkName config state.slot)
  current : state.fork.currentVersion = config.forkVersion (getForkName config state.slot)
  previous : 0 < state.fork.epoch →
    state.fork.previousVersion = config.forkVersion (getForkName config state.slot).previous

omit [Preset] in
theorem le_succ_iff {a : WithTop Nat} {n : Nat} :
    a ≤ ((n + 1 : Nat) : WithTop Nat) ↔ a ≤ (n : WithTop Nat) ∨ ((n + 1 : Nat) : WithTop Nat) = a := by
  cases a with
  | top => simp
  | coe a =>
    show WithTop.some a ≤ WithTop.some (n + 1) ↔
      WithTop.some a ≤ WithTop.some n ∨ WithTop.some (n + 1) = WithTop.some a
    rw [WithTop.coe_le_coe, WithTop.coe_le_coe, WithTop.coe_inj]
    omega

theorem ForkOk.upgradeState (name : ForkName) (hname : getForkName config state.slot = name)
    (hepoch : ((computeEpochAtSlot state.slot : Nat) : WithTop Nat) = config.forkEpoch name)
    (hcurrent : state.fork.currentVersion = config.forkVersion name.previous) :
    ForkOk config (state.upgradeState (config.forkVersion name)) where
  epoch := by rw [show (state.upgradeState _).slot = state.slot from rfl, hname]; exact hepoch
  current := by rw [show (state.upgradeState _).slot = state.slot from rfl, hname]; rfl
  previous := fun _ => by
    rw [show (state.upgradeState _).slot = state.slot from rfl, hname]
    exact hcurrent

theorem ForkOk.processSlot (hschedule : config.ALTAIR_FORK_EPOCH ≤ config.BELLATRIX_FORK_EPOCH)
    (h : ForkOk config state) : ForkOk config (state.processSlot config) := by
  unfold ForkedState.processSlot
  by_cases hboundary : (state.slot + 1) % SLOTS_PER_EPOCH = 0
  · rw [if_pos hboundary]
    dsimp only
    have hepoch := computeEpochAtSlot_succ hboundary
    set e := computeEpochAtSlot state.slot
    have hbellatrix := le_succ_iff (a := config.BELLATRIX_FORK_EPOCH) (n := e)
    have haltair := le_succ_iff (a := config.ALTAIR_FORK_EPOCH) (n := e)
    have hnow : getForkName config state.slot = if config.BELLATRIX_FORK_EPOCH ≤ (e : WithTop Nat)
        then .bellatrix else if config.ALTAIR_FORK_EPOCH ≤ (e : WithTop Nat) then .altair
        else .phase0 := rfl
    have hnext : getForkName config (state.slot + 1) =
        if config.BELLATRIX_FORK_EPOCH ≤ ((e + 1 : Nat) : WithTop Nat) then .bellatrix
        else if config.ALTAIR_FORK_EPOCH ≤ ((e + 1 : Nat) : WithTop Nat) then .altair
        else .phase0 := by
      unfold getForkName
      rw [hepoch]
    have hlt : (e : WithTop Nat) < ((e + 1 : Nat) : WithTop Nat) :=
      Nat.cast_lt.2 (Nat.lt_succ_self e)
    rw [hepoch]
    by_cases hA : ((e + 1 : Nat) : WithTop Nat) = config.ALTAIR_FORK_EPOCH
    · have hphase0 : state.fork.currentVersion = config.GENESIS_FORK_VERSION := by
        rw [h.current, hnow, if_neg (not_le.2 (hlt.trans_le (hA ▸ hschedule))),
          if_neg (not_le.2 (hA ▸ hlt))]
        rfl
      rw [if_pos hA]
      by_cases hB : ((e + 1 : Nat) : WithTop Nat) = config.BELLATRIX_FORK_EPOCH
      · -- both upgrades, one after the other
        rw [if_pos hB]
        refine ForkOk.upgradeState .bellatrix ?_ ?_ rfl
        · rw [show (ForkedState.upgradeState _ _).slot = state.slot + 1 from rfl, hnext,
            if_pos hB.ge]
        · rw [show (ForkedState.upgradeState _ _).slot = state.slot + 1 from rfl, hepoch]
          exact hB
      · rw [if_neg hB]
        refine ForkOk.upgradeState .altair ?_ (by rw [hepoch]; exact hA) hphase0
        have hlater : ¬ config.BELLATRIX_FORK_EPOCH ≤ ((e + 1 : Nat) : WithTop Nat) := fun hle =>
          hB (le_antisymm (hA ▸ hschedule) hle)
        rw [hnext, if_neg hlater, if_pos hA.ge]
    · rw [if_neg hA]
      have hsame : config.ALTAIR_FORK_EPOCH ≤ ((e + 1 : Nat) : WithTop Nat) ↔
          config.ALTAIR_FORK_EPOCH ≤ (e : WithTop Nat) := by
        rw [haltair, or_iff_left hA]
      by_cases hB : ((e + 1 : Nat) : WithTop Nat) = config.BELLATRIX_FORK_EPOCH
      · -- the state was of altair
        have hcurrent : state.fork.currentVersion = config.ALTAIR_FORK_VERSION := by
          rw [h.current, hnow, if_neg (not_le.2 (hB ▸ hlt)),
            if_pos (hsame.1 (hschedule.trans hB.ge))]
          rfl
        rw [if_pos hB]
        refine ForkOk.upgradeState .bellatrix ?_ (by rw [hepoch]; exact hB) hcurrent
        rw [hnext, if_pos hB.ge]
      · have hname : getForkName config (state.slot + 1) = getForkName config state.slot := by
          simp only [hnext, hnow, hbellatrix, or_iff_left hB, hsame]
        rw [if_neg hB]
        exact ⟨hname ▸ h.epoch, hname ▸ h.current, hname ▸ h.previous⟩
  · -- the epoch stays
    rw [if_neg hboundary]
    have hname : getForkName config (state.slot + 1) = getForkName config state.slot := by
      unfold getForkName
      rw [show computeEpochAtSlot (state.slot + 1) = computeEpochAtSlot state.slot from
        Nat.succ_div_of_mod_ne_zero hboundary]
    exact ⟨hname ▸ h.epoch, hname ▸ h.current, hname ▸ h.previous⟩

/-- The forks that are scheduled for an epoch before the fork of the state and the one before it,
or after the fork of the state, have the version of the nearer of the two. -/
def Covered (config : ChainConfig) (stateSlot epoch : Nat) : Prop :=
  let fork := getForkName config stateSlot
  let version := getForkVersion config (computeStartSlotAtEpoch epoch)
  ((epoch : WithTop Nat) < config.forkEpoch fork.previous →
    version = config.forkVersion fork.previous) ∧
  (config.nextForkEpoch fork ≤ (epoch : WithTop Nat) → version = config.forkVersion fork)

theorem getDomain_eq_signatures {bls : Signatures}
    (hbls : ∀ domainType version, bls.computeDomain domainType version =
      computeDomain this.computeForkDataRoot domainType version this.genesisValidatorsRoot)
    (calls : List (DomainType × Nat)) (domainType : DomainType) (slot : Nat) :
    (this.getDomain domainType slot (this.domainCache calls)).1 =
      bls.getDomain this.config domainType slot := by
  rw [getDomain_domainCache]
  exact (hbls _ _).symm

end

/-! ## Two forks old -/

attribute [local instance] minimal

end StateTransition

end Lodestar
