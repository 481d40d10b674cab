import Std.Data.TreeMap.Lemmas
import Lodestar.Base.Except
import Lodestar.StateTransition.State

/-!
# Deposits and the shared public key cache

`allForks/block/processDeposit.ts` and `cache/pubkeyCache.ts`. All states that
fork from one cached state share one map of public keys to indices, which
`EpochContext.copy` does not copy, "as eth1 is not expected to reorder
validators". Under that expectation the sharing never shows: every branch comes
out as its own registry alone decides.
-/

namespace Lodestar.StateTransition

open Std (TreeMap)
open Lodestar.Base

/-! ## Deposits -/

structure DepositData where
  pubkey : BLSPubkey
  withdrawalCredentials : Root
  amount : Nat
  signature : BitVec 768
  deriving DecidableEq

structure Deposit where
  proof : List Root
  data : DepositData
  deriving DecidableEq

/-- The functions of other packages that a deposit is checked with. -/
class DepositCrypto where
  /-- `SHA256.digest64` of two concatenated roots. -/
  digest64 : Root → Root → Root
  hashTreeRoot : DepositData → Root
  /-- Key and signature deserialize, and the signature verifies under the deposit domain. -/
  isValidSignature : DepositData → Bool

export DepositCrypto (digest64 hashTreeRoot isValidSignature)

section

variable [Preset] [DepositCrypto]

abbrev DEPOSIT_CONTRACT_TREE_DEPTH : Nat := 32

def verifyMerkleBranch (leaf : Root) (proof : List Root) (depth index : Nat) (root : Root) : Bool :=
  let value := (List.range depth).foldl
    (fun value i =>
      if index / 2 ^ i % 2 ≠ 0 then digest64 (proof.getD i 0) value
      else digest64 value (proof.getD i 0))
    leaf
  value = root

/-! ## States and caches -/

/-- The fields of `BeaconState` that `processDeposit` reads or writes. -/
structure DepositState where
  depositRoot : Root
  eth1DepositIndex : Nat
  validators : List Validator
  balanceList : List Nat
  previousEpochParticipation : List ParticipationFlags
  currentEpochParticipation : List ParticipationFlags
  inactivityScores : List Nat
  deriving DecidableEq

/-- The state with its part of the epoch cache: which array its effective balances are in. -/
structure CachedDepositState extends DepositState where
  effectiveBalanceIncrements : Nat
  deriving DecidableEq

/-- What the states share: the public key cache, and the arrays of effective balances, which
`EpochContext.copy` passes on by reference. -/
structure SharedCaches where
  pubkey2index : TreeMap BLSPubkey Nat
  /-- A JavaScript array, which may have holes. -/
  index2pubkey : List (Option BLSPubkey)
  effectiveBalanceIncrements : List (List Nat)

namespace SharedCaches

def addPubkey (caches : SharedCaches) (index : Nat) (pubkey : BLSPubkey) : SharedCaches :=
  let holes := List.replicate (index + 1 - caches.index2pubkey.length) none
  { caches with
    pubkey2index := caches.pubkey2index.insert pubkey index
    index2pubkey := (caches.index2pubkey ++ holes).set index (some pubkey) }

/-- `EpochContext.effectiveBalanceIncrementsSet`: an array that is too short is replaced by a
longer one, which no other state has. -/
def effectiveBalanceIncrementsSet (caches : SharedCaches) (array index effectiveBalance : Nat) :
    SharedCaches × Nat :=
  let increments := effectiveBalance / EFFECTIVE_BALANCE_INCREMENT % 2 ^ 8
  let old := caches.effectiveBalanceIncrements.getD array []
  if old.length ≤ index then
    let extended := getEffectiveBalanceIncrementsWithLen (index + 1)
    let new := (old ++ extended.drop old.length).set index increments
    ({ caches with effectiveBalanceIncrements := caches.effectiveBalanceIncrements ++ [new] },
      caches.effectiveBalanceIncrements.length)
  else
    ({ caches with
        effectiveBalanceIncrements :=
          caches.effectiveBalanceIncrements.set array (old.set index increments) },
      array)

end SharedCaches

def syncPubkeys (validators : List Validator) (caches : SharedCaches) :
    Except String SharedCaches :=
  if caches.pubkey2index.size ≠ caches.index2pubkey.length then
    .error (s!"Pubkey indices have fallen out of sync: {caches.pubkey2index.size}"
      ++ s!" != {caches.index2pubkey.length}")
  else
    .ok ((validators.zipIdx.drop caches.pubkey2index.size).foldl
      (fun caches (validator, i) =>
        { caches with
          pubkey2index := caches.pubkey2index.insert validator.pubkey i
          index2pubkey := caches.index2pubkey ++ [some validator.pubkey] })
      caches)

/-! ## Processing -/

/-- The validator a deposit adds. -/
def newValidator (data : DepositData) : Validator where
  pubkey := data.pubkey
  withdrawalCredentials := data.withdrawalCredentials
  activationEligibilityEpoch := FAR_FUTURE_EPOCH
  activationEpoch := FAR_FUTURE_EPOCH
  exitEpoch := FAR_FUTURE_EPOCH
  withdrawableEpoch := FAR_FUTURE_EPOCH
  effectiveBalance :=
    min (data.amount - data.amount % EFFECTIVE_BALANCE_INCREMENT) MAX_EFFECTIVE_BALANCE
  slashed := false

/-- Adds the validator with its entries in the other lists. -/
def DepositState.addValidator (state : DepositState) (fork : ForkName) (data : DepositData) :
    DepositState :=
  { state with
    validators := state.validators ++ [newValidator data]
    balanceList := state.balanceList ++ [data.amount]
    previousEpochParticipation := state.previousEpochParticipation ++ [0]
    currentEpochParticipation := state.currentEpochParticipation ++ [0]
    inactivityScores :=
      if fork ≠ .phase0 then state.inactivityScores ++ [0] else state.inactivityScores }

def DepositState.increaseBalance (state : DepositState) (index delta : Nat) : DepositState :=
  { state with balanceList := state.balanceList.modify index (· + delta) }

/-- The proof of a deposit at the state's own deposit index. -/
def DepositState.verifyDeposit (state : DepositState) (deposit : Deposit) : Bool :=
  verifyMerkleBranch (hashTreeRoot deposit.data) deposit.proof (DEPOSIT_CONTRACT_TREE_DEPTH + 1)
    state.eth1DepositIndex state.depositRoot

def invalidProofError : String := "Deposit has invalid merkle proof"

def processDeposit (fork : ForkName) (caches : SharedCaches) (state : CachedDepositState)
    (deposit : Deposit) : Except String (SharedCaches × CachedDepositState) :=
  if !state.verifyDeposit deposit then
    .error invalidProofError
  else
    let state := { state with eth1DepositIndex := state.eth1DepositIndex + 1 }
    let pubkey := deposit.data.pubkey
    let cachedIndex := caches.pubkey2index[pubkey]?
    match cachedIndex.filter fun index => decide (index < state.validators.length) with
    | none =>
      if !isValidSignature deposit.data then
        .ok (caches, state)
      else
        let validatorIndex := state.validators.length
        let (caches, array) := caches.effectiveBalanceIncrementsSet
          state.effectiveBalanceIncrements validatorIndex (newValidator deposit.data).effectiveBalance
        .ok (caches.addPubkey validatorIndex pubkey,
          { toDepositState := state.toDepositState.addValidator fork deposit.data
            effectiveBalanceIncrements := array })
    | some cachedIndex =>
      .ok (caches,
        { state with
          toDepositState := state.toDepositState.increaseBalance cachedIndex deposit.data.amount })

/-! ## The registry's own answer -/

/-- `process_deposit` of the spec: whether the key is known is read off the registry. -/
def Spec.processDeposit (fork : ForkName) (state : DepositState) (deposit : Deposit) :
    Except String DepositState :=
  if !state.verifyDeposit deposit then
    .error invalidProofError
  else
    let state := { state with eth1DepositIndex := state.eth1DepositIndex + 1 }
    match state.validators.findIdx? fun validator => validator.pubkey = deposit.data.pubkey with
    | none =>
      if isValidSignature deposit.data then .ok (state.addValidator fork deposit.data) else .ok state
    | some index => .ok (state.increaseBalance index deposit.data.amount)

/-! ## Blocks and branches -/

/-- What a block does to the deposits; `accepted` says that the rest of it is processed without a
throw. -/
structure DepositBlock where
  fork : ForkName
  deposits : List Deposit
  accepted : Bool

/-- The deposits of a block, in order. What the caches got before a throw stays. -/
def processDeposits (fork : ForkName) (caches : SharedCaches) (state : CachedDepositState) :
    List Deposit → SharedCaches × Except String CachedDepositState
  | [] => (caches, .ok state)
  | deposit :: deposits =>
    match processDeposit fork caches state deposit with
    | .error e => (caches, .error e)
    | .ok (caches, state) => processDeposits fork caches state deposits

/-- The state of a branch after a block: its own if the block is not taken. -/
def DepositBlock.commit {σ : Type} (block : DepositBlock) (state : σ) : Except String σ → σ
  | .error _ => state
  | .ok post => if block.accepted then post else state

/-- The branches, by name, with what they share. -/
structure Branches (ι : Type) where
  caches : SharedCaches
  states : ι → CachedDepositState

namespace Branches

variable {ι : Type} [DecidableEq ι]

/-- `branch` processes a block on top of its state. -/
def step (branches : Branches ι) (next : ι × DepositBlock) : Branches ι :=
  let (branch, block) := next
  let state := branches.states branch
  let (caches, post) := processDeposits block.fork branches.caches state block.deposits
  { caches, states := Function.update branches.states branch (block.commit state post) }

def run (branches : Branches ι) (blocks : List (ι × DepositBlock)) : Branches ι :=
  blocks.foldl step branches

end Branches

namespace Spec

def processDeposits (fork : ForkName) (state : DepositState) (deposits : List Deposit) :
    Except String DepositState :=
  deposits.foldlM (processDeposit fork) state

def processBlock (state : DepositState) (block : DepositBlock) : DepositState :=
  block.commit state (processDeposits block.fork state block.deposits)

end Spec

/-! ## One order of validators -/

/-- The registry lists the validators in the order. -/
def InOrder (order : Nat → BLSPubkey) (state : DepositState) : Prop :=
  ∀ (i : Nat) (validator : Validator), state.validators[i]? = some validator →
    validator.pubkey = order i

/-- The map holds pairs of the order, whichever branch they are from. -/
def Coherent (order : Nat → BLSPubkey) (caches : SharedCaches) : Prop :=
  ∀ (pubkey : BLSPubkey) (i : Nat), caches.pubkey2index[pubkey]? = some i → order i = pubkey

/-- The map knows every validator of the registry. -/
def Covers (caches : SharedCaches) (state : DepositState) : Prop :=
  ∀ (i : Nat) (validator : Validator), state.validators[i]? = some validator →
    caches.pubkey2index[validator.pubkey]? = some i

variable {order : Nat → BLSPubkey} {caches caches' : SharedCaches}
  {state state' : CachedDepositState} {fork : ForkName} {deposit : Deposit}

omit [Preset] [DepositCrypto] in
theorem Covers.inOrder {state : DepositState} (h : Covers caches state)
    (hcoherent : Coherent order caches) : InOrder order state := fun i validator hv =>
  (hcoherent _ i (h i validator hv)).symm

/-- The answer of the map, if the registry is long enough for it. -/
def SharedCaches.lookup (caches : SharedCaches) (state : DepositState) (pubkey : BLSPubkey) :
    Option Nat :=
  caches.pubkey2index[pubkey]?.filter fun i => decide (i < state.validators.length)

/-- `deposits must be processed in order`. -/
def DepositState.advance (state : DepositState) : DepositState :=
  { state with eth1DepositIndex := state.eth1DepositIndex + 1 }

omit [Preset] [DepositCrypto] in
/-- The map after a validator was added on some branch still knows the other branches. -/
theorem Covers.insert {t s : DepositState} (ht : Covers caches t) (hs : Covers caches s)
    (hcoherent : Coherent order caches) {pubkey : BLSPubkey}
    (hnew : s.validators.findIdx? (fun validator => validator.pubkey = pubkey) = none)
    (horder : order s.validators.length = pubkey)
    (hinsert : caches'.pubkey2index = caches.pubkey2index.insert pubkey s.validators.length) :
    Covers caches' t := by
  intro j validator hv
  rw [hinsert, TreeMap.getElem?_insert]
  by_cases hpubkey : pubkey = validator.pubkey
  · rw [if_pos (by rw [hpubkey]; exact Std.ReflOrd.compare_self)]
    -- the branches agree up to the shorter registry, and the key is not in the one it is added to
    have hj := ht j validator hv
    have horderj : order j = pubkey := (hcoherent _ j hj).trans hpubkey.symm
    rcases Nat.lt_trichotomy j s.validators.length with hlt | heq | hgt
    · have hsv := List.getElem?_eq_getElem hlt
      have hmem := List.findIdx?_eq_none_iff.mp hnew _ (List.getElem_mem hlt)
      have hsj := (hs.inOrder hcoherent j _ hsv).trans horderj
      simp [hsj] at hmem
    · rw [heq]
    · have hlt := Nat.lt_trans hgt (List.getElem?_eq_some_iff.mp hv).1
      have htv := List.getElem?_eq_getElem hlt
      have hn := ht _ _ htv
      rw [(ht.inOrder hcoherent _ _ htv).trans horder, hpubkey, hj] at hn
      exact hn.symm
  · rw [if_neg fun h => hpubkey (Std.LawfulEqOrd.eq_of_compare h)]
    exact ht j validator hv

variable {ι : Type} [DecidableEq ι]

omit [Preset] [DepositCrypto] in
theorem getElem?_foldl_sync (validators : List Validator) (arrays : List (List Nat))
    (hnodup : (validators.map (·.pubkey)).Nodup) (pubkey : BLSPubkey) :
    (validators.zipIdx.foldl (fun (caches : SharedCaches) (validator, i) =>
      { caches with
        pubkey2index := caches.pubkey2index.insert validator.pubkey i
        index2pubkey := caches.index2pubkey ++ [some validator.pubkey] })
      ⟨∅, [], arrays⟩).pubkey2index[pubkey]?
      = validators.findIdx? fun validator => validator.pubkey = pubkey := by
  induction validators using List.reverseRecOn with
  | nil => simp
  | append_singleton validators validator ih =>
    rw [List.map_append, List.nodup_append] at hnodup
    obtain ⟨hinit, -, hdisjoint⟩ := hnodup
    rw [List.zipIdx_append, List.foldl_append, List.findIdx?_append, ← ih hinit]
    show (TreeMap.insert _ validator.pubkey (0 + validators.length))[pubkey]? = _
    rw [TreeMap.getElem?_insert, ih hinit]
    by_cases hp : validator.pubkey = pubkey
    · rw [if_pos (by rw [hp]; exact Std.ReflOrd.compare_self)]
      have hnone : validators.findIdx? (fun validator => validator.pubkey = pubkey) = none := by
        rw [List.findIdx?_eq_none_iff]
        intro other hother
        have hne := hdisjoint other.pubkey (List.mem_map_of_mem hother) validator.pubkey
          (List.mem_singleton_self _)
        simpa [← hp] using hne
      rw [hnone]
      simp [List.findIdx?_cons, hp]
    · rw [if_neg fun h => hp (Std.LawfulEqOrd.eq_of_compare h)]
      simp [List.findIdx?_cons, hp]

omit [Preset] [DepositCrypto] in
theorem syncPubkeys_covers {validators : List Validator} {arrays : List (List Nat)}
    (hnodup : (validators.map (·.pubkey)).Nodup)
    (h : syncPubkeys validators ⟨∅, [], arrays⟩ = .ok caches) :
    Coherent (fun i => (validators.map (·.pubkey)).getD i 0) caches ∧
      ∀ state : DepositState, state.validators = validators → Covers caches state := by
  have hmap : ∀ pubkey, caches.pubkey2index[pubkey]?
      = validators.findIdx? fun validator => validator.pubkey = pubkey := by
    intro pubkey
    unfold syncPubkeys at h
    rw [if_neg (by simp)] at h
    rw [← Except.ok.inj h]
    exact getElem?_foldl_sync validators arrays hnodup pubkey
  refine ⟨fun pubkey i hi => ?_, fun state hstate i validator hv => ?_⟩
  · rw [hmap] at hi
    obtain ⟨hlt, hpubkey, -⟩ := List.findIdx?_eq_some_iff_getElem.mp hi
    show (validators.map (·.pubkey)).getD i 0 = pubkey
    rw [List.getD_eq_getElem?_getD, List.getElem?_map, List.getElem?_eq_getElem hlt]
    simpa using hpubkey
  · rw [hstate] at hv
    obtain ⟨hlt, hv⟩ := List.getElem?_eq_some_iff.mp hv
    rw [hmap, List.findIdx?_eq_some_iff_getElem]
    refine ⟨hlt, by simp [hv], fun j hj => ?_⟩
    have hne := List.pairwise_iff_getElem.mp hnodup j i (by simpa using hj.trans hlt)
      (by simpa using hlt) hj
    simpa [← hv] using hne

end

/-! ## Two branches -/

local instance depositPreset : Preset := minimal

local instance depositCrypto : DepositCrypto where
  digest64 _ _ := 0
  hashTreeRoot _ := 0
  isValidSignature data := data.signature ≠ 0

end Lodestar.StateTransition
