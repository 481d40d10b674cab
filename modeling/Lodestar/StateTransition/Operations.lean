import Lodestar.StateTransition.ProcessAttestation

/-!
# Slashings and exits of a block

`allForks/block`: proposer slashings, attester slashings and voluntary exits,
with `slashValidatorAllForks`. Each of them throws unless it is valid in the
state it is processed on.
-/

namespace Lodestar.StateTransition

open Lodestar.Base

variable [Preset]

/-! ## Operations -/

structure SignedBeaconBlockHeader where
  message : BeaconBlockHeader
  signature : BLSSignature
  deriving DecidableEq

structure ProposerSlashing where
  signedHeader1 : SignedBeaconBlockHeader
  signedHeader2 : SignedBeaconBlockHeader
  deriving DecidableEq

structure IndexedAttestation where
  attestingIndices : List Nat
  data : AttestationData
  signature : BLSSignature
  deriving DecidableEq

structure AttesterSlashing where
  attestation1 : IndexedAttestation
  attestation2 : IndexedAttestation
  deriving DecidableEq

structure VoluntaryExit where
  epoch : Nat
  validatorIndex : Nat
  deriving DecidableEq

structure SignedVoluntaryExit where
  message : VoluntaryExit
  signature : BLSSignature
  deriving DecidableEq

/-- `CachedBeaconStateAllForks` with the keys of its `epochCtx`. -/
structure KeyedBeaconState extends CachedBeaconStateAllForks (List Nat) where
  index2pubkey : List BLSPubkey

/-! ## Signature sets -/

def DOMAIN_BEACON_PROPOSER : BitVec 32 := 0x00000000
def DOMAIN_BEACON_ATTESTER : BitVec 32 := 0x01000000
def DOMAIN_VOLUNTARY_EXIT : BitVec 32 := 0x04000000

/-- A key that `index2pubkey` does not have is `none`. -/
inductive ISignatureSet where
  | single (pubkey : Option BLSPubkey) (signingRoot : Root) (signature : BLSSignature)
  | aggregate (pubkeys : List (Option BLSPubkey)) (signingRoot : Root) (signature : BLSSignature)

/-- Hashing and the check of signatures. `computeDomain` is over the genesis validators root of
the config; `verifySignatureSet` throws for bytes that are no signature. -/
structure Signatures where
  computeDomain : BitVec 32 → Version → Root
  headerSigningRoot : BeaconBlockHeader → Root → Root
  attestationSigningRoot : AttestationData → Root → Root
  exitSigningRoot : VoluntaryExit → Root → Root
  verifySignatureSet : ISignatureSet → Except String Bool

namespace Signatures

variable (bls : Signatures) (state : KeyedBeaconState)

def getDomain (config : ChainConfig) (domainType : BitVec 32) (slot : Nat) : Root :=
  bls.computeDomain domainType (getForkVersion config slot)

def getProposerSlashingSignatureSets (proposerSlashing : ProposerSlashing) : List ISignatureSet :=
  let pubkey := state.index2pubkey[proposerSlashing.signedHeader1.message.proposerIndex]?
  [proposerSlashing.signedHeader1, proposerSlashing.signedHeader2].map fun signedHeader =>
    let domain := bls.getDomain state.config DOMAIN_BEACON_PROPOSER signedHeader.message.slot
    .single pubkey (bls.headerSigningRoot signedHeader.message domain) signedHeader.signature

def getIndexedAttestationSignatureSet (indexedAttestation : IndexedAttestation)
    (indices : List Nat) : ISignatureSet :=
  let slot := computeStartSlotAtEpoch indexedAttestation.data.target.epoch
  let domain := bls.getDomain state.config DOMAIN_BEACON_ATTESTER slot
  .aggregate (indices.map fun i => state.index2pubkey[i]?)
    (bls.attestationSigningRoot indexedAttestation.data domain) indexedAttestation.signature

def getVoluntaryExitSignatureSet (signedVoluntaryExit : SignedVoluntaryExit) : ISignatureSet :=
  let slot := computeStartSlotAtEpoch signedVoluntaryExit.message.epoch
  let domain := bls.getDomain state.config DOMAIN_VOLUNTARY_EXIT slot
  .single state.index2pubkey[signedVoluntaryExit.message.validatorIndex]?
    (bls.exitSigningRoot signedVoluntaryExit.message domain) signedVoluntaryExit.signature

end Signatures

/-! ## Slashing -/

def isSlashableValidator (validator : Validator) (epoch : Nat) : Bool :=
  !validator.slashed && decide (validator.activationEpoch ≤ epoch)
    && decide (epoch < validator.withdrawableEpoch)

/-- A read of `state.validators[index]` that goes past the registry. -/
def undefinedValidatorError : String := "Cannot read property of undefined"

def getValidator (state : KeyedBeaconState) (index : Nat) : Except String Validator :=
  match state.validators[index]? with
  | none => .error undefinedValidatorError
  | some validator => .ok validator

def decreaseBalance (balanceList : List Nat) (index delta : Nat) : List Nat :=
  balanceList.modify index (· - delta)

def minSlashingPenaltyQuotient : ForkName → Nat
  | .phase0 => MIN_SLASHING_PENALTY_QUOTIENT
  | .altair => MIN_SLASHING_PENALTY_QUOTIENT_ALTAIR
  | .bellatrix => MIN_SLASHING_PENALTY_QUOTIENT_BELLATRIX

/-- What `slashValidatorAllForks` writes to the validator, its exit initiated. -/
def slashedValidator (validator : Validator) (epoch : Nat) : Validator :=
  { validator with
    slashed := true
    withdrawableEpoch :=
      max validator.withdrawableEpoch ((epoch + EPOCHS_PER_SLASHINGS_VECTOR : Nat)) }

def slashValidatorAllForks (fork : ForkName) (state : KeyedBeaconState) (slashedIndex : Nat)
    (whistleblowerIndex : Option Nat) : Except String KeyedBeaconState := do
  let epoch := state.epochCtx.currentShuffling.epoch
  let validator ← getValidator state slashedIndex
  let (epochCtx, validator) := initiateValidatorExit state.config state.epochCtx validator
  let validator := slashedValidator validator epoch
  let effectiveBalance := validator.effectiveBalance
  let balanceList := decreaseBalance state.balanceList slashedIndex
    (effectiveBalance / minSlashingPenaltyQuotient fork)
  let whistleblowerReward := effectiveBalance / WHISTLEBLOWER_REWARD_QUOTIENT
  let proposerReward :=
    if fork = .phase0 then whistleblowerReward / PROPOSER_REWARD_QUOTIENT
    else whistleblowerReward * PROPOSER_WEIGHT / WEIGHT_DENOMINATOR
  let proposerIndex ← getBeaconProposer state.toCachedBeaconStateAllForks state.slot
  return { state with
    validators := state.validators.set slashedIndex validator
    epochCtx
    slashings := state.slashings.modify (epoch % EPOCHS_PER_SLASHINGS_VECTOR) (· + effectiveBalance)
    balanceList :=
      match whistleblowerIndex with
      | none => increaseBalance balanceList proposerIndex whistleblowerReward
      | some whistleblowerIndex =>
        increaseBalance (increaseBalance balanceList proposerIndex proposerReward)
          whistleblowerIndex (whistleblowerReward - proposerReward) }

/-! ## Proposer slashings -/

/-- The loop over the signature sets of a proposer slashing. -/
def verifyHeaderSignatures (bls : Signatures) : List (ISignatureSet × Nat) → Except String Unit
  | [] => .ok ()
  | (signatureSet, i) :: signatureSets => do
    let valid ← bls.verifySignatureSet signatureSet
    if valid = false then
      throw s!"ProposerSlashing header{i + 1} signature invalid"
    verifyHeaderSignatures bls signatureSets

/-- The comparisons of the two headers. -/
def assertSlashableHeaders (header1 header2 : BeaconBlockHeader) : Except String Unit :=
  if header1.slot ≠ header2.slot then
    .error s!"ProposerSlashing slots do not match: slot1={header1.slot} slot2={header2.slot}"
  else if header1.proposerIndex ≠ header2.proposerIndex then
    .error ("ProposerSlashing proposer indices do not match: "
      ++ s!"proposerIndex1={header1.proposerIndex} proposerIndex2={header2.proposerIndex}")
  else if header1 = header2 then
    .error "ProposerSlashing headers are equal"
  else .ok ()

def assertValidProposerSlashing (bls : Signatures) (state : KeyedBeaconState)
    (proposerSlashing : ProposerSlashing) (verifySignatures : Bool) : Except String Unit := do
  let header1 := proposerSlashing.signedHeader1.message
  let header2 := proposerSlashing.signedHeader2.message
  assertSlashableHeaders header1 header2
  let proposer ← getValidator state header1.proposerIndex
  if isSlashableValidator proposer state.epochCtx.currentShuffling.epoch = false then
    throw "ProposerSlashing proposer is not slashable"
  if verifySignatures then
    verifyHeaderSignatures bls (bls.getProposerSlashingSignatureSets state proposerSlashing).zipIdx

def processProposerSlashing (bls : Signatures) (verifySignatures : Bool) (fork : ForkName)
    (state : KeyedBeaconState) (proposerSlashing : ProposerSlashing) :
    Except String KeyedBeaconState := do
  assertValidProposerSlashing bls state proposerSlashing verifySignatures
  slashValidatorAllForks fork state proposerSlashing.signedHeader1.message.proposerIndex none

/-! ## Attester slashings -/

def isSlashableAttestationData (data1 data2 : AttestationData) : Bool :=
  (decide (data1 ≠ data2) && decide (data1.target.epoch = data2.target.epoch))
    || (decide (data1.source.epoch < data2.source.epoch)
      && decide (data2.target.epoch < data1.target.epoch))

/-- The indices of the second attestation that are in the first. -/
def getAttesterSlashableIndices (attesterSlashing : AttesterSlashing) : List Nat :=
  attesterSlashing.attestation2.attestingIndices.filter
    (· ∈ attesterSlashing.attestation1.attestingIndices)

def isValidIndexedAttestation (bls : Signatures) (state : KeyedBeaconState)
    (indexedAttestation : IndexedAttestation) (verifySignature : Bool) : Except String Bool :=
  let indices := indexedAttestation.attestingIndices
  if ¬ (0 < indices.length ∧ indices.length ≤ MAX_VALIDATORS_PER_COMMITTEE) then .ok false
  else if ¬ indices.IsChain (· < ·) then .ok false
  else if state.validators.length ≤ indices.getLastD 0 then .ok false
  else if verifySignature = false then .ok true
  else bls.verifySignatureSet
    (bls.getIndexedAttestationSignatureSet state indexedAttestation indices)

def assertValidAttesterSlashing (bls : Signatures) (state : KeyedBeaconState)
    (attesterSlashing : AttesterSlashing) (verifySignatures : Bool) : Except String Unit := do
  let attestation1 := attesterSlashing.attestation1
  let attestation2 := attesterSlashing.attestation2
  if isSlashableAttestationData attestation1.data attestation2.data = false then
    throw "AttesterSlashing is not slashable"
  let valid1 ← isValidIndexedAttestation bls state attestation1 verifySignatures
  if valid1 = false then
    throw "AttesterSlashing attestation1 is not a valid IndexedAttestation"
  let valid2 ← isValidIndexedAttestation bls state attestation2 verifySignatures
  if valid2 = false then
    throw "AttesterSlashing attestation2 is not a valid IndexedAttestation"

/-- The loop over the sorted indices: the state and `slashedAny`. -/
def slashIndices (fork : ForkName) :
    List Nat → KeyedBeaconState × Bool → Except String (KeyedBeaconState × Bool)
  | [], result => .ok result
  | index :: indices, (state, slashedAny) => do
    let validator ← getValidator state index
    if isSlashableValidator validator state.epochCtx.currentShuffling.epoch then
      let state ← slashValidatorAllForks fork state index none
      slashIndices fork indices (state, true)
    else
      slashIndices fork indices (state, slashedAny)

def processAttesterSlashing (bls : Signatures) (verifySignatures : Bool) (fork : ForkName)
    (state : KeyedBeaconState) (attesterSlashing : AttesterSlashing) :
    Except String KeyedBeaconState := do
  assertValidAttesterSlashing bls state attesterSlashing verifySignatures
  let intersectingIndices := getAttesterSlashableIndices attesterSlashing
  let (state, slashedAny) ← slashIndices fork intersectingIndices.mergeSort (state, false)
  if slashedAny = false then
    throw "AttesterSlashing did not result in any slashings"
  return state

/-! ## Voluntary exits -/

def isValidVoluntaryExit (bls : Signatures) (state : KeyedBeaconState)
    (signedVoluntaryExit : SignedVoluntaryExit) (verifySignature : Bool) : Except String Bool := do
  let voluntaryExit := signedVoluntaryExit.message
  let validator ← getValidator state voluntaryExit.validatorIndex
  let currentEpoch := state.epochCtx.currentShuffling.epoch
  if isActiveValidator validator currentEpoch
      && decide (validator.exitEpoch = FAR_FUTURE_EPOCH)
      && decide (voluntaryExit.epoch ≤ currentEpoch)
      && decide (validator.activationEpoch + state.config.SHARD_COMMITTEE_PERIOD
        ≤ (currentEpoch : WithTop Nat)) then
    if verifySignature then
      bls.verifySignatureSet (bls.getVoluntaryExitSignatureSet state signedVoluntaryExit)
    else return true
  else return false

def processVoluntaryExitAllForks (bls : Signatures) (verifySignature : Bool)
    (state : KeyedBeaconState) (signedVoluntaryExit : SignedVoluntaryExit) :
    Except String KeyedBeaconState := do
  let valid ← isValidVoluntaryExit bls state signedVoluntaryExit verifySignature
  if valid = false then
    throw "Invalid voluntary exit"
  let validator ← getValidator state signedVoluntaryExit.message.validatorIndex
  let (epochCtx, validator) := initiateValidatorExit state.config state.epochCtx validator
  return { state with
    validators := state.validators.set signedVoluntaryExit.message.validatorIndex validator
    epochCtx }

/-! ## The operations of a block -/

/-- The slashings and exits of `processOperations`, in its order. -/
def processSlashingsAndExits (bls : Signatures) (verifySignatures : Bool) (fork : ForkName)
    (state : KeyedBeaconState) (attesterSlashings : List AttesterSlashing)
    (proposerSlashings : List ProposerSlashing) (voluntaryExits : List SignedVoluntaryExit) :
    Except String KeyedBeaconState := do
  let state ← proposerSlashings.foldlM (processProposerSlashing bls verifySignatures fork) state
  let state ← attesterSlashings.foldlM (processAttesterSlashing bls verifySignatures fork) state
  voluntaryExits.foldlM (processVoluntaryExitAllForks bls verifySignatures) state

end Lodestar.StateTransition
