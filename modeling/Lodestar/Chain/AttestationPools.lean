import Lodestar.Chain.AttestationGroup

/-!
# The pools of attestations

`chain/opPools/attestationPool.ts`, where the attestations of single validators
are aggregated, and the pool of `chain/opPools/aggregatedAttestationPool.ts`,
which keeps a group of aggregates for each attestation data.
-/

namespace Lodestar.Chain

open Lodestar.Base Lodestar.StateTransition

variable {B P : Type}

/-- `bits[i] = true` of an array, which grows when it is too short. -/
def setBit (bits : List Bool) (i : Nat) : List Bool :=
  if i < bits.length then bits.set i true
  else bits ++ List.replicate (i - bits.length) false ++ [true]

/-! ## Attestations of single validators -/

structure AggregateFast (P : Type) where
  data : AttestationData
  aggregationBits : List Bool
  signature : P

/-- The aggregates of a slot, by the root of their data. -/
abbrev AttestationPool (P : Type) := SlotPool (OrderedMap Root (AggregateFast P))

namespace AttestationPool

abbrev SLOTS_RETAINED : Nat := 3

abbrev MAX_ATTESTATIONS_PER_SLOT : Nat := 16384

def bitArrayGetSingleTrueBit (bits : List Bool) : Option Nat := bits.findIdx? id

/-- Changes the aggregate. Its bit is set before the signature is read. -/
def aggregateAttestationInto (bls : BlsSignature B P) (attestation : AggregateAttestation B) :
    EStateM String (AggregateFast P) InsertOutcome := do
  match bitArrayGetSingleTrueBit attestation.aggregationBits with
  | none => throw "Invalid attestation not exactly one bit set"
  | some bitIndex =>
    if (← get).aggregationBits[bitIndex]? = some true then return .alreadyKnown
    modify fun aggregate =>
      { aggregate with aggregationBits := setBit aggregate.aggregationBits bitIndex }
    let signature ← MonadExcept.ofExcept (bls.fromBytes attestation.signature)
    let aggregated ← MonadExcept.ofExcept (bls.aggregate [(← get).signature, signature])
    modify fun aggregate => { aggregate with signature := aggregated }
    return .aggregated

def attestationToAggregate (bls : BlsSignature B P) (attestation : AggregateAttestation B) :
    Except String (AggregateFast P) := do
  return {
    data := attestation.data
    aggregationBits := attestation.aggregationBits
    signature := ← bls.fromBytes attestation.signature }

/-- What `add` does to the aggregates of the slot. -/
def addToSlot (bls : BlsSignature B P) (hashTreeRoot : AttestationData → Root)
    (attestation : AggregateAttestation B) :
    EStateM PoolError (OrderedMap Root (AggregateFast P)) InsertOutcome := fun aggregateByRoot =>
  if MAX_ATTESTATIONS_PER_SLOT ≤ aggregateByRoot.size then .error .reachedMaxPerSlot aggregateByRoot
  else
    let dataRoot := hashTreeRoot attestation.data
    match aggregateByRoot.get dataRoot with
    | some aggregate =>
      match aggregateAttestationInto bls attestation aggregate with
      | .ok insertOutcome aggregate => .ok insertOutcome (aggregateByRoot.set dataRoot aggregate)
      | .error e aggregate => .error (.error e) (aggregateByRoot.set dataRoot aggregate)
    | none =>
      match attestationToAggregate bls attestation with
      | .ok aggregate => .ok .newData (aggregateByRoot.set dataRoot aggregate)
      | .error e => .error (.error e) aggregateByRoot

def add (bls : BlsSignature B P) (hashTreeRoot : AttestationData → Root)
    (attestation : AggregateAttestation B) : EStateM PoolError (AttestationPool P) InsertOutcome :=
  fun this =>
    if attestation.data.slot < this.lowestPermissibleSlot then .ok .old this
    else this.update attestation.data.slot .empty (addToSlot bls hashTreeRoot attestation)

def prune (this : AttestationPool P) (clockSlot : Int) : AttestationPool P :=
  SlotPool.prune SLOTS_RETAINED this clockSlot

def fastToAttestation (bls : BlsSignature B P) (aggFast : AggregateFast P) :
    AggregateAttestation B :=
  ⟨aggFast.aggregationBits, aggFast.data, bls.toBytes aggFast.signature⟩

/-- `getAll` of a slot, or of all slots. -/
def getAll (bls : BlsSignature B P) (this : AttestationPool P) (bySlot : Option Nat) :
    List (AggregateAttestation B) :=
  let aggregateByRoots := match bySlot with
    | none => this.bySlot.values
    | some slot => (this.bySlot.get slot).toList
  aggregateByRoots.flatMap fun aggregateByRoot =>
    aggregateByRoot.values.map (fastToAttestation bls)

end AttestationPool

/-! ## Aggregates -/

/-- The groups of a slot, by the root of their data. -/
abbrev AggregatedAttestationPool (B : Type) :=
  SlotPool (OrderedMap Root (MatchingDataAttestationGroup B))

namespace AggregatedAttestationPool

/-- What `add` does to the groups of the slot. -/
def addToSlot (bls : BlsSignature B P) (hashTreeRoot : AttestationData → Root)
    (attestation : AggregateAttestation B) (attestingIndices committee : List Nat) :
    EStateM PoolError (OrderedMap Root (MatchingDataAttestationGroup B)) InsertOutcome :=
  fun attestationGroupByDataHash =>
    let dataRoot := hashTreeRoot attestation.data
    let attestationGroup := (attestationGroupByDataHash.get dataRoot).getD
      (.new committee attestation.data)
    match attestationGroup.add bls
      { attestation, attestingIndices := attestingIndices.toFinset } with
    | .ok insertOutcome group => .ok insertOutcome (attestationGroupByDataHash.set dataRoot group)
    | .error e group => .error (.error e) (attestationGroupByDataHash.set dataRoot group)

def add (bls : BlsSignature B P) (hashTreeRoot : AttestationData → Root)
    (attestation : AggregateAttestation B) (attestingIndices committee : List Nat) :
    EStateM PoolError (AggregatedAttestationPool B) InsertOutcome :=
  fun this =>
    if attestation.data.slot < this.lowestPermissibleSlot then .ok .old this
    else this.update attestation.data.slot .empty
      (addToSlot bls hashTreeRoot attestation attestingIndices committee)

/-- Retains as many slots as an epoch has. -/
def prune [Preset] (this : AggregatedAttestationPool B) (clockSlot : Int) :
    AggregatedAttestationPool B :=
  SlotPool.prune SLOTS_PER_EPOCH this clockSlot

end AggregatedAttestationPool

end Lodestar.Chain
