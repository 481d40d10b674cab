import Lodestar.Base.PruneLoop
import Lodestar.StateTransition.Operations

/-!
# The pool of operations

`chain/opPools/opPool.ts`: slashings and exits wait in maps, in the order they
came in, and `getSlashingsAndExits` chooses those of a block.
-/

namespace Lodestar.Chain

open Lodestar.Base Lodestar.StateTransition

structure AttesterSlashingCached where
  attesterSlashing : AttesterSlashing
  intersectingIndices : List Nat
  intersectingIndices_eq : intersectingIndices = getAttesterSlashableIndices attesterSlashing

/-- The maps of `OpPool`, with the key each entry is under. -/
structure OpPool where
  attesterSlashings : OrderedMap RootHex AttesterSlashingCached
  proposerSlashings : OrderedMap Nat ProposerSlashing
  voluntaryExits : OrderedMap Nat SignedVoluntaryExit
  attesterSlashingIndexes : Finset Nat
  proposerSlashings_key : ∀ e ∈ proposerSlashings.entries,
    e.1 = e.2.signedHeader1.message.proposerIndex
  voluntaryExits_key : ∀ e ∈ voluntaryExits.entries, e.1 = e.2.message.validatorIndex

namespace OpPool

variable (this : OpPool)

def empty : OpPool where
  attesterSlashings := .empty
  proposerSlashings := .empty
  voluntaryExits := .empty
  attesterSlashingIndexes := ∅
  proposerSlashings_key := by simp [OrderedMap.empty]
  voluntaryExits_key := by simp [OrderedMap.empty]

/-! ## Seen operations -/

def hasSeenAttesterSlashing (intersectingIndices : List Nat) : Bool :=
  intersectingIndices.all (· ∈ this.attesterSlashingIndexes)

def hasSeenVoluntaryExit (validatorIndex : Nat) : Bool :=
  this.voluntaryExits.has validatorIndex

def hasSeenProposerSlashing (validatorIndex : Nat) : Bool :=
  this.proposerSlashings.has validatorIndex

/-! ## Insertion -/

/-- `rootHash` is the root of the slashing. -/
def insertAttesterSlashing (attesterSlashing : AttesterSlashing) (rootHash : RootHex) : OpPool :=
  { this with
    attesterSlashings := this.attesterSlashings.set rootHash
      { attesterSlashing
        intersectingIndices := getAttesterSlashableIndices attesterSlashing
        intersectingIndices_eq := rfl }
    attesterSlashingIndexes :=
      this.attesterSlashingIndexes ∪ (getAttesterSlashableIndices attesterSlashing).toFinset }

def insertProposerSlashing (proposerSlashing : ProposerSlashing) : OpPool :=
  { this with
    proposerSlashings := this.proposerSlashings.set
      proposerSlashing.signedHeader1.message.proposerIndex proposerSlashing
    proposerSlashings_key := by
      intro e he
      rcases OrderedMap.mem_entries_set he with rfl | he
      · rfl
      · exact this.proposerSlashings_key e he }

def insertVoluntaryExit (voluntaryExit : SignedVoluntaryExit) : OpPool :=
  { this with
    voluntaryExits := this.voluntaryExits.set voluntaryExit.message.validatorIndex voluntaryExit
    voluntaryExits_key := by
      intro e he
      rcases OrderedMap.mem_entries_set he with rfl | he
      · rfl
      · exact this.voluntaryExits_key e he }

/-! ## The operations of a block -/

section

variable [Preset]

def isSlashableAtEpoch (validator : Validator) (epoch : Nat) : Bool :=
  !validator.slashed && decide (validator.activationEpoch ≤ epoch)
    && decide (epoch < validator.withdrawableEpoch)

/-- A loop that pushes what `accept` accepts, and breaks once there are `max`. -/
def pushUntil {α : Type} (accept : α → Except String Bool) (max : Nat) :
    List α → List α → Except String (List α)
  | [], chosen => .ok chosen
  | a :: rest, chosen => do
    let accepted ← accept a
    if accepted then
      if max ≤ (chosen ++ [a]).length then return chosen ++ [a]
      else pushUntil accept max rest (chosen ++ [a])
    else pushUntil accept max rest chosen

/-- The loop over the intersecting indices of a slashing: `slashableIndices`, or `none` when an
index is to be slashed already. -/
def getSlashableIndices (state : KeyedBeaconState) (stateEpoch : Nat)
    (toBeSlashedIndices : Finset Nat) : List Nat → Finset Nat → Except String (Option (Finset Nat))
  | [], slashableIndices => .ok (some slashableIndices)
  | index :: indices, slashableIndices =>
    if index ∈ toBeSlashedIndices then .ok none
    else do
      let validator ← getValidator state index
      getSlashableIndices state stateEpoch toBeSlashedIndices indices
        (if isSlashableAtEpoch validator stateEpoch then insert index slashableIndices
        else slashableIndices)

/-- The loop over the attester slashings: those chosen, and `toBeSlashedIndices`. -/
def chooseAttesterSlashings (state : KeyedBeaconState) (stateEpoch : Nat) :
    List AttesterSlashingCached → List AttesterSlashing × Finset Nat →
      Except String (List AttesterSlashing × Finset Nat)
  | [], chosen => .ok chosen
  | cached :: rest, (attesterSlashings, toBeSlashedIndices) => do
    let slashableIndices ←
      getSlashableIndices state stateEpoch toBeSlashedIndices cached.intersectingIndices ∅
    match slashableIndices with
    | none => chooseAttesterSlashings state stateEpoch rest (attesterSlashings, toBeSlashedIndices)
    | some slashableIndices =>
      if 0 < slashableIndices.card then
        chooseAttesterSlashings state stateEpoch rest
          (attesterSlashings ++ [cached.attesterSlashing], toBeSlashedIndices ∪ slashableIndices)
      else
        chooseAttesterSlashings state stateEpoch rest (attesterSlashings, toBeSlashedIndices)

/-- Attester slashings, proposer slashings and exits for a block. -/
def getSlashingsAndExits (bls : Signatures) (state : KeyedBeaconState) :
    Except String (List AttesterSlashing × List ProposerSlashing × List SignedVoluntaryExit) := do
  let stateEpoch := computeEpochAtSlot state.slot
  let proposerSlashings ← pushUntil (fun proposerSlashing => do
      let validator ← getValidator state proposerSlashing.signedHeader1.message.proposerIndex
      return isSlashableAtEpoch validator stateEpoch)
    MAX_PROPOSER_SLASHINGS this.proposerSlashings.values []
  let toBeSlashedIndices :=
    (proposerSlashings.map (·.signedHeader1.message.proposerIndex)).toFinset
  let (attesterSlashings, toBeSlashedIndices) ←
    chooseAttesterSlashings state stateEpoch this.attesterSlashings.values ([], toBeSlashedIndices)
  let voluntaryExits ← pushUntil (fun voluntaryExit =>
      if voluntaryExit.message.validatorIndex ∈ toBeSlashedIndices then .ok false
      else isValidVoluntaryExit bls state voluntaryExit false)
    MAX_VOLUNTARY_EXITS this.voluntaryExits.values []
  return (attesterSlashings, proposerSlashings, voluntaryExits)

/-! ## Pruning -/

def deleteAttesterSlashing (key : RootHex) (this : OpPool) : OpPool :=
  { this with attesterSlashings := this.attesterSlashings.delete key }

def deleteProposerSlashing (key : Nat) (this : OpPool) : OpPool :=
  { this with
    proposerSlashings := this.proposerSlashings.delete key
    proposerSlashings_key := fun e he =>
      this.proposerSlashings_key e (List.mem_filter.mp he).1 }

def deleteVoluntaryExit (key : Nat) (this : OpPool) : OpPool :=
  { this with
    voluntaryExits := this.voluntaryExits.delete key
    voluntaryExits_key := fun e he => this.voluntaryExits_key e (List.mem_filter.mp he).1 }

variable (headState : KeyedBeaconState)

/-- The loop over the intersecting indices of a slashing: whether the validators have all exited
prior to the finalized epoch. -/
def haveExited : List Nat → Except String Bool
  | [] => .ok true
  | index :: indices => do
    let validator ← getValidator headState index
    if (headState.finalizedCheckpoint.epoch : WithTop Nat) < validator.exitEpoch then return false
    else haveExited indices

/-- Prune attester slashings for all slashed or withdrawn validators. -/
def pruneAttesterSlashings : EStateM String OpPool Unit := do
  let this ← get
  pruneEntries (fun e => haveExited headState e.2.intersectingIndices) deleteAttesterSlashing
    this.attesterSlashings.entries

/-- The condition of `pruneProposerSlashings`. -/
def hasExited (index : Nat) : Except String Bool := do
  let validator ← getValidator headState index
  return decide (validator.exitEpoch ≤ (headState.finalizedCheckpoint.epoch : WithTop Nat))

/-- Prune proposer slashings for validators which are exited in the finalized epoch. -/
def pruneProposerSlashings : EStateM String OpPool Unit := do
  let this ← get
  pruneEntries (fun e => hasExited headState e.2.signedHeader1.message.proposerIndex)
    deleteProposerSlashing this.proposerSlashings.entries

/-- Prune if validator has already exited at or before the finalized checkpoint of the head. -/
def pruneVoluntaryExits : EStateM String OpPool Unit := do
  let this ← get
  pruneEntries (fun e => .ok (decide (e.2.message.epoch ≤ headState.finalizedCheckpoint.epoch)))
    deleteVoluntaryExit this.voluntaryExits.entries

/-- Prune all types of transactions given the latest head state. -/
def pruneAll : EStateM String OpPool Unit := do
  pruneAttesterSlashings headState
  pruneProposerSlashings headState
  pruneVoluntaryExits headState

end

end OpPool

end Lodestar.Chain
