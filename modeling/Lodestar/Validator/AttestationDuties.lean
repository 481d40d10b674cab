import Lodestar.Base.OrderedMap
import Lodestar.Base.Protocol
import Lodestar.StateTransition.Util

/-!
# Attester duties of the validator client

`AttestationDutiesService` of `validator/src/services/attestationDuties.ts`.
Its tasks run at once; the beacon node, the signers and the service of the
indices answer as they like. Epochs are integers, since the clock starts one
before genesis.
-/

namespace Lodestar.Validator

open Lodestar.Base Lodestar.StateTransition

/-! ## Types -/

structure AttesterDuty where
  pubkey : BLSPubkey
  validatorIndex : Nat
  committeeIndex : Nat
  committeeLength : Nat
  committeesAtSlot : Nat
  validatorCommitteeIndex : Nat
  slot : Nat
  deriving DecidableEq

/-- What `getAttesterDuties` answers. -/
structure AttesterDuties where
  dependentRoot : RootHex
  data : List AttesterDuty
  deriving DecidableEq

structure BeaconCommitteeSubscription where
  validatorIndex : Nat
  committeesAtSlot : Nat
  committeeIndex : Nat
  slot : Nat
  isAggregator : Bool
  deriving DecidableEq

/-- The proof is only there for an aggregator. -/
structure AttDutyAndProof where
  duty : AttesterDuty
  selectionProof : Option BLSSignature
  deriving DecidableEq

structure AttDutiesAtEpoch where
  dependentRoot : RootHex
  dutiesByIndex : OrderedMap Nat AttDutyAndProof

structure HeadEventData where
  slot : Nat
  head : RootHex
  previousDutyDependentRoot : RootHex
  currentDutyDependentRoot : RootHex

def HISTORICAL_DUTIES_EPOCHS : Int := 2
def TARGET_AGGREGATORS_PER_COMMITTEE : Nat := 16

/-- What the service is made with. -/
class DutiesContext where
  /-- The keys of `validatorStore.validators`, which do not change. -/
  hasVotingPubkey : BLSPubkey → Bool
  /-- `bytesToBigInt(hash(sig).slice(0, 8))`. -/
  selectionHash : BLSSignature → Nat

export DutiesContext (hasVotingPubkey selectionHash)

/-! ## Operations -/

/-- Requests, and reads and writes of the two maps of the service. -/
inductive DutyOp where
  | getAttesterDuties (epoch : Int) (indexArr : List Nat)
  | signAttestationSelectionProof (pubkey : BLSPubkey) (slot : Nat)
  | prepareBeaconCommitteeSubnet (subscriptions : List BeaconCommitteeSubscription)
  | pollValidatorIndices
  | getAllLocalIndices
  /-- `sleep(clock.msToSlotFraction(slot, 1 / 3))`. -/
  | sleep (slot : Int)
  /-- The read of a poll. -/
  | priorDependentRoot (epoch : Int)
  | setDuties (epoch : Int) (duties : AttDutiesAtEpoch)
  | dependentRoot (epoch : Int)
  | dutiesByIndex (epoch : Int)
  | pendingDependentRoot (epoch : Int)
  | setPendingDependentRoot (epoch : Int) (root : RootHex)
  | deletePendingDependentRoot (epoch : Int)
  | pruneOldDuties (currentEpoch : Int)

def DutyOp.Resp : DutyOp → Type
  | .getAttesterDuties .. => Except String AttesterDuties
  | .signAttestationSelectionProof .. => Except String BLSSignature
  | .prepareBeaconCommitteeSubnet _ => Except String Unit
  | .pollValidatorIndices => Except String (List Nat)
  | .getAllLocalIndices => List Nat
  | .priorDependentRoot _ | .dependentRoot _ | .pendingDependentRoot _ => Option RootHex
  | .dutiesByIndex _ => List AttDutyAndProof
  | .sleep _ | .setDuties .. | .setPendingDependentRoot .. | .deletePendingDependentRoot _
  | .pruneOldDuties _ => Unit

/-- The maps of the service, and what the world answers, by the number of operations so far. -/
structure DutiesStore where
  dutiesByIndexByEpoch : OrderedMap Int AttDutiesAtEpoch
  pendingDependentRootByEpoch : OrderedMap Int RootHex
  answer : Nat → (o : DutyOp) → o.Resp
  time : Nat

namespace DutiesStore

def new (answer : Nat → (o : DutyOp) → o.Resp) : DutiesStore where
  dutiesByIndexByEpoch := .empty
  pendingDependentRootByEpoch := .empty
  answer
  time := 0

/-- Epochs that are so far behind are deleted. -/
def isOld (currentEpoch epoch : Int) : Bool := epoch + HISTORICAL_DUTIES_EPOCHS < currentEpoch

/-- Deletes the old keys of a map. -/
def pruneMap {α : Type} (currentEpoch : Int) (m : OrderedMap Int α) : OrderedMap Int α :=
  (m.keys.filter (isOld currentEpoch)).foldl (·.delete ·) m

def pruneOldDuties (this : DutiesStore) (currentEpoch : Int) : DutiesStore :=
  { this with
    dutiesByIndexByEpoch := pruneMap currentEpoch this.dutiesByIndexByEpoch
    pendingDependentRootByEpoch := pruneMap currentEpoch this.pendingDependentRootByEpoch }

/-- The answer and the effect of an operation, apart from the time. -/
def respond : (o : DutyOp) → DutiesStore → o.Resp × DutiesStore
  | .priorDependentRoot epoch, this =>
    ((this.dutiesByIndexByEpoch.get epoch).map (·.dependentRoot), this)
  | .setDuties epoch duties, this =>
    ((), { this with dutiesByIndexByEpoch := this.dutiesByIndexByEpoch.set epoch duties })
  | .dependentRoot epoch, this =>
    ((this.dutiesByIndexByEpoch.get epoch).map (·.dependentRoot), this)
  | .dutiesByIndex epoch, this =>
    (((this.dutiesByIndexByEpoch.get epoch).map (·.dutiesByIndex.values)).getD [], this)
  | .pendingDependentRoot epoch, this => (this.pendingDependentRootByEpoch.get epoch, this)
  | .setPendingDependentRoot epoch root, this =>
    ((), { this with
      pendingDependentRootByEpoch := this.pendingDependentRootByEpoch.set epoch root })
  | .deletePendingDependentRoot epoch, this =>
    ((), { this with
      pendingDependentRootByEpoch := this.pendingDependentRootByEpoch.delete epoch })
  | .pruneOldDuties currentEpoch, this => ((), this.pruneOldDuties currentEpoch)
  | o, this => (this.answer this.time o, this)

def act (o : DutyOp) (this : DutiesStore) : o.Resp × DutiesStore :=
  let (r, that) := respond o this
  (r, { that with time := this.time + 1 })

end DutiesStore

/-- The async functions of the service. -/
abbrev DutyAsync (α : Type) := Prog DutyOp DutyOp.Resp String α

abbrev DutyEvent := Event DutyOp DutyOp.Resp

abbrev dutyOp (o : DutyOp) : DutyAsync o.Resp := Prog.op o

/-- `await` of what may be rejected. -/
def settle {α : Type} : Except String α → DutyAsync α
  | .ok a => return a
  | .error e => throw e

/-- `.catch((e) => logger.error(..))`. -/
def caught (p : DutyAsync Unit) : DutyAsync Unit := tryCatch p fun _ => return ()

def getAttesterDuties (epoch : Int) (indexArr : List Nat) : DutyAsync (Except String AttesterDuties) :=
  dutyOp (.getAttesterDuties epoch indexArr)

def signAttestationSelectionProof (pubkey : BLSPubkey) (slot : Nat) :
    DutyAsync (Except String BLSSignature) :=
  dutyOp (.signAttestationSelectionProof pubkey slot)

def pollValidatorIndices : DutyAsync (Except String (List Nat)) := dutyOp .pollValidatorIndices

def getAllLocalIndices : DutyAsync (List Nat) := dutyOp .getAllLocalIndices

def dependentRootOf (epoch : Int) : DutyAsync (Option RootHex) := dutyOp (.dependentRoot epoch)

def pendingDependentRootOf (epoch : Int) : DutyAsync (Option RootHex) :=
  dutyOp (.pendingDependentRoot epoch)

def epochDuties (epoch : Int) : DutyAsync (List AttDutyAndProof) := dutyOp (.dutiesByIndex epoch)

/-! ## Polls -/

variable [DutiesContext]

def isSelectionProofValid (sig : BLSSignature) (modulo : Nat) : Bool :=
  selectionHash sig % modulo == 0

def isAggregatorFromCommitteeLength (committeeLength : Nat) (slotSignature : BLSSignature) : Bool :=
  isSelectionProofValid slotSignature (max 1 (committeeLength / TARGET_AGGREGATORS_PER_COMMITTEE))

def getDutyAndProof (duty : AttesterDuty) : DutyAsync AttDutyAndProof := do
  let selectionProof ← settle (← signAttestationSelectionProof duty.pubkey duty.slot)
  let isAggregator := isAggregatorFromCommitteeLength duty.committeeLength selectionProof
  return { duty, selectionProof := if isAggregator then some selectionProof else none }

/-- The loop over the relevant duties. -/
def getDutiesAndProofs : List AttesterDuty → OrderedMap Nat AttDutyAndProof →
    DutyAsync (OrderedMap Nat AttDutyAndProof)
  | [], dutiesByIndex => return dutiesByIndex
  | duty :: duties, dutiesByIndex => do
    let dutyAndProof ← getDutyAndProof duty
    getDutiesAndProofs duties (dutiesByIndex.set duty.validatorIndex dutyAndProof)

def relevantDuties (attesterDuties : AttesterDuties) : List AttesterDuty :=
  attesterDuties.data.filter fun duty => hasVotingPubkey duty.pubkey

/-- What is done with an answer: nothing, if its dependent root is known. -/
def processAttesterDuties (epoch : Int) (attesterDuties : AttesterDuties) : DutyAsync Unit := do
  let priorDependentRoot : Option RootHex ← dutyOp (.priorDependentRoot epoch)
  if priorDependentRoot = some attesterDuties.dependentRoot then return ()
  else
    let dutiesByIndex ← getDutiesAndProofs (relevantDuties attesterDuties) .empty
    let _ ← dutyOp (.setDuties epoch ⟨attesterDuties.dependentRoot, dutiesByIndex⟩)

def pollBeaconAttestersForEpoch (epoch : Int) (indexArr : List Nat) : DutyAsync Unit := do
  if epoch < 0 then return ()
  else
    let attesterDuties ← settle (← getAttesterDuties epoch indexArr)
    processAttesterDuties epoch attesterDuties

/-- The subscriptions for the duties of an epoch. -/
def subscriptionsOf (indexArr : List Nat) (duties : List AttDutyAndProof) :
    List BeaconCommitteeSubscription :=
  (duties.filter fun d => indexArr.contains d.duty.validatorIndex).map fun d =>
    { validatorIndex := d.duty.validatorIndex
      committeesAtSlot := d.duty.committeesAtSlot
      committeeIndex := d.duty.committeeIndex
      slot := d.duty.slot
      isAggregator := d.selectionProof.isSome }

def pollBeaconAttesters (currentEpoch : Int) (indexArr : List Nat) : DutyAsync Unit := do
  if indexArr = [] then return ()
  else
    caught (pollBeaconAttestersForEpoch currentEpoch indexArr)
    caught (pollBeaconAttestersForEpoch (currentEpoch + 1) indexArr)
    let currentDuties ← epochDuties currentEpoch
    let nextDuties ← epochDuties (currentEpoch + 1)
    let subscriptions := subscriptionsOf indexArr currentDuties ++ subscriptionsOf indexArr nextDuties
    if subscriptions = [] then return ()
    else
      let answer : Except String Unit ← dutyOp (.prepareBeaconCommitteeSubnet subscriptions)
      settle answer

/-! ## Tasks -/

def handleAttesterDutiesReorg (dutyEpoch : Int) : DutyAsync Unit := do
  let indexArr ← getAllLocalIndices
  caught do
    pollBeaconAttestersForEpoch dutyEpoch indexArr
    let _ ← dutyOp (.deletePendingDependentRoot dutyEpoch)

variable [Preset]

def prepareForNextEpoch (slot : Int) : DutyAsync Unit := do
  if (slot + 1) % (SLOTS_PER_EPOCH : Int) ≠ 0 then return ()
  else
    let _ ← dutyOp (.sleep slot)
    let nextEpoch := slot / (SLOTS_PER_EPOCH : Int) + 1
    let dependentRoot ← dependentRootOf nextEpoch
    let pendingDependentRoot ← pendingDependentRootOf nextEpoch
    if dependentRoot.isSome ∧ pendingDependentRoot.isSome ∧ dependentRoot ≠ pendingDependentRoot then
      handleAttesterDutiesReorg nextEpoch
    else return ()

/-- A known dependent root that is no longer the right one. -/
def isReorg (known : Option RootHex) (root : RootHex) : Bool := known.any (· ≠ root)

/-- The epoch after the next one, whose dependent root is the head. -/
def onNextTwoEpoch (event : HeadEventData) : DutyAsync Unit := do
  let nextTwoEpoch : Int := computeEpochAtSlot event.slot + 2
  if isReorg (← dependentRootOf nextTwoEpoch) event.head then
    if (event.slot + 1) % SLOTS_PER_EPOCH = 0 then handleAttesterDutiesReorg nextTwoEpoch
    else
      let _ ← dutyOp (.setPendingDependentRoot nextTwoEpoch event.head)
  else return ()

/-- The dependent root of an epoch changed. -/
def onDependentRoot (epoch : Int) (root : RootHex) : DutyAsync Unit := do
  if isReorg (← dependentRootOf epoch) root then handleAttesterDutiesReorg epoch
  else return ()

def onNewHead (event : HeadEventData) : DutyAsync Unit := do
  let currentEpoch : Int := computeEpochAtSlot event.slot
  onNextTwoEpoch event
  onDependentRoot (currentEpoch + 1) event.currentDutyDependentRoot
  onDependentRoot currentEpoch event.previousDutyDependentRoot

/-- What is started by the clock and by the head events; the two polls of `runDutiesTasks` and
its last step are tasks of their own. -/
inductive DutyTask where
  | pollAllLocalIndices (epoch : Int)
  | pollNewIndices (epoch : Int)
  | pruneOldDuties (epoch : Int)
  | prepareForNextEpoch (slot : Int)
  | onNewHead (event : HeadEventData)

def DutyTask.run : DutyTask → DutyAsync Unit
  | .pollAllLocalIndices epoch => do
    let indexArr ← getAllLocalIndices
    pollBeaconAttesters epoch indexArr
  | .pollNewIndices epoch => do
    let newIndices ← settle (← pollValidatorIndices)
    pollBeaconAttesters epoch newIndices
  | .pruneOldDuties epoch => do
    let _ ← dutyOp (.pruneOldDuties epoch)
  | .prepareForNextEpoch slot => Validator.prepareForNextEpoch slot
  | .onNewHead event => Validator.onNewHead event

end Lodestar.Validator
