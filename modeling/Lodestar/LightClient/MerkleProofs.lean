import Lodestar.Base.Merkle
import Lodestar.LightClient.Validation
import Mathlib.Data.Nat.Log

/-!
# The proofs of the server against the checks of the client

The server takes its branches from the tree of a state, the containers of
`types/src/altair/sszTypes.ts` and `types/src/bellatrix/sszTypes.ts`. The client
knows two pairs of a depth and an index. The branches are accepted, and a branch
that is accepted proves what is at its position in the tree.
-/

namespace Lodestar.LightClient

open Lodestar.Base Lodestar.StateTransition

section Main

variable [Preset] [LightclientCrypto]

/-! ## The tree of a state -/

/-- Fields in order, filled up with zero chunks to a power of two. -/
def containerNode (fields : List (MerkleNode Root)) : MerkleNode Root :=
  .fill 0 (Nat.clog 2 fields.length) fields

structure CheckpointTree where
  value : Checkpoint
  /-- The chunk of `value.epoch`. -/
  epoch : Root

def CheckpointTree.node (checkpoint : CheckpointTree) : MerkleNode Root :=
  containerNode [.leaf checkpoint.epoch, .leaf checkpoint.value.root]

/-- A committee and its tree. -/
structure SyncCommitteeTree where
  value : SyncCommittee
  node : MerkleNode Root
  root_node : node.root hash = committeeRoot value

/-- `altair.BeaconState`, and `bellatrix.BeaconState` with its last field. -/
structure BeaconStateTree where
  genesisTime : MerkleNode Root
  genesisValidatorsRoot : MerkleNode Root
  slot : MerkleNode Root
  fork : MerkleNode Root
  latestBlockHeader : MerkleNode Root
  blockRoots : MerkleNode Root
  stateRoots : MerkleNode Root
  historicalRoots : MerkleNode Root
  eth1Data : MerkleNode Root
  eth1DataVotes : MerkleNode Root
  eth1DepositIndex : MerkleNode Root
  validators : MerkleNode Root
  balances : MerkleNode Root
  randaoMixes : MerkleNode Root
  slashings : MerkleNode Root
  previousEpochParticipation : MerkleNode Root
  currentEpochParticipation : MerkleNode Root
  justificationBits : MerkleNode Root
  previousJustifiedCheckpoint : MerkleNode Root
  currentJustifiedCheckpoint : MerkleNode Root
  finalizedCheckpoint : CheckpointTree
  inactivityScores : MerkleNode Root
  currentSyncCommittee : SyncCommitteeTree
  nextSyncCommittee : SyncCommitteeTree
  latestExecutionPayloadHeader : Option (MerkleNode Root)

namespace BeaconStateTree

def fields (state : BeaconStateTree) : List (MerkleNode Root) :=
  [state.genesisTime, state.genesisValidatorsRoot, state.slot, state.fork,
    state.latestBlockHeader, state.blockRoots, state.stateRoots, state.historicalRoots,
    state.eth1Data, state.eth1DataVotes, state.eth1DepositIndex,
    state.validators, state.balances, state.randaoMixes, state.slashings,
    state.previousEpochParticipation, state.currentEpochParticipation,
    state.justificationBits, state.previousJustifiedCheckpoint, state.currentJustifiedCheckpoint,
    state.finalizedCheckpoint.node, state.inactivityScores,
    state.currentSyncCommittee.node, state.nextSyncCommittee.node] ++
    state.latestExecutionPayloadHeader.toList

def node (state : BeaconStateTree) : MerkleNode Root := containerNode state.fields

def hashTreeRoot (state : BeaconStateTree) : Root := state.node.root hash

/-- What the server reads of the state. -/
def beaconState (state : BeaconStateTree) : BeaconState where
  currentSyncCommittee := state.currentSyncCommittee.value
  nextSyncCommittee := state.nextSyncCommittee.value
  finalizedCheckpoint := state.finalizedCheckpoint.value
  tree gindex := ((state.node.getNode gindex).map (·.root hash)).getD 0

variable {state : BeaconStateTree}

theorem clog_length_fields : Nat.clog 2 state.fields.length = 5 := by
  unfold fields
  cases state.latestExecutionPayloadHeader with
  | none =>
    show Nat.clog 2 24 = 5
    decide +kernel
  | some header =>
    show Nat.clog 2 25 = 5
    decide +kernel

theorem nodeAt_field {index : Nat} (hi : index < 24) :
    state.node.nodeAt 5 index = state.fields[index]? := by
  unfold node containerNode
  rw [clog_length_fields, MerkleNode.nodeAt_fill _ _ _ (by omega), List.getD_eq_getElem?_getD]
  have hlength : index < state.fields.length := by
    unfold fields
    rw [List.length_append]
    exact Nat.lt_of_lt_of_le hi (Nat.le_add_right _ _)
  rw [List.getElem?_eq_getElem hlength]
  rfl

variable (state) in
theorem nodeAt_nextSyncCommittee : state.node.nodeAt NEXT_SYNC_COMMITTEE_DEPTH
    NEXT_SYNC_COMMITTEE_INDEX = some state.nextSyncCommittee.node :=
  nodeAt_field (by decide)

variable (state) in
theorem nodeAt_finalizedRoot : state.node.nodeAt FINALIZED_ROOT_DEPTH FINALIZED_ROOT_INDEX =
    some (.leaf state.finalizedCheckpoint.value.root) := by
  have hcheckpoint : state.node.nodeAt 5 20 = some state.finalizedCheckpoint.node :=
    nodeAt_field (by decide)
  show (state.node.nodeAt 5 20).bind (·.child 1) = _
  rw [hcheckpoint]
  simp [CheckpointTree.node, containerNode, MerkleNode.fill, MerkleNode.child,
    show Nat.clog 2 2 = 1 by decide +kernel]

theorem tree_eq {depth index : Nat} {n : MerkleNode Root} (hi : index < 2 ^ depth)
    (hn : state.node.nodeAt depth index = some n) :
    state.beaconState.tree (2 ^ depth + index) = n.root hash := by
  unfold beaconState
  simp [MerkleNode.getNode_eq_nodeAt hi, hn]

end BeaconStateTree

/-! ## The checks of the client -/

variable {leaf root : Root} {proof : List Root} {depth index : Nat}

theorem merkleBranchStep_eq_ok_iff {value w : Root} {i : Nat} :
    merkleBranchStep proof index value i = .ok w ↔
      ∃ p, proof[i]? = some p ∧ w = Function.uncurry hash (branchPair index i p value) := by
  unfold merkleBranchStep branchPair
  cases proof[i]? with
  | none => simp [throw, throwThe, MonadExceptOf.throw, bind, Except.bind]
  | some p =>
    by_cases hbit : index / 2 ^ i % 2 ≠ 0
    · simp [hbit, pure, Except.pure, bind, Except.bind, eq_comm]
    · simp [hbit, pure, Except.pure, bind, Except.bind, eq_comm]

theorem foldlM_merkleBranchStep_eq_ok_iff {value : Root} :
    (List.range depth).foldlM (merkleBranchStep proof index) leaf = .ok value ↔
      branchValue hash leaf proof index depth = some value := by
  induction depth generalizing value with
  | zero => simp [branchValue, pure, Except.pure]
  | succ depth ih =>
    rw [List.range_succ, List.foldlM_append]
    constructor
    · intro h
      obtain ⟨v, hv, hstep⟩ := eq_ok_of_bind h
      obtain ⟨w, hw, hpure⟩ := eq_ok_of_bind hstep
      obtain ⟨p, hp, rfl⟩ := merkleBranchStep_eq_ok_iff.1 hw
      unfold branchValue
      rw [ih.1 hv, hp, ← Except.ok.inj hpure]
      rfl
    · intro h
      obtain ⟨v, p, hv, hp, hvalue⟩ := branchValue_succ_eq_some h
      have hstep := merkleBranchStep_eq_ok_iff.2 ⟨p, hp, hvalue⟩
      have hlast : [depth].foldlM (merkleBranchStep proof index) v = .ok value := by
        rw [List.foldlM_cons, hstep]
        rfl
      rw [ih.2 hv]
      exact hlast

theorem isValidMerkleBranch_eq_ok_true_iff :
    isValidMerkleBranch leaf proof depth index root = .ok true ↔
      branchValue hash leaf proof index depth = some root := by
  rw [← foldlM_merkleBranchStep_eq_ok_iff]
  unfold isValidMerkleBranch
  constructor
  · intro h
    obtain ⟨value, hvalue, hroot⟩ := eq_ok_of_bind h
    rwa [of_decide_eq_true (Except.ok.inj hroot)] at hvalue
  · intro h
    rw [h]
    show Except.ok (decide (root = root)) = _
    simp

variable {state : BeaconStateTree}

theorem isBranch_of_tree {n : MerkleNode Root} (hn : state.node.nodeAt depth index = some n)
    (hproof : ∀ i < depth,
      proof[i]? = some (state.beaconState.tree (2 ^ (depth - i) + (index / 2 ^ i ^^^ 1))))
    (hindex : index < 2 ^ depth) : state.node.IsBranch hash depth index proof := by
  intro i hi
  obtain ⟨sibling, hsibling⟩ := MerkleNode.exists_sibling hn hi
  refine ⟨sibling, hsibling, ?_⟩
  have hlt : index / 2 ^ i < 2 ^ (depth - i) := by
    rw [Nat.div_lt_iff_lt_mul (by positivity), ← pow_add]
    rwa [Nat.sub_add_cancel hi.le]
  have hone : 1 < 2 ^ (depth - i) := Nat.one_lt_two_pow (by omega)
  rw [hproof i hi, BeaconStateTree.tree_eq (Nat.xor_lt_two_pow hlt hone) hsibling]

theorem isBranch_getNextSyncCommitteeBranch : state.node.IsBranch hash NEXT_SYNC_COMMITTEE_DEPTH
    NEXT_SYNC_COMMITTEE_INDEX
    (getNextSyncCommitteeBranch (getSyncCommitteesWitness state.beaconState)).toList := by
  refine isBranch_of_tree state.nodeAt_nextSyncCommittee (fun i hi => ?_) (by decide)
  generalize state.beaconState = s
  have hi : i < 5 := hi
  interval_cases i <;> rfl

theorem isBranch_getFinalizedRootProof : state.node.IsBranch hash FINALIZED_ROOT_DEPTH
    FINALIZED_ROOT_INDEX (getFinalizedRootProof state.beaconState).toList := by
  refine isBranch_of_tree state.nodeAt_finalizedRoot (fun i hi => ?_) (by decide)
  generalize state.beaconState = s
  have hi : i < 6 := hi
  interval_cases i <;> rfl

/-! ## Complete and sound -/

theorem assertValidSyncCommitteeProof_of_branch {update : LightClientUpdate}
    (h : isValidMerkleBranch (committeeRoot update.nextSyncCommittee)
      update.nextSyncCommitteeBranch.toList NEXT_SYNC_COMMITTEE_DEPTH NEXT_SYNC_COMMITTEE_INDEX
      (activeHeader update).stateRoot = .ok true) :
    assertValidSyncCommitteeProof update = .ok () := by
  unfold assertValidSyncCommitteeProof
  rw [h]
  rfl

/-- What is left of the check of a finalized header is the comparison of the periods. -/
theorem assertValidFinalityProof_of_branch {update : LightClientUpdate}
    (h : isValidMerkleBranch (headerRoot update.finalizedHeader) update.finalityBranch.toList
      FINALIZED_ROOT_DEPTH FINALIZED_ROOT_INDEX update.attestedHeader.stateRoot = .ok true) :
    assertValidFinalityProof update =
      if computeSyncPeriodAtSlot update.finalizedHeader.slot =
          computeSyncPeriodAtSlot update.attestedHeader.slot then .ok ()
      else .error (.finalityPeriod (computeSyncPeriodAtSlot update.finalizedHeader.slot)
        (computeSyncPeriodAtSlot update.attestedHeader.slot)) := by
  unfold assertValidFinalityProof
  rw [h]
  by_cases hperiod : computeSyncPeriodAtSlot update.finalizedHeader.slot =
      computeSyncPeriodAtSlot update.attestedHeader.slot
  · rw [if_pos hperiod]
    show (if _ ≠ _ then _ else _) = _
    rw [if_neg (not_not_intro hperiod)]
    rfl
  · rw [if_neg hperiod]
    show (if _ ≠ _ then _ else _) = _
    rw [if_pos hperiod]
    rfl

/-- The client accepts the branches that the server takes from a state, for the root of the state
and for what it commits to, and a branch that is accepted for a position of a tree proves the node
there, unless two pairs of roots collide that are hashed for the tree or the branch. -/
theorem merkle_branches_complete_and_sound :
    (∀ (state : BeaconStateTree) (update : LightClientUpdate),
      (activeHeader update).stateRoot = state.hashTreeRoot →
      update.nextSyncCommittee = state.beaconState.nextSyncCommittee →
      update.nextSyncCommitteeBranch =
        getNextSyncCommitteeBranch (getSyncCommitteesWitness state.beaconState) →
      assertValidSyncCommitteeProof update = .ok ()) ∧
    (∀ (state : BeaconStateTree) (update : LightClientUpdate),
      update.attestedHeader.stateRoot = state.hashTreeRoot →
      headerRoot update.finalizedHeader = state.beaconState.finalizedCheckpoint.root →
      update.finalityBranch = getFinalizedRootProof state.beaconState →
      assertValidFinalityProof update =
        if computeSyncPeriodAtSlot update.finalizedHeader.slot =
            computeSyncPeriodAtSlot update.attestedHeader.slot then .ok ()
        else .error (.finalityPeriod (computeSyncPeriodAtSlot update.finalizedHeader.slot)
          (computeSyncPeriodAtSlot update.attestedHeader.slot))) ∧
    (∀ (leaf root : Root) (proof : List Root) (depth index : Nat),
      isValidMerkleBranch leaf proof depth index root = .ok true →
      ∀ tree : MerkleNode Root, tree.root hash = root →
        (tree.hashed hash ∪ branchHashed hash leaf proof depth index).InjOn
          (Function.uncurry hash) →
        ∀ node, tree.nodeAt depth index = some node → node.root hash = leaf) := by
  refine ⟨fun state update hstate hcommittee hbranch => ?_,
    fun state update hstate hheader hbranch => ?_,
    fun leaf root proof depth index hvalid tree hroot hfree node hnode => ?_⟩
  · apply assertValidSyncCommitteeProof_of_branch
    have hvalue := isBranch_getNextSyncCommitteeBranch.branchValue_depth
      state.nodeAt_nextSyncCommittee
    rw [state.nextSyncCommittee.root_node] at hvalue
    rw [isValidMerkleBranch_eq_ok_true_iff, hstate, hcommittee, hbranch]
    exact hvalue
  · apply assertValidFinalityProof_of_branch
    have hvalue := isBranch_getFinalizedRootProof.branchValue_depth state.nodeAt_finalizedRoot
    rw [isValidMerkleBranch_eq_ok_true_iff, hstate, hheader, hbranch]
    exact hvalue
  · rw [isValidMerkleBranch_eq_ok_true_iff, ← hroot] at hvalid
    have hvalue := MerkleNode.branchValue_eq_root hfree hvalid le_rfl
      (by rwa [Nat.sub_self, pow_zero, Nat.div_one])
    rw [Nat.sub_self] at hvalue
    exact (Option.some.inj hvalue).symm

end Main

attribute [local instance] minimal

/-- A hash of small numbers without collisions. -/
local instance shiftCrypto : LightclientCrypto where
  PublicKey := Unit
  fromBytes _ := .ok ()
  isValidBlsAggregate _ _ _ := .ok true
  hash left right := 4 * left + right
  headerRoot header := BitVec.ofNat 256 header.slot
  committeeRoot committee := committee.aggregatePubkey.setWidth 256
  signingRoot objectRoot _ := objectRoot

/-- A state that finalized the header of slot 5. -/
def finalizedFive : BeaconStateTree where
  genesisTime := .leaf 1
  genesisValidatorsRoot := .leaf 2
  slot := .leaf 3
  fork := .leaf 4
  latestBlockHeader := .leaf 5
  blockRoots := .leaf 6
  stateRoots := .leaf 7
  historicalRoots := .leaf 8
  eth1Data := .leaf 9
  eth1DataVotes := .leaf 10
  eth1DepositIndex := .leaf 11
  validators := .leaf 12
  balances := .leaf 13
  randaoMixes := .leaf 14
  slashings := .leaf 15
  previousEpochParticipation := .leaf 16
  currentEpochParticipation := .leaf 17
  justificationBits := .leaf 18
  previousJustifiedCheckpoint := .leaf 19
  currentJustifiedCheckpoint := .leaf 20
  finalizedCheckpoint := { value := ⟨1, 5⟩, epoch := 1 }
  inactivityScores := .leaf 21
  currentSyncCommittee :=
    { value := { pubkeys := [1], aggregatePubkey := 22 }, node := .leaf 22, root_node := rfl }
  nextSyncCommittee :=
    { value := { pubkeys := [2], aggregatePubkey := 23 }, node := .leaf 23, root_node := rfl }
  latestExecutionPayloadHeader := none

def finalizedFiveUpdate : LightClientUpdate where
  attestedHeader := ⟨9, 0, 0, finalizedFive.hashTreeRoot, 0⟩
  nextSyncCommittee := { pubkeys := [2], aggregatePubkey := 23 }
  nextSyncCommitteeBranch :=
    getNextSyncCommitteeBranch (getSyncCommitteesWitness finalizedFive.beaconState)
  finalizedHeader := ⟨5, 0, 0, finalizedFive.hashTreeRoot, 0⟩
  finalityBranch := getFinalizedRootProof finalizedFive.beaconState
  syncAggregate := { syncCommitteeBits := Vector.replicate _ true, syncCommitteeSignature := 0 }
  forkVersion := 1

theorem merkle_branches_finalizedFive :
    assertValidSyncCommitteeProof finalizedFiveUpdate = .ok () ∧
    assertValidFinalityProof finalizedFiveUpdate = .ok () ∧
    ((MerkleNode.branch (.leaf 1) (.leaf 2)).nodeAt 1 1).map (·.root hash) = some (2 : Root) := by
  obtain ⟨hcommittee, hfinality, hsound⟩ := merkle_branches_complete_and_sound
  refine ⟨hcommittee finalizedFive _ rfl rfl rfl, ?_, ?_⟩
  · rw [hfinality finalizedFive _ rfl rfl rfl]
    exact if_pos rfl
  · have hhashed : (MerkleNode.branch (.leaf 1) (.leaf 2)).hashed hash ∪
        branchHashed hash (2 : Root) [1] 1 1 ⊆ {((1 : Root), (2 : Root))} := by
      rintro pair ((rfl | h | h) | ⟨i, hi, v, p, hv, hp, rfl⟩)
      · rfl
      · cases h
      · cases h
      · obtain rfl : i = 0 := by omega
        cases hv
        cases hp
        rfl
    have hleaf := hsound 2 6 [1] 1 1 (by decide) (.branch (.leaf 1) (.leaf 2)) (by decide)
      ((Set.injOn_singleton _ _).mono hhashed) (.leaf 2) rfl
    exact congrArg some hleaf

end Lodestar.LightClient
