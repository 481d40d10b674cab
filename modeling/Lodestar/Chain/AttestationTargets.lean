import Lodestar.Chain.GossipAttestation
import Lodestar.ForkChoice.TargetRoots

/-!
# The target checks of attestations

`verifyAttestationTargetRoot` of the gossip validation and the check of the
target in `validateAttestationData` of the fork choice, against the spec's
`get_ancestor`. Both read the target root of the head's node, which is right
except at an anchor block that is past the start of its epoch
(`targetChecksMatch_iff`).
-/

namespace Lodestar.Chain

open Lodestar.Base Lodestar.StateTransition
open Lodestar.ForkChoice (Anchor BlockTree Call ForkChoiceError HasTarget IProtoBlock
  initializeForkChoice)

section Main

variable [Preset] {hashTreeRoot : BeaconBlockHeader → Root} {tree : BlockTree} {anchor : Anchor}
  {this : ForkChoice} {head : IProtoBlock} {data : AttestationData} {slot : Nat}

/-! ## Both checks -/

/-- The root is that of the head's ancestor at the start of the target epoch. -/
def IsTarget (tree : BlockTree) (data : AttestationData) : Prop :=
  tree.getAncestor data.beaconBlockRoot (computeStartSlotAtEpoch data.target.epoch)
    = some data.target.root

/-- `validateAttestationData` comes to the check of the target. -/
structure ReachesTargetCheck (this : ForkChoice) (data : AttestationData) : Prop where
  not_future : data.target.epoch ≤ computeEpochAtSlot this.fcStore.currentSlot
  not_past : computeEpochAtSlot this.fcStore.currentSlot ≤ data.target.epoch + 1
  known : this.protoArray.hasBlock data.target.root = true

/-- The target is not what is wrong. -/
def PassesTargetCheck (result : Except ForkChoiceError Unit) : Prop :=
  ∀ attestation expected,
    result ≠ .error (.INVALID_ATTESTATION (.INVALID_TARGET attestation expected))

/-- At the head and the slot, both checks let through the target roots of the spec and no other. -/
def TargetChecksMatch (tree : BlockTree) (this : ForkChoice) (head : IProtoBlock) (slot : Nat) :
    Prop :=
  ∀ data : AttestationData, data.beaconBlockRoot = head.blockRoot → data.slot = slot →
    data.target.epoch = computeEpochAtSlot data.slot →
      (verifyAttestationTargetRoot head data.target.root data.target.epoch = .ok () ↔
        IsTarget tree data) ∧
      (ReachesTargetCheck this data →
        (PassesTargetCheck (this.validateAttestationData data data.slot data.beaconBlockRoot
          data.target.epoch) ↔ IsTarget tree data))

/-- The root that both checks expect, for a head that is not past the epoch. -/
def expectedTarget (head : IProtoBlock) (epoch : Nat) : Root :=
  if computeEpochAtSlot head.slot = epoch then head.targetRoot else head.blockRoot

theorem verifyAttestationTargetRoot_eq_ok_iff {epoch : Nat}
    (hle : computeEpochAtSlot head.slot ≤ epoch) (targetRoot : Root) :
    verifyAttestationTargetRoot head targetRoot epoch = .ok () ↔
      expectedTarget head epoch = targetRoot := by
  unfold verifyAttestationTargetRoot expectedTarget
  rw [if_neg (not_lt.mpr hle)]
  split_ifs <;> simp_all

theorem validateAttestationData_eq (hreaches : ReachesTargetCheck this data)
    (hhead : this.protoArray.getBlock data.beaconBlockRoot = some head)
    (hroot : head.blockRoot = data.beaconBlockRoot)
    (hepoch : data.target.epoch = computeEpochAtSlot data.slot) (hslot : head.slot ≤ data.slot) :
    this.validateAttestationData data data.slot data.beaconBlockRoot data.target.epoch =
      if expectedTarget head data.target.epoch = data.target.root then .ok ()
      else .error (.INVALID_ATTESTATION (.INVALID_TARGET data.target.root
        (expectedTarget head data.target.epoch))) := by
  have hle : computeEpochAtSlot head.slot ≤ data.target.epoch :=
    hepoch ▸ Nat.div_le_div_right hslot
  have hexpected : (if data.target.epoch > computeEpochAtSlot head.slot then data.beaconBlockRoot
      else head.targetRoot) = expectedTarget head data.target.epoch := by
    unfold expectedTarget
    rw [hroot]
    split_ifs <;> first | rfl | omega
  have hnotPast := hreaches.not_past
  unfold ForkChoice.validateAttestationData
  simp only [if_neg (not_lt.mpr hreaches.not_future), if_neg (not_lt.mpr hnotPast),
    if_neg (not_not.mpr hepoch), hreaches.known, Bool.not_true, hhead, hexpected,
    if_neg (not_lt.mpr hslot)]
  by_cases htarget : expectedTarget head data.target.epoch = data.target.root
  · rw [if_pos htarget]
    simp only [htarget, ne_eq, not_true_eq_false, if_false]
    rfl
  · rw [if_neg htarget]
    simp only [htarget, ne_eq, not_false_eq_true, if_true]
    rfl

theorem passesTargetCheck_iff (hreaches : ReachesTargetCheck this data)
    (hhead : this.protoArray.getBlock data.beaconBlockRoot = some head)
    (hroot : head.blockRoot = data.beaconBlockRoot)
    (hepoch : data.target.epoch = computeEpochAtSlot data.slot) (hslot : head.slot ≤ data.slot) :
    PassesTargetCheck (this.validateAttestationData data data.slot data.beaconBlockRoot
        data.target.epoch) ↔
      expectedTarget head data.target.epoch = data.target.root := by
  rw [validateAttestationData_eq hreaches hhead hroot hepoch hslot]
  split_ifs with htarget
  · exact ⟨fun _ => htarget, fun _ _ _ heq => nomatch heq⟩
  · exact ⟨fun hpasses => absurd rfl (hpasses _ _), fun heq => absurd heq htarget⟩

/-! ## The target of the spec -/

/-- The expected target is the ancestor, unless the anchor block is past the start of the epoch. -/
theorem getAncestor_eq_expectedTarget (h : HasTarget tree anchor head)
    (hanchor : tree.header anchor.checkpoint.root = some anchor.blockHeader)
    (hslot : head.slot ≤ slot)
    (hstart : head.blockRoot = anchor.checkpoint.root →
      anchor.blockHeader.slot ≤ computeStartSlotAtEpoch (computeEpochAtSlot slot)) :
    tree.getAncestor head.blockRoot (computeStartSlotAtEpoch (computeEpochAtSlot slot))
      = some (expectedTarget head (computeEpochAtSlot slot)) := by
  obtain ⟨header, hheader, hheaderSlot⟩ := h.header
  unfold expectedTarget
  split_ifs with hepoch
  · by_cases hroot : head.blockRoot = anchor.checkpoint.root
    · rw [h.anchored hroot, hroot]
      exact BlockTree.getAncestor_of_le hanchor (hstart hroot)
    · rw [← hepoch]
      exact h.target hroot
  · -- the slots from the head to the start of the epoch are skipped
    refine BlockTree.getAncestor_of_le hheader ?_
    have hlt : computeEpochAtSlot head.slot < computeEpochAtSlot slot :=
      lt_of_le_of_ne (Nat.div_le_div_right hslot) hepoch
    rw [hheaderSlot]
    exact ((lt_startSlot_succ head.slot).trans_le (computeStartSlotAtEpoch_mono hlt)).le

theorem targetChecksMatch_of_eq {root : Root} (hhead : this.protoArray.getBlock root = some head)
    (hroot : head.blockRoot = root) (hslot : head.slot ≤ slot)
    (htarget : tree.getAncestor head.blockRoot (computeStartSlotAtEpoch (computeEpochAtSlot slot))
      = some (expectedTarget head (computeEpochAtSlot slot))) :
    TargetChecksMatch tree this head slot := by
  rintro data hdata rfl hepoch
  have hexpected : IsTarget tree data ↔ expectedTarget head data.target.epoch = data.target.root := by
    rw [IsTarget, hdata, hepoch, htarget, Option.some_inj]
  rw [hexpected]
  constructor
  · exact verifyAttestationTargetRoot_eq_ok_iff (hepoch ▸ Nat.div_le_div_right hslot) _
  · intro hreaches
    rw [← hroot, ← hdata] at hhead
    exact passesTargetCheck_iff hreaches hhead hdata.symm hepoch hslot

/-- At the anchor block past the start of its epoch, the gossip validation takes the block itself
for the target. -/
theorem not_targetChecksMatch (h : HasTarget tree anchor head)
    (hanchor : tree.header anchor.checkpoint.root = some anchor.blockHeader)
    (hroot : head.blockRoot = anchor.checkpoint.root) (hslot : head.slot ≤ slot)
    (hstart : computeStartSlotAtEpoch (computeEpochAtSlot slot) < anchor.blockHeader.slot) :
    ¬ TargetChecksMatch tree this head slot := by
  intro hmatch
  obtain ⟨header, hheader, hheaderSlot⟩ := h.header
  rw [hroot, hanchor] at hheader
  obtain rfl := Option.some.inj hheader
  have hepoch : computeEpochAtSlot head.slot = computeEpochAtSlot slot := by
    refine le_antisymm (Nat.div_le_div_right hslot) ?_
    rw [← computeEpochAtSlot_startSlot (computeEpochAtSlot slot)]
    exact Nat.div_le_div_right (hheaderSlot ▸ hstart.le)
  obtain ⟨hgossip, -⟩ := hmatch ⟨slot, 0, head.blockRoot, ⟨0, 0⟩,
    ⟨computeEpochAtSlot slot, anchor.checkpoint.root⟩⟩ rfl rfl rfl
  have haccepts := hgossip.mp <| (verifyAttestationTargetRoot_eq_ok_iff hepoch.le _).mpr <| by
    rw [expectedTarget, if_pos hepoch]
    exact h.anchored hroot
  obtain ⟨ancestor, hancestor, hle⟩ := BlockTree.slot_le_of_getAncestor haccepts
  rw [hanchor] at hancestor
  obtain rfl := Option.some.inj hancestor
  exact absurd hstart (not_lt.mpr hle)

/-- In every state of a fork choice from its anchor on, both checks of an attestation's target are
the spec's, unless the head is the anchor block and this block is past the start of the epoch. -/
theorem targetChecksMatch_iff {config : ChainConfig} {currentSlot : Nat}
    {proposerBoostEnabled : Bool} {start : ForkChoice}
    (hinit : initializeForkChoice config currentSlot anchor proposerBoostEnabled = .ok start)
    (hanchor : tree.header anchor.checkpoint.root = some anchor.blockHeader) {calls : List Call}
    (himports : ∀ call ∈ calls, call.Imports hashTreeRoot tree) {root : Root}
    (hhead : (start.afterCalls calls).protoArray.getBlock root = some head)
    (hslot : head.slot ≤ slot) :
    TargetChecksMatch tree (start.afterCalls calls) head slot ↔
      ¬ (root = anchor.checkpoint.root ∧
        computeStartSlotAtEpoch (computeEpochAtSlot slot) < anchor.blockHeader.slot) := by
  obtain ⟨-, -, -, hcreated, -⟩ := ForkChoice.initializeForkChoice_ok hinit
  have hreachable : start.Reachable := ⟨start, hcreated, .refl⟩
  have hblocks := ForkChoice.allBlocks_afterCalls hreachable hanchor himports
    (ForkChoice.allBlocks_of_anchor hinit hanchor)
  have htree := (hreachable.afterCalls calls).protoArray_reachable.wf.toTree
  obtain ⟨hroot, node, hnode, hblock⟩ := htree.of_getBlock hhead
  have htarget : HasTarget tree anchor head := hblock ▸ hblocks node hnode
  constructor
  · rintro hmatch ⟨hrootAnchor, hstart⟩
    exact not_targetChecksMatch htarget hanchor (hroot.trans hrootAnchor) hslot hstart hmatch
  · intro hnot
    refine targetChecksMatch_of_eq hhead hroot hslot ?_
    refine getAncestor_eq_expectedTarget htarget hanchor hslot fun hrootAnchor => ?_
    exact not_lt.mp fun hlt => hnot ⟨hroot.symm.trans hrootAnchor, hlt⟩

end Main

/-! ## An anchor block before a skipped slot -/

attribute [local instance] minimal

def gapHeaders : List BeaconBlockHeader :=
  [⟨0, 0, 0, 0xa5, 0xaa⟩, ⟨7, 3, 0xaa, 0xb5, 0xbb⟩, ⟨9, 1, 0xbb, 0xc5, 0xcc⟩]

/-- The blocks `0xaa`, `0xbb` and `0xcc` of the slots 0, 7 and 9; the root of a header is that of its
body. -/
def gapTree : BlockTree where
  header root := gapHeaders.find? (·.bodyRoot = root)
  slot_lt := by
    have hslots : ∀ header ∈ gapHeaders, ∀ parent ∈ gapHeaders,
        parent.bodyRoot = header.parentRoot → parent.slot < header.slot := by decide
    intro root header parent hheader hparent
    exact hslots header (List.mem_of_find?_eq_some hheader) parent
      (List.mem_of_find?_eq_some hparent) (by simpa using List.find?_some hparent)

/-- The state at slot 8, which has no block. -/
def gapAnchor : Anchor where
  blockHeader := ⟨7, 3, 0xaa, 0xb5, 0xbb⟩
  checkpoint := ⟨1, 0xbb⟩
  latestExecutionPayloadHeader := none
  justifiedBalances := [1]

def gapChoice : ForkChoice :=
  okOr (ForkChoice.initial chainConfigMinimal
      (ForkChoice.ForkChoiceStore 9 gapAnchor.justifiedCheckpoint gapAnchor.checkpoint)
      ForkChoice.genesisArray [1] false)
    (initializeForkChoice chainConfigMinimal 9 gapAnchor false)

theorem gapChoice_anchored :
    initializeForkChoice chainConfigMinimal 9 gapAnchor false = .ok gapChoice :=
  eq_ok_okOr _ (by decide +kernel)

/-- An attestation for the anchor block in its slot is refused with the right target, and accepted
with the block itself for the target. -/
theorem gapChoice_not_targetChecksMatch :
    initializeForkChoice chainConfigMinimal 9 gapAnchor false = .ok gapChoice ∧
      gapTree.header gapAnchor.checkpoint.root = some gapAnchor.blockHeader ∧
      ∃ head, gapChoice.protoArray.getBlock 0xbb = some head ∧ head.slot ≤ 7 ∧
        gapTree.getAncestor 0xbb (computeStartSlotAtEpoch (computeEpochAtSlot 7)) = some 0xaa ∧
        verifyAttestationTargetRoot head 0xaa (computeEpochAtSlot 7) ≠ .ok () ∧
        verifyAttestationTargetRoot head 0xbb (computeEpochAtSlot 7) = .ok () ∧
        ¬ TargetChecksMatch gapTree gapChoice head 7 := by
  have hhead : gapChoice.protoArray.getBlock 0xbb = some gapAnchor.protoBlock := by
    decide +kernel
  have hancestor : gapTree.getAncestor 0xbb (computeStartSlotAtEpoch (computeEpochAtSlot 7))
      = some 0xaa := by decide +kernel
  have haccepts : verifyAttestationTargetRoot gapAnchor.protoBlock 0xbb (computeEpochAtSlot 7)
      = .ok () := by decide +kernel
  refine ⟨gapChoice_anchored, rfl, gapAnchor.protoBlock, hhead, by decide, hancestor,
    by decide +kernel, haccepts, fun hmatch => ?_⟩
  obtain ⟨hgossip, -⟩ := hmatch ⟨7, 0, 0xbb, ⟨0, 0⟩, ⟨computeEpochAtSlot 7, 0xbb⟩⟩ rfl rfl rfl
  exact absurd (hancestor.symm.trans (hgossip.mp haccepts)) (by decide)

/-- The state after a block on another one's state. -/
def stateAfter (preState : ForkChoice.HeadState) (header : BeaconBlockHeader) :
    ForkChoice.HeadState :=
  { ForkChoice.processSlots (·.bodyRoot) preState
      (List.replicate (header.slot - preState.slot) 0x5) with
    latestBlockHeader := { header with stateRoot := ForkChoice.ZERO_HASH } }

def genesisHeadState : ForkChoice.HeadState where
  toBeaconState := ForkChoice.plainState 0 ⟨0, 0⟩ ⟨0, 0⟩
  latestBlockHeader := ⟨0, 0, 0, 0, 0xaa⟩

def anchorHeadState : ForkChoice.HeadState := stateAfter genesisHeadState ⟨7, 3, 0xaa, 0xb5, 0xbb⟩

def childHeadState : ForkChoice.HeadState := stateAfter anchorHeadState ⟨9, 1, 0xbb, 0xc5, 0xcc⟩

theorem isPostState_childHeadState :
    ForkChoice.IsPostState (·.bodyRoot) gapTree 0xcc childHeadState := by
  have hgenesis : ForkChoice.IsPostState (·.bodyRoot) gapTree 0xaa genesisHeadState :=
    .genesis rfl rfl rfl
  have hanchor : ForkChoice.IsPostState (·.bodyRoot) gapTree 0xbb anchorHeadState :=
    .block rfl hgenesis (by decide) rfl rfl rfl rfl rfl
  exact .block rfl hanchor (by decide) rfl rfl rfl rfl rfl

/-- The child of the anchor block. -/
def childCall : Call :=
  .onBlock (ForkChoice.plainBlock 9 0xcc 0xbb) childHeadState.toBeaconState
    (some (ForkChoice.lateData none))

def childBlock : IProtoBlock :=
  ForkChoice.protoBlock (ForkChoice.plainBlock 9 0xcc 0xbb) childHeadState.toBeaconState .preMerge

/-- At the child, the target is the anchor block, and both checks say so. -/
theorem targetChecksMatch_iff_childBlock :
    (gapChoice.afterCalls [childCall]).protoArray.getBlock 0xcc = some childBlock ∧
      childBlock.targetRoot = 0xbb ∧
      TargetChecksMatch gapTree (gapChoice.afterCalls [childCall]) childBlock 10 := by
  have himports : ∀ call ∈ [childCall], call.Imports (·.bodyRoot) gapTree := by
    intro call hcall
    obtain rfl := List.mem_singleton.mp hcall
    exact ⟨⟨⟨9, 1, 0xbb, 0xc5, 0xcc⟩, rfl, rfl, rfl⟩, _, isPostState_childHeadState⟩
  have hhead : (gapChoice.afterCalls [childCall]).protoArray.getBlock 0xcc = some childBlock := by
    decide +kernel
  exact ⟨hhead, by decide +kernel,
    (targetChecksMatch_iff gapChoice_anchored rfl himports hhead (by decide)).mpr (by decide)⟩

end Lodestar.Chain
