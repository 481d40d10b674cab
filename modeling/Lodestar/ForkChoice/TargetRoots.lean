import Lodestar.ForkChoice.BlockTree
import Lodestar.ForkChoice.Checkpoints

/-!
# The target roots of the nodes

`onBlock` keeps a target root with each block, which it takes from the block's
post state. Along a run from an anchor it is the block's ancestor at the start
of its epoch, except at the anchor block, which is its own target (`HasTarget`).
-/

namespace Lodestar.ForkChoice

open Lodestar.Base Lodestar.StateTransition

/-! ## The blocks of the nodes -/

namespace ProtoArray

variable {this this' : ProtoArray} {P : IProtoBlock → Prop}

def AllBlocks (P : IProtoBlock → Prop) (this : ProtoArray) : Prop :=
  ∀ node ∈ this.nodes, P node.toIProtoBlock

namespace AllBlocks

theorem congr (h : this.AllBlocks P) (hs : SameTree this this') : this'.AllBlocks P := by
  intro node hnode
  obtain ⟨i, hi⟩ := List.mem_iff_getElem?.mp hnode
  have hsame := hs i
  rw [hi, Option.map_some, eq_comm, Option.map_eq_some_iff] at hsame
  obtain ⟨old, hold, heq⟩ := hsame
  rw [← (Prod.mk.inj heq).2]
  exact h old (List.mem_of_getElem? hold)

theorem dropNodes (h : this.AllBlocks P) (n : Nat) : (this.dropNodes n).AllBlocks P := by
  intro node hnode
  obtain ⟨old, hold, rfl⟩ := List.mem_map.mp hnode
  exact h old (List.mem_of_mem_drop hold)

theorem onBlock (h : this.AllBlocks P) (hw : this.Wf) {block : IProtoBlock} (hblock : P block)
    (hcall : this.onBlock block = .ok this') : this'.AllBlocks P := by
  rcases onBlock_eq hw block with ⟨-, heq⟩ | ⟨hnew, l, -, -, heq⟩
  · cases hcall.symm.trans heq
    exact h
  · cases hcall.symm.trans heq
    have hadd : (this.addNode block).AllBlocks P := by
      intro node hnode
      rcases List.mem_append.mp hnode with hold | hlast
      · exact h node hold
      · obtain rfl := List.mem_singleton.mp hlast
        exact hblock
    exact hadd.congr (sameTree_relink l)

theorem applyScoreChanges (h : this.AllBlocks P) (hw : this.Wf) {changes : ScoreChanges}
    (hcall : this.applyScoreChanges changes = .ok this') : this'.AllBlocks P := by
  have heq := applyScoreChanges_eq hw changes (length_deltas hw hcall)
  cases hcall.symm.trans heq
  exact (h.congr (sameTree_scored hw.toTree changes)).congr (sameTree_relink _)

theorem quietStep (h : this.AllBlocks P) (hw : this.Wf) (hstep : QuietStep this this') :
    this'.AllBlocks P := by
  cases hstep with
  | applyScoreChanges changes hcall => exact h.applyScoreChanges hw hcall
  | maybePrune finalizedRoot removed hcall =>
    rw [maybePrune_eq hw] at hcall
    cases hn : this.indices[finalizedRoot]? with
    | none =>
      rw [hn] at hcall
      cases hcall
    | some n =>
      simp only [hn] at hcall
      split at hcall
      · cases hcall
        exact h
      · cases hcall
        exact h.dropNodes n
  | setPruneThreshold threshold => exact h

theorem quietRun (h : this.AllBlocks P) (hw : this.Wf)
    (hrun : Relation.ReflTransGen QuietStep this this') : this'.AllBlocks P := by
  have hkeeps : this'.AllBlocks P ∧ this'.Wf := by
    induction hrun with
    | refl => exact ⟨h, hw⟩
    | tail _ hstep ih => exact ⟨ih.1.quietStep ih.2 hstep, ih.2.step hstep.step⟩
  exact hkeeps.1

end AllBlocks

theorem Tree.of_getBlock (h : this.Tree) {root : RootHex} {block : IProtoBlock}
    (hblock : this.getBlock root = some block) :
    block.blockRoot = root ∧ ∃ node ∈ this.nodes, node.toIProtoBlock = block := by
  obtain ⟨node, hnode, rfl⟩ := Option.map_eq_some_iff.mp hblock
  obtain ⟨i, hi, hget⟩ := getNode_eq_some.mp hnode
  obtain ⟨node', hget', hroot⟩ := h.indices_iff.mp hi
  obtain rfl := Option.some.inj (hget.symm.trans hget')
  exact ⟨hroot, node, List.mem_of_getElem? hget, rfl⟩

end ProtoArray

variable [Preset] {hashTreeRoot : BeaconBlockHeader → Root} {tree : BlockTree} {anchor : Anchor}
  {this : ForkChoice}

/-! ## A block of the tree -/

/-- The block is one of the tree, and the state is its post state. -/
def IsImported (hashTreeRoot : BeaconBlockHeader → Root) (tree : BlockTree) (block : BeaconBlock)
    (state : BeaconState) : Prop :=
  (∃ header, tree.header block.hashTreeRoot = some header ∧ header.slot = block.slot ∧
    header.parentRoot = block.parentRoot) ∧
  ∃ latestBlockHeader, IsPostState hashTreeRoot tree block.hashTreeRoot ⟨state, latestBlockHeader⟩

theorem IsImported.getAncestor {block : BeaconBlock} {state : BeaconState}
    (h : IsImported hashTreeRoot tree block state) :
    tree.getAncestor block.hashTreeRoot (computeStartSlotAtEpoch (computeEpochAtSlot block.slot))
      = some (blockTargetRoot block state) := by
  obtain ⟨⟨header, hheader, hslot, -⟩, latestBlockHeader, hpost⟩ := h
  obtain ⟨header', hheader', hstate, hpast⟩ := hpost.holdsPast
  obtain rfl := Option.some.inj (hheader.symm.trans hheader')
  rw [blockTargetRoot]
  split_ifs with hstart
  · exact BlockTree.getAncestor_of_le hheader (hslot.trans hstart).le
  · rw [hstate, hslot] at hpast
    have hle := startSlot_le block.slot
    have hlt := lt_startSlot_add block.slot
    have hroom := Preset.SLOTS_PER_HISTORICAL_ROOT_ge
    exact hpast _ Preset.SLOTS_PER_HISTORICAL_ROOT_pos (lt_of_le_of_ne hle (Ne.symm hstart))
      (by omega)

/-- The call's block, if it has one, is imported. -/
def Call.Imports (hashTreeRoot : BeaconBlockHeader → Root) (tree : BlockTree) : Call → Prop
  | .onBlock block state _ => IsImported hashTreeRoot tree block state
  | _ => True

/-! ## The target roots -/

/-- The block's target root is that of its ancestor, or the block is the anchor block. -/
structure HasTarget (tree : BlockTree) (anchor : Anchor) (block : IProtoBlock) : Prop where
  header : ∃ header, tree.header block.blockRoot = some header ∧ header.slot = block.slot
  slot_ge : anchor.blockHeader.slot ≤ block.slot
  anchored : block.blockRoot = anchor.checkpoint.root → block.targetRoot = anchor.checkpoint.root
  target : block.blockRoot ≠ anchor.checkpoint.root →
    tree.getAncestor block.blockRoot (computeStartSlotAtEpoch (computeEpochAtSlot block.slot))
      = some block.targetRoot

theorem IsImported.hasTarget {block : BeaconBlock} {state : BeaconState}
    (h : IsImported hashTreeRoot tree block state)
    (hanchor : tree.header anchor.checkpoint.root = some anchor.blockHeader) {parent : IProtoBlock}
    (hparent : HasTarget tree anchor parent) (hroot : parent.blockRoot = block.parentRoot)
    (execution : BlockExecution) : HasTarget tree anchor (protoBlock block state execution) := by
  obtain ⟨header, hheader, hslot, hparentRoot⟩ := h.1
  obtain ⟨parentHeader, hparentHeader, hparentSlot⟩ := hparent.header
  have hlt : anchor.blockHeader.slot < block.slot := by
    rw [hroot, ← hparentRoot] at hparentHeader
    have hslots := tree.slot_lt hheader hparentHeader
    have hge := hparent.slot_ge
    omega
  refine ⟨⟨header, hheader, hslot⟩, hlt.le, fun heq => ?_, fun _ => h.getAncestor⟩
  have heq' : block.hashTreeRoot = anchor.checkpoint.root := heq
  rw [heq', hanchor] at hheader
  obtain rfl := Option.some.inj hheader
  omega

theorem hasBlock_of_entryChecks {block : BeaconBlock} {state : BeaconState}
    {preCachedData : Option OnBlockPrecachedData}
    (h : this.entryChecks block state preCachedData = .ok ()) :
    this.protoArray.hasBlock block.parentRoot = true := by
  by_contra hunknown
  rw [entryChecks, checkBlock] at h
  simp only [Bool.not_eq_true _ ▸ hunknown, Bool.not_false, if_true] at h
  cases h

theorem allBlocks_apply (hr : this.Reachable)
    (hanchor : tree.header anchor.checkpoint.root = some anchor.blockHeader) {call : Call}
    (himports : call.Imports hashTreeRoot tree)
    (h : this.protoArray.AllBlocks (HasTarget tree anchor)) :
    (stateOf (call.apply.run this)).protoArray.AllBlocks (HasTarget tree anchor) := by
  have hw := hr.protoArray_reachable.wf
  by_cases honBlock : ∃ block state preCachedData, call = .onBlock block state preCachedData
  · obtain ⟨block, state, preCachedData, rfl⟩ := honBlock
    rcases protoArray_onBlock this block state preCachedData with heq | ⟨hchecks, execution, hcall⟩
    · exact heq ▸ h
    · obtain ⟨i, hi⟩ := ProtoArray.hasBlock_eq_true.mp (hasBlock_of_entryChecks hchecks)
      obtain ⟨parent, hparent, hroot⟩ := hw.indices_iff.mp hi
      have hhas : IsImported hashTreeRoot tree block state := himports
      exact h.onBlock hw (hhas.hasTarget hanchor (h parent (List.mem_of_getElem? hparent)) hroot
        execution) hcall
  · refine h.quietRun hw (QuietMoves.apply (fun block state preCachedData heq => ?_) this)
    exact honBlock ⟨block, state, preCachedData, heq⟩

theorem allBlocks_afterCalls (hr : this.Reachable)
    (hanchor : tree.header anchor.checkpoint.root = some anchor.blockHeader) {calls : List Call}
    (himports : ∀ call ∈ calls, call.Imports hashTreeRoot tree)
    (h : this.protoArray.AllBlocks (HasTarget tree anchor)) :
    (this.afterCalls calls).protoArray.AllBlocks (HasTarget tree anchor) := by
  induction calls generalizing this with
  | nil => exact h
  | cons call calls ih =>
    obtain ⟨hcall, hcalls⟩ := List.forall_mem_cons.mp himports
    exact ih (hr.step ⟨call, rfl⟩) hcalls (allBlocks_apply hr hanchor hcall h)

theorem allBlocks_of_anchor {config : ChainConfig} {currentSlot : Nat} {proposerBoostEnabled : Bool}
    (hinit : initializeForkChoice config currentSlot anchor proposerBoostEnabled = .ok this)
    (hanchor : tree.header anchor.checkpoint.root = some anchor.blockHeader) :
    this.protoArray.AllBlocks (HasTarget tree anchor) := by
  obtain ⟨protoArray, harray, -, -, hmoved⟩ := initializeForkChoice_ok hinit
  have hblock : HasTarget tree anchor { anchor.protoBlock with targetRoot := anchor.checkpoint.root } :=
    ⟨⟨anchor.blockHeader, hanchor, rfl⟩, le_rfl, fun _ => rfl, fun hne => absurd rfl hne⟩
  have hfirst : protoArray.AllBlocks (HasTarget tree anchor) := by
    refine ProtoArray.AllBlocks.onBlock (fun node hnode => ?_) (ProtoArray.Wf.empty ..) hblock harray
    exact absurd hnode List.not_mem_nil
  rcases hmoved with heq | ⟨changes, hcall⟩
  · exact heq ▸ hfirst
  · have hw : protoArray.Wf := ProtoArray.Reachable.wf ⟨_, _, _, _, _, .single (.onBlock _ harray)⟩
    exact hfirst.applyScoreChanges hw hcall

end Lodestar.ForkChoice
