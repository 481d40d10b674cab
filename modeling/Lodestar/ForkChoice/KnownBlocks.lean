import Lodestar.ForkChoice.Ancestry
import Lodestar.ForkChoice.TargetRoots

/-!
# The blocks that a fork choice knows

`hasBlockHex` asks for a block that is the finalized one or below it. Blocks that
were cut off from the finalized one stay in the array for a while, but no block
that the finalized one is an ancestor of is among them (`Rooted`).
-/

namespace Lodestar.ForkChoice

open Lodestar.Base Lodestar.StateTransition

/-! ## Ancestors in the tree -/

namespace BlockTree

variable {tree : BlockTree} {root ancestor other : Root}

/-- The ancestor is the block itself or above it. -/
def Below (tree : BlockTree) : Root → Root → Prop :=
  Relation.ReflTransGen fun child parent =>
    ∃ header, tree.header child = some header ∧ header.parentRoot = parent

theorem Below.slot_lt (h : tree.Below root ancestor) (hne : root ≠ ancestor)
    {header above : BeaconBlockHeader} (hheader : tree.header root = some header)
    (habove : tree.header ancestor = some above) : above.slot < header.slot := by
  induction h using Relation.ReflTransGen.head_induction_on generalizing header with
  | refl => exact absurd rfl hne
  | @head child parent hstep hpath ih =>
    obtain ⟨header', hheader', rfl⟩ := hstep
    obtain rfl := Option.some.inj (hheader'.symm.trans hheader)
    by_cases heq : header'.parentRoot = ancestor
    · rw [← heq] at habove
      exact tree.slot_lt hheader habove
    · obtain ⟨middle, ⟨parent, hparent, -⟩, -⟩ := hpath.cases_head.resolve_left heq
      exact (ih heq hparent).trans (tree.slot_lt hheader hparent)

theorem Below.antisymm (h : tree.Below root ancestor) (h' : tree.Below ancestor root) :
    root = ancestor := by
  by_contra hne
  obtain ⟨middle, ⟨header, hheader, -⟩, -⟩ := h.cases_head.resolve_left hne
  obtain ⟨middle', ⟨above, habove, -⟩, -⟩ := h'.cases_head.resolve_left (Ne.symm hne)
  exact lt_asymm (h.slot_lt hne hheader habove) (h'.slot_lt (Ne.symm hne) habove hheader)

/-- The tree has the block. -/
def Has (tree : BlockTree) (block : IProtoBlock) : Prop :=
  ∃ header, tree.header block.blockRoot = some header ∧ header.slot = block.slot ∧
    header.parentRoot = block.parentRoot

end BlockTree

/-! ## Ancestors in the array -/

namespace ProtoArray

variable {this this' : ProtoArray} {tree : BlockTree} {root ancestor : RootHex} {i a : Nat}

theorem below_of_descends (h : this.ParentRoots) (hall : this.AllBlocks tree.Has)
    (hd : Relation.ReflTransGen (fun c p => this.parentOf c = some p) i a)
    {node above : IProtoNode} (hnode : this.nodes[i]? = some node)
    (habove : this.nodes[a]? = some above) : tree.Below node.blockRoot above.blockRoot := by
  induction hd generalizing above with
  | refl =>
    obtain rfl := Option.some.inj (hnode.symm.trans habove)
    exact .refl
  | @tail c p _ hp ih =>
    obtain ⟨child, hchild, hparent⟩ := Option.bind_eq_some_iff.mp hp
    obtain ⟨parent, hget, hroot⟩ := h c p child hchild hparent
    obtain rfl := Option.some.inj (hget.symm.trans habove)
    obtain ⟨header, hheader, -, hparentRoot⟩ := hall child (List.mem_of_getElem? hchild)
    exact (ih hchild).tail ⟨header, hheader, hparentRoot.trans hroot.symm⟩

theorem IsDescendant.below (h : this.IsDescendant ancestor root) (hs : this.Sound)
    (hall : this.AllBlocks tree.Has) : tree.Below root ancestor := by
  obtain ⟨a, i, ha, hi, hd⟩ := h
  obtain ⟨above, habove, haroot⟩ := hs.indices_iff.mp ha
  obtain ⟨node, hnode, hroot⟩ := hs.indices_iff.mp hi
  rw [← haroot, ← hroot]
  exact below_of_descends hs.parentRoots hall hd hnode habove

theorem AllBlocks.slotsIncrease (hall : this.AllBlocks tree.Has) (h : this.ParentRoots) :
    this.SlotsIncrease := by
  intro node hnode parent hparent
  obtain ⟨p, hp, hget⟩ := Option.bind_eq_some_iff.mp (Option.mem_def.mp hparent)
  obtain ⟨c, hc⟩ := List.mem_iff_getElem?.mp hnode
  obtain ⟨parent', hget', hroot⟩ := h c p node hc hp
  obtain rfl := Option.some.inj (hget'.symm.trans hget)
  obtain ⟨header, hheader, hslot, hparentRoot⟩ := hall node hnode
  obtain ⟨above, habove, haslot, -⟩ := hall _ (List.mem_of_getElem? hget)
  rw [← hslot, ← haslot]
  rw [hroot, ← hparentRoot] at habove
  exact tree.slot_lt hheader habove

theorem IsDescendant.trans {middle : RootHex} (h : this.IsDescendant ancestor middle)
    (h' : this.IsDescendant middle root) : this.IsDescendant ancestor root := by
  obtain ⟨a, m, ha, hm, hd⟩ := h
  obtain ⟨m', i, hm', hi, hd'⟩ := h'
  obtain rfl : m = m' := Option.some.inj (hm.symm.trans hm')
  exact ⟨a, i, ha, hi, hd'.trans hd⟩

theorem IsDescendant.of_onBlock {block : IProtoBlock}
    (h : this.IsDescendant ancestor block.parentRoot) (hw : this.Wf)
    (hnew : this.indices[block.blockRoot]? = none) (hcall : this.onBlock block = .ok this') :
    this'.IsDescendant ancestor block.blockRoot := by
  rcases onBlock_eq hw block with ⟨⟨i, hi⟩, -⟩ | ⟨-, l, -, -, heq⟩
  · rw [hnew] at hi
    cases hi
  · cases hcall.symm.trans heq
    obtain ⟨a, p, ha, hp, hd⟩ := h
    have hlast : (this.addNode block).indices[block.blockRoot]? = some this.nodes.length := by
      rw [addNode]
      exact Std.TreeMap.getElem?_insert_self
    have hparent : (this.addNode block).parentOf this.nodes.length = some p := by
      rw [parentOf, getElem?_addNode_length]
      exact hp
    have hlt : p < this.nodes.length := hw.toTree.lt_length_of_index hp
    have hadd : (this.addNode block).IsDescendant ancestor block.blockRoot :=
      ⟨a, this.nodes.length, getElem?_indices_addNode hnew ha, hlast,
        .head hparent (descends_addNode hw.toTree hnew hlt hd)⟩
    exact hadd.congr (sameTree_relink l) rfl

theorem hasBlock_onBlock {block : IProtoBlock} (hw : this.Wf)
    (hcall : this.onBlock block = .ok this') :
    this'.hasBlock root = true ↔ this.hasBlock root = true ∨ root = block.blockRoot := by
  rw [hasBlock_eq_true, hasBlock_eq_true]
  rcases onBlock_eq hw block with ⟨hknown, heq⟩ | ⟨hnew, l, -, -, heq⟩
  · cases hcall.symm.trans heq
    refine ⟨.inl, fun h => h.elim id ?_⟩
    rintro rfl
    exact hknown
  · cases hcall.symm.trans heq
    change (∃ i, (this.indices.insert block.blockRoot this.nodes.length)[root]? = some i) ↔ _
    rw [Std.TreeMap.getElem?_insert]
    split_ifs with hcmp
    · have hroot := Std.LawfulEqCmp.eq_of_compare hcmp
      exact iff_of_true ⟨_, rfl⟩ (.inr hroot.symm)
    · have hne : root ≠ block.blockRoot := by
        rintro rfl
        exact hcmp Std.ReflCmp.compare_self
      exact (or_iff_left hne).symm

theorem IsDescendant.dropNodes {n : Nat} (h : this.IsDescendant ancestor root) (ht : this.Tree)
    (hn : ∀ a, this.indices[ancestor]? = some a → n ≤ a) :
    (this.dropNodes n).IsDescendant ancestor root := by
  obtain ⟨a, i, ha, hi, hd⟩ := h
  have hle := hn a ha
  have hai : a ≤ i := Forest.Descends.le (f := this.forest ht) hd
  refine ⟨a - n, i - n, getElem?_indices_dropNodes ht ha hle,
    getElem?_indices_dropNodes ht hi (hle.trans hai), ?_⟩
  have hdrop : ((this.forest ht).drop n).Descends (i - n) (a - n) := by
    rw [Forest.descends_drop_iff, Nat.sub_add_cancel hle, Nat.sub_add_cancel (hle.trans hai)]
    exact hd
  rw [← forest_dropNodes ht] at hdrop
  exact hdrop

theorem IsDescendant.of_below {middle : RootHex} (h : this.IsDescendant ancestor root)
    (hs : this.Sound) (hall : this.AllBlocks tree.Has) (hbelow : tree.Below root middle)
    (habove : tree.Below middle ancestor) : this.IsDescendant middle root := by
  induction hbelow using Relation.ReflTransGen.head_induction_on with
  | refl =>
    obtain ⟨a, i, -, hi, -⟩ := h
    exact .refl hi
  | @head child parent hstep hpath ih =>
    obtain ⟨a, i, ha, hi, hd⟩ := h
    by_cases heq : child = ancestor
    · -- the way is a circle
      subst heq
      obtain rfl := BlockTree.Below.antisymm (.head hstep hpath) habove
      exact .refl hi
    · obtain ⟨header, hheader, rfl⟩ := hstep
      have hne : i ≠ a := by
        rintro rfl
        obtain ⟨node, hnode, hroot⟩ := hs.indices_iff.mp hi
        obtain ⟨above, habove, haroot⟩ := hs.indices_iff.mp ha
        obtain rfl := Option.some.inj (hnode.symm.trans habove)
        exact heq (hroot.symm.trans haroot)
      obtain ⟨p, hp, hd⟩ := hd.cases_head.resolve_left hne
      obtain ⟨node, hnode, hparent⟩ := Option.bind_eq_some_iff.mp hp
      obtain ⟨node', hnode', hroot⟩ := hs.indices_iff.mp hi
      obtain rfl := Option.some.inj (hnode.symm.trans hnode')
      obtain ⟨header', hheader', -, hparentRoot⟩ := hall node (List.mem_of_getElem? hnode)
      rw [hroot] at hheader'
      obtain rfl := Option.some.inj (hheader.symm.trans hheader')
      obtain ⟨parent, hget, hparentName⟩ := hs.parentRoots i p node hnode hparent
      have hindex : this.indices[header.parentRoot]? = some p :=
        hs.indices_iff.mpr ⟨parent, hget, hparentName.trans hparentRoot.symm⟩
      obtain ⟨m, p', hm, hp', hd'⟩ := ih ⟨a, p, ha, hindex, hd⟩
      obtain rfl := Option.some.inj (hindex.symm.trans hp')
      exact ⟨m, i, hm, hi, .head hp hd'⟩

end ProtoArray

/-! ## The fork choice over the tree -/

variable [Preset] {tree : BlockTree} {this this' : ForkChoice} {root : RootHex}

/-- The blocks of the array are blocks of the tree, the finalized one is among them, and those that
it is an ancestor of are below it in the array as well. -/
structure Rooted (tree : BlockTree) (this : ForkChoice) : Prop where
  array : this.protoArray.Reachable
  blocks : this.protoArray.AllBlocks tree.Has
  finalized : this.protoArray.hasBlock this.fcStore.finalizedCheckpoint.rootHex = true
  below : ∀ root, this.protoArray.hasBlock root = true →
    tree.Below root this.fcStore.finalizedCheckpoint.rootHex →
      this.protoArray.IsDescendant this.fcStore.finalizedCheckpoint.rootHex root
  head : this.head.isSome

/-- A block of the tree, with checkpoints of its chain. -/
structure FollowsTree (tree : BlockTree) (this : ForkChoice) (block : BeaconBlock)
    (state : BeaconState) : Prop where
  header : ∃ header, tree.header block.hashTreeRoot = some header ∧ header.slot = block.slot ∧
    header.parentRoot = block.parentRoot
  onChain : OnChain this block state

/-- Blocks are those of the tree, and nothing after the finalized block is pruned away. -/
def Call.Follows (tree : BlockTree) (this : ForkChoice) : Call → Prop
  | .onBlock block state _ => FollowsTree tree this block state
  | .prune finalizedRoot => this.protoArray.hasBlock finalizedRoot = true →
      this.protoArray.IsDescendant finalizedRoot this.fcStore.finalizedCheckpoint.rootHex
  | _ => True

theorem fcStore_addBlock (block : BeaconBlock) (state : BeaconState)
    (preCachedData : Option OnBlockPrecachedData) :
    (stateOf ((addBlock block state preCachedData).run this)).fcStore = this.fcStore := by
  rw [addBlock_run]
  cases blockExecution block state preCachedData with
  | error e => rfl
  | ok execution =>
    dsimp only
    cases this.protoArray.onBlock (protoBlock block state execution) <;> rfl

theorem finalizedCheckpoint_onBlock (this : ForkChoice) (block : BeaconBlock) (state : BeaconState)
    (preCachedData : Option OnBlockPrecachedData) :
    (stateOf ((onBlock block state preCachedData).run this)).fcStore.finalizedCheckpoint
        = this.fcStore.finalizedCheckpoint ∨
      this.entryChecks block state preCachedData = .ok () ∧ this.RaisesFinalized state ∧
        (stateOf ((onBlock block state preCachedData).run this)).fcStore.finalizedCheckpoint
          = toCheckpointWithHex state.finalizedCheckpoint := by
  rw [onBlock_run]
  cases this.entryChecks block state preCachedData with
  | error e => exact .inl rfl
  | ok _ =>
    dsimp only
    rcases updateCheckpoints_cases this state preCachedData with
      ⟨-, -, hrun⟩ | ⟨-, hf, -, hrun⟩ | ⟨balances, -, hrun⟩ <;> rw [hrun]
    · exact .inl rfl
    · exact .inr ⟨rfl, hf, rfl⟩
    · cases this.takesJustified state with
      | error e => exact .inl (finalizedCheckpoint_withBest state balances)
      | ok takes =>
        dsimp only
        have hstore : (this.withCheckpoints state balances takes).fcStore.finalizedCheckpoint
              = this.fcStore.finalizedCheckpoint ∨ this.RaisesFinalized state ∧
            (this.withCheckpoints state balances takes).fcStore.finalizedCheckpoint
              = toCheckpointWithHex state.finalizedCheckpoint := by
          rw [finalizedCheckpoint_withCheckpoints]
          split_ifs with hf
          · exact .inr ⟨hf, rfl⟩
          · exact .inl rfl
        rcases updateProposerBoost_run (this.withCheckpoints state balances takes) block
          preCachedData with hboost | ⟨-, e, hboost⟩ <;> rw [hboost] <;> dsimp only
        · rw [fcStore_addBlock, fcStore_withBoost]
          exact hstore.imp_right fun h => ⟨rfl, h⟩
        · exact hstore.imp_right fun h => ⟨rfl, h⟩

theorem Rooted.onBlock (h : Rooted tree this) {block : BeaconBlock} {state : BeaconState}
    (hfollows : FollowsTree tree this block state)
    (preCachedData : Option OnBlockPrecachedData) :
    Rooted tree (stateOf ((onBlock block state preCachedData).run this)) := by
  have hw := h.array.wf
  have hreach := ArrayMoves.apply (.onBlock block state preCachedData) this
  have hframe : Frame fun this : ForkChoice => this.head :=
    ⟨fun _ _ _ => rfl, fun _ _ _ => rfl, fun _ _ => rfl⟩
  have hhead : (stateOf ((ForkChoice.onBlock block state preCachedData).run this)).head
      = this.head := by
    refine hframe.onBlock (fun that block preCachedData => ?_) (fun _ _ => rfl) block state _
    rw [withBoost]
    split <;> rfl
  have hfinalized := finalizedCheckpoint_onBlock this block state preCachedData
  have hcalls := protoArray_onBlock this block state preCachedData
  change Relation.ReflTransGen _ _ (stateOf ((ForkChoice.onBlock block state preCachedData).run
    this)).protoArray at hreach
  generalize stateOf ((ForkChoice.onBlock block state preCachedData).run this) = that at *
  have harray : that.protoArray.Reachable := h.array.run hreach
  -- first with the finalized block there was
  have hkept : that.protoArray.AllBlocks tree.Has ∧
      (∀ {ancestor root}, this.protoArray.IsDescendant ancestor root →
        that.protoArray.IsDescendant ancestor root) ∧
      ∀ root, that.protoArray.hasBlock root = true →
        tree.Below root this.fcStore.finalizedCheckpoint.rootHex →
          that.protoArray.IsDescendant this.fcStore.finalizedCheckpoint.rootHex root := by
    rcases hcalls with heq | ⟨hchecks, execution, hcall⟩
    · rw [heq]
      exact ⟨h.blocks, id, h.below⟩
    · have hhas : tree.Has (protoBlock block state execution) := hfollows.header
      refine ⟨h.blocks.onBlock hw hhas hcall, fun hd => hd.onBlock hw hcall, ?_⟩
      intro root hroot hbelow
      cases hold : this.protoArray.hasBlock root with
      | true => exact (h.below root hold hbelow).onBlock hw hcall
      | false =>
        obtain rfl :=
          ((ProtoArray.hasBlock_onBlock hw hcall).mp hroot).resolve_left (by simp [hold])
        have hparent := isDescendant_of_getAncestor_self hw.toTree (getAncestor_of_entryChecks hchecks)
        refine ProtoArray.IsDescendant.of_onBlock hparent hw ?_ hcall
        rw [ProtoArray.hasBlock, Std.TreeMap.contains_eq_isSome_getElem?] at hold
        exact Option.not_isSome_iff_eq_none.mp (by simp [hold])
  obtain ⟨hblocks, hmono, hbelow⟩ := hkept
  rcases hfinalized with heq | ⟨hchecks, hraises, heq⟩
  · refine ⟨harray, hblocks, ?_, by rwa [heq], by rw [hhead]; exact h.head⟩
    obtain ⟨i, hi⟩ := ProtoArray.hasBlock_eq_true.mp h.finalized
    obtain ⟨a, -, ha, -⟩ := hmono (.refl hi)
    rw [heq]
    exact ProtoArray.hasBlock_eq_true.mpr ⟨a, ha⟩
  · -- the new finalized block is between the block and the one there was
    have honChain : this.IsOnChain block state.finalizedCheckpoint :=
      hfollows.onChain _ (List.mem_cons_of_mem _ (List.mem_cons_self ..)) hraises
    have hdesc := hmono (isDescendant_of_getAncestor hw.toTree honChain
      (getAncestor_of_entryChecks hchecks) (computeStartSlotAtEpoch_mono hraises.le))
    have hsound := harray.sound
    refine ⟨harray, hblocks, ?_, ?_, by rw [hhead]; exact h.head⟩
    · obtain ⟨-, i, -, hi, -⟩ := hdesc
      rw [heq]
      exact ProtoArray.hasBlock_eq_true.mpr ⟨i, hi⟩
    · rw [heq]
      intro root hroot hpath
      have habove := hdesc.below hsound hblocks
      exact (hbelow root hroot (hpath.trans habove)).of_below hsound hblocks hpath habove

/-! ## The other calls -/

omit [Preset] in
theorem Rooted.congr (h : Rooted tree this) (harray : this'.protoArray = this.protoArray)
    (hfinalized : this'.fcStore.finalizedCheckpoint = this.fcStore.finalizedCheckpoint)
    (hhead : this'.head.isSome) : Rooted tree this' := by
  refine ⟨?_, ?_, ?_, ?_, hhead⟩ <;> rw [harray]
  · exact h.array
  · exact h.blocks
  · rw [hfinalized]
    exact h.finalized
  · rw [hfinalized]
    exact h.below

/-- The same blocks are in the array, and the same one is finalized. -/
structure SameBlocks (this this' : ForkChoice) : Prop where
  indices : this'.protoArray.indices = this.protoArray.indices
  finalized : this'.fcStore.finalizedCheckpoint = this.fcStore.finalizedCheckpoint

omit [Preset] in
theorem SameBlocks.trans {this'' : ForkChoice} (h : SameBlocks this this')
    (h' : SameBlocks this' this'') : SameBlocks this this'' :=
  ⟨h'.indices.trans h.indices, h'.finalized.trans h.finalized⟩

theorem Rooted.onAttestation (h : Rooted tree this) (attestation : IndexedAttestation) :
    Rooted tree (stateOf ((onAttestation attestation).run this)) ∧
      SameBlocks this (stateOf ((onAttestation attestation).run this)) := by
  rcases onAttestation_run this attestation with ⟨e, hrun⟩ | ⟨-, hrun⟩ | ⟨-, seen, hrun⟩ <;>
    rw [hrun]
  · exact ⟨h, rfl, rfl⟩
  · exact ⟨h, rfl, rfl⟩
  · obtain ⟨queue, votes, synced, heq⟩ :=
      exists_withAttestation { this with validatedAttestationDatas := seen } attestation
    rw [heq]
    exact ⟨h.congr rfl rfl h.head, rfl, rfl⟩

theorem Rooted.updateTime (h : Rooted tree this) (currentSlot : Nat) :
    Rooted tree (stateOf ((updateTime currentSlot).run this)) := by
  have hticks : Rooted tree
      (stateOf ((tickSlots (currentSlot - this.fcStore.currentSlot)).run this)) := by
    refine tickSlots_preserves (P := Rooted tree) (fun that time h => ?_)
      (fun that pulls _ h => ?_) _ h
    · refine h.congr (protoArray_setTime time) (by rw [fcStore_setTime]) ?_
      rw [setTime]
      split <;> exact h.head
    · refine h.congr (protoArray_pulledUp pulls) (by rw [fcStore_pulledUp]) ?_
      rw [pulledUp]
      split <;> exact h.head
  rw [updateTime_run]
  cases hrun : (tickSlots (currentSlot - this.fcStore.currentSlot)).run this with
  | error e that =>
    rw [hrun] at hticks
    exact hticks
  | ok _ that =>
    have hthat : Rooted tree that := by rwa [hrun] at hticks
    have hdrained : Rooted tree that.drained := by
      refine hthat.congr protoArray_drained (by rw [fcStore_drained]) ?_
      obtain ⟨votes, synced, heq⟩ := that.exists_processAttestationQueue
      rw [drained, heq]
      exact hthat.head
    exact hdrained

omit [Preset] in
theorem Rooted.cacheHead (h : Rooted tree this) :
    Rooted tree (stateOf (cacheHead.run this)) ∧ SameBlocks this (stateOf (cacheHead.run this)) := by
  rcases cacheHead_run this with ⟨e, hrun⟩ | ⟨node, hrun⟩ <;> rw [hrun]
  · exact ⟨h, rfl, rfl⟩
  · exact ⟨h.congr rfl rfl rfl, rfl, rfl⟩

omit [Preset] in
theorem indices_applyScoreChanges (h : Rooted tree this) {changes : ProtoArray.ScoreChanges}
    {protoArray : ProtoArray} (hcall : this.protoArray.applyScoreChanges changes = .ok protoArray) :
    protoArray.indices = this.protoArray.indices := by
  have hw := h.array.wf
  have heq := ProtoArray.applyScoreChanges_eq hw changes (ProtoArray.length_deltas hw hcall)
  cases hcall.symm.trans heq
  rfl

omit [Preset] in
theorem Rooted.applyScoreChanges (h : Rooted tree this) {changes : ProtoArray.ScoreChanges}
    {protoArray : ProtoArray} (hcall : this.protoArray.applyScoreChanges changes = .ok protoArray)
    (harray : this'.protoArray = protoArray)
    (hfinalized : this'.fcStore.finalizedCheckpoint = this.fcStore.finalizedCheckpoint)
    (hhead : this'.head.isSome) : Rooted tree this' := by
  have hw := h.array.wf
  have hhas : ∀ root, protoArray.hasBlock root = this.protoArray.hasBlock root := fun root => by
    rw [ProtoArray.hasBlock, indices_applyScoreChanges h hcall, ProtoArray.hasBlock]
  subst harray
  refine ⟨h.array.step (.applyScoreChanges changes hcall), h.blocks.applyScoreChanges hw hcall, ?_,
    fun root hroot hbelow => ?_, hhead⟩
  · rw [hfinalized, hhas]
    exact h.finalized
  · rw [hfinalized] at hbelow ⊢
    exact (h.below root (hhas root ▸ hroot) hbelow).applyScoreChanges hw hcall

theorem Rooted.updateHead (h : Rooted tree this) :
    Rooted tree (stateOf (updateHead.run this)) ∧
      SameBlocks this (stateOf (updateHead.run this)) := by
  rw [updateHead_run]
  split
  · exact h.cacheHead
  · rw [updateScores_run]
    cases computeDeltas this.protoArray.indices this.votes this.justifiedBalances
        this.justifiedBalances with
    | error e => exact ⟨h, rfl, rfl⟩
    | ok result =>
      obtain ⟨deltas, votes⟩ := result
      dsimp only
      cases hcall : this.protoArray.applyScoreChanges (this.scoreChanges deltas) with
      | error e => exact ⟨h.congr rfl rfl h.head, rfl, rfl⟩
      | ok protoArray =>
        have hthat : Rooted tree { this.withVotes votes with protoArray, synced := true } :=
          h.applyScoreChanges hcall rfl rfl h.head
        have hscored : SameBlocks this { this.withVotes votes with protoArray, synced := true } :=
          ⟨indices_applyScoreChanges h hcall, rfl⟩
        exact hthat.cacheHead.imp_right hscored.trans

theorem Rooted.prune (h : Rooted tree this) {finalizedRoot : RootHex}
    (hfollows : (Call.prune finalizedRoot).Follows tree this) :
    Rooted tree (stateOf ((prune finalizedRoot).run this)) := by
  have hw := h.array.wf
  rw [prune_run]
  cases hcall : this.protoArray.maybePrune finalizedRoot with
  | error e => exact h
  | ok result =>
    obtain ⟨removed, protoArray⟩ := result
    have hstep := h.array.step (.maybePrune finalizedRoot removed hcall)
    rw [ProtoArray.maybePrune_eq hw] at hcall
    cases hn : this.protoArray.indices[finalizedRoot]? with
    | none =>
      rw [hn] at hcall
      cases hcall
    | some n =>
      simp only [hn] at hcall
      split at hcall <;> cases hcall
      · exact h.congr rfl rfl h.head
      · -- the finalized block is not before the one that is pruned up to
        obtain ⟨k, f, hk, hf, hd⟩ := hfollows (ProtoArray.hasBlock_eq_true.mpr ⟨n, hn⟩)
        obtain rfl := Option.some.inj (hn.symm.trans hk)
        have hle : n ≤ f := Forest.Descends.le (f := this.protoArray.forest hw.toTree) hd
        have hkeeps : ∀ {root}, this.protoArray.IsDescendant
            this.fcStore.finalizedCheckpoint.rootHex root →
            (this.protoArray.dropNodes n).IsDescendant
              this.fcStore.finalizedCheckpoint.rootHex root := by
          intro root hdesc
          refine hdesc.dropNodes hw.toTree fun a ha => ?_
          obtain rfl := Option.some.inj (hf.symm.trans ha)
          exact hle
        have hhas : ∀ root, (this.protoArray.dropNodes n).hasBlock root = true →
            this.protoArray.hasBlock root = true := by
          intro root hroot
          obtain ⟨i, hi⟩ := ProtoArray.hasBlock_eq_true.mp hroot
          obtain ⟨node, hnode, heq⟩ := (hw.toTree.dropNodes n).indices_iff.mp hi
          rw [ProtoArray.getElem?_dropNodes] at hnode
          obtain ⟨old, hold, rfl⟩ := Option.map_eq_some_iff.mp hnode
          exact ProtoArray.hasBlock_eq_true.mpr ⟨i + n, hw.indices_iff.mpr ⟨old, hold, heq⟩⟩
        refine ⟨hstep, h.blocks.dropNodes n, ?_, fun root hroot hbelow => ?_, h.head⟩
        · obtain ⟨a, -, ha, -⟩ := hkeeps (.refl hf)
          exact ProtoArray.hasBlock_eq_true.mpr ⟨a, ha⟩
        · exact hkeeps (h.below root (hhas root hroot) hbelow)

theorem Rooted.apply (h : Rooted tree this) {call : Call} (hfollows : call.Follows tree this) :
    Rooted tree (stateOf (call.apply.run this)) := by
  cases call with
  | onBlock block state preCachedData => exact h.onBlock hfollows preCachedData
  | onAttestation attestation => exact (h.onAttestation attestation).1
  | updateTime currentSlot => exact h.updateTime currentSlot
  | updateHead =>
    have hhead := h.updateHead.1
    rw [Call.apply, EStateM.run_bind]
    cases hrun : ForkChoice.updateHead.run this <;> rw [hrun] at hhead <;> exact hhead
  | prune finalizedRoot =>
    have hpruned := h.prune hfollows
    rw [Call.apply, EStateM.run_bind]
    cases hrun : (ForkChoice.prune finalizedRoot).run this <;> rw [hrun] at hpruned <;>
      exact hpruned
  | setPruneThreshold threshold =>
    exact ⟨h.array.step (.setPruneThreshold _ threshold), h.blocks, h.finalized, h.below, h.head⟩

omit [Preset] in
theorem head_of_cacheHead {node : IProtoNode} (h : cacheHead.run this = .ok node this') :
    this'.head = some node ∧ ∃ i : Nat, this'.protoArray.nodes[i]? = some node := by
  rw [ForkChoice.cacheHead, EStateM.run_bind, EStateM.run_get] at h
  simp only [EStateM.run_bind, run_ofExcept] at h
  cases hfind : this.protoArray.findHead this.fcStore.justifiedCheckpoint.rootHex with
  | error e =>
    rw [hfind] at h
    cases h
  | ok headRoot =>
    rw [hfind] at h
    simp only [Except.mapError, atState_ok] at h
    cases hnode : this.protoArray.getNode headRoot with
    | none =>
      rw [hnode] at h
      cases h
    | some node' =>
      rw [hnode] at h
      cases h
      obtain ⟨i, -, hi⟩ := ProtoArray.getNode_eq_some.mp hnode
      exact ⟨rfl, i, hi⟩

theorem head_of_updateHead {node : IProtoNode} (h : updateHead.run this = .ok node this') :
    this'.head = some node ∧ ∃ i : Nat, this'.protoArray.nodes[i]? = some node := by
  rw [updateHead_run] at h
  split at h
  · exact head_of_cacheHead h
  · split at h
    · exact head_of_cacheHead h
    · cases h

theorem Rooted.hasBlock_of_updateHead (h : Rooted tree this) {node : IProtoNode}
    (hrun : ForkChoice.updateHead.run this = .ok node this') :
    this'.protoArray.hasBlock node.blockRoot = true := by
  have hafter := h.updateHead.1
  rw [hrun, stateOf_ok] at hafter
  obtain ⟨-, i, hi⟩ := head_of_updateHead hrun
  exact ProtoArray.hasBlock_eq_true.mpr ⟨i, hafter.array.wf.indices_iff.mpr ⟨node, hi, rfl⟩⟩

theorem Created.isSome_head (h : Created this) : this.head.isSome := by
  obtain ⟨config, currentSlot, justified, finalized, protoArray, balances, boost, -, hnew⟩ := h
  obtain ⟨node, hrun⟩ := updateHead_of_new hnew
  rw [(head_of_updateHead hrun).1]
  rfl

omit [Preset] in
theorem rooted_of_initializeProtoArray {anchor : Anchor} {protoArray : ProtoArray}
    (h : ProtoArray.initializeProtoArray anchor.protoBlock = .ok protoArray)
    (hanchor : tree.header anchor.checkpoint.root = some anchor.blockHeader)
    (harray : this.protoArray = protoArray)
    (hfinalized : this.fcStore.finalizedCheckpoint.rootHex = anchor.checkpoint.root)
    (hhead : this.head.isSome) : Rooted tree this := by
  have hindex := getElem?_indices_initializeProtoArray h
  have hhas : tree.Has { anchor.protoBlock with targetRoot := anchor.checkpoint.root } :=
    ⟨anchor.blockHeader, hanchor, rfl, rfl⟩
  subst harray
  refine ⟨⟨_, _, _, _, _, .single (.onBlock _ h)⟩,
    ProtoArray.AllBlocks.onBlock (fun node hnode => absurd hnode List.not_mem_nil)
      (ProtoArray.Wf.empty ..) hhas h, ?_, fun root hroot hbelow => ?_, hhead⟩
  · rw [hfinalized]
    exact ProtoArray.hasBlock_eq_true.mpr ⟨0, hindex⟩
  · rw [hfinalized]
    rcases (ProtoArray.hasBlock_onBlock (ProtoArray.Wf.empty ..) h).mp hroot with hold | rfl
    · simp [ProtoArray.hasBlock, ProtoArray.empty] at hold
    · exact .refl hindex

theorem rooted_of_anchor {config : ChainConfig} {currentSlot : Nat} {anchor : Anchor}
    {proposerBoostEnabled : Bool}
    (hinit : initializeForkChoice config currentSlot anchor proposerBoostEnabled = .ok this)
    (hanchor : tree.header anchor.checkpoint.root = some anchor.blockHeader) :
    Rooted tree this := by
  obtain ⟨protoArray, harray, hstore, hcreated, hmoved⟩ := initializeForkChoice_ok hinit
  have hhead := hcreated.isSome_head
  rcases hmoved with heq | ⟨changes, hcall⟩
  · exact rooted_of_initializeProtoArray harray hanchor heq (by rw [hstore]; rfl) hhead
  · have hbefore : Rooted tree { this with protoArray } :=
      rooted_of_initializeProtoArray harray hanchor rfl (by rw [hstore]; rfl) hhead
    exact hbefore.applyScoreChanges hcall rfl rfl hhead

/-! ## Known blocks -/

/-- The block is the finalized one or below it. -/
def IsKnown (this : ForkChoice) (root : RootHex) : Prop :=
  this.protoArray.IsDescendant this.fcStore.finalizedCheckpoint.rootHex root

omit [Preset] in
theorem IsKnown.hasBlock (h : this.IsKnown root) : this.protoArray.hasBlock root = true := by
  obtain ⟨a, i, -, hi, -⟩ := h
  exact ProtoArray.hasBlock_eq_true.mpr ⟨i, hi⟩

theorem Rooted.isKnown_of_onBlock (h : Rooted tree this) {block : BeaconBlock}
    {state : BeaconState} (hfollows : FollowsTree tree this block state)
    {preCachedData : Option OnBlockPrecachedData} {u : Unit}
    (hrun : (ForkChoice.onBlock block state preCachedData).run this = .ok u this') :
    this'.IsKnown block.hashTreeRoot := by
  have hw := h.array.wf
  have hafter := h.onBlock hfollows preCachedData
  have hfinalized := finalizedCheckpoint_onBlock this block state preCachedData
  obtain ⟨hchecks, balances, takes, execution, protoArray, -, hcall, heq⟩ := onBlock_ok hrun
  rw [hrun, stateOf_ok] at hafter hfinalized
  obtain ⟨header, hheader, -, hparent⟩ := hfollows.header
  have hhas : this'.protoArray.hasBlock block.hashTreeRoot = true := by
    rw [heq]
    exact (ProtoArray.hasBlock_onBlock hw hcall).mpr (.inr rfl)
  -- the finalized block is the parent or above it
  have hbelow : tree.Below block.parentRoot this'.fcStore.finalizedCheckpoint.rootHex := by
    rcases hfinalized with heq | ⟨-, hraises, heq⟩ <;> rw [heq]
    · exact (isDescendant_of_getAncestor_self hw.toTree (getAncestor_of_entryChecks hchecks)).below
        h.array.sound h.blocks
    · have honChain : this.IsOnChain block state.finalizedCheckpoint :=
        hfollows.onChain _ (List.mem_cons_of_mem _ (List.mem_cons_self ..)) hraises
      exact (isDescendant_of_getAncestor_self hw.toTree honChain).below h.array.sound h.blocks
  exact hafter.below _ hhas (.head ⟨header, hheader, hparent⟩ hbelow)

theorem protoArray_of_onBlock_error {block : BeaconBlock} {state : BeaconState}
    {preCachedData : Option OnBlockPrecachedData} {e : ForkChoiceError} (hw : this.protoArray.Wf)
    (h : (ForkChoice.onBlock block state preCachedData).run this = .error e this') :
    this'.protoArray = this.protoArray := by
  have hframe : Frame protoArray := ⟨fun _ _ _ => rfl, fun _ _ _ => rfl, fun _ _ => rfl⟩
  have hcheckpoints : (stateOf ((updateCheckpoints state preCachedData).run this)).protoArray
      = this.protoArray := hframe.updateCheckpoints state preCachedData
  rw [onBlock_run] at h
  cases hchecks : this.entryChecks block state preCachedData with
  | error e =>
    rw [hchecks] at h
    cases h
    rfl
  | ok _ =>
    rw [hchecks] at h
    dsimp only at h
    cases hrun : (updateCheckpoints state preCachedData).run this with
    | error e that =>
      rw [hrun] at h hcheckpoints
      cases h
      exact hcheckpoints
    | ok _ that =>
      rw [hrun] at h hcheckpoints
      dsimp only at h
      have hboosted : (that.withBoost block preCachedData).protoArray = this.protoArray := by
        rw [withBoost]
        split <;> exact hcheckpoints
      rcases updateProposerBoost_run that block preCachedData with hboost | ⟨-, e, hboost⟩ <;>
        rw [hboost] at h <;> dsimp only at h
      · rcases addBlock_cases block state preCachedData (hboosted ▸ hw) with
          ⟨_, hadd, -⟩ | ⟨_, hadd, -⟩ <;> rw [hadd] at h <;> cases h
        exact hboosted
      · cases h
        exact hcheckpoints

theorem Rooted.isKnown_of_onBlock_error (h : Rooted tree this) {block : BeaconBlock}
    {state : BeaconState} (hfollows : FollowsTree tree this block state)
    {preCachedData : Option OnBlockPrecachedData} {e : ForkChoiceError}
    (hrun : (ForkChoice.onBlock block state preCachedData).run this = .error e this')
    (hknown : this'.IsKnown root) : this.IsKnown root := by
  have hw := h.array.wf
  have hfinalized := finalizedCheckpoint_onBlock this block state preCachedData
  rw [hrun, stateOf_error] at hfinalized
  rw [IsKnown, protoArray_of_onBlock_error hw hrun] at hknown
  rcases hfinalized with heq | ⟨hchecks, hraises, heq⟩ <;> rw [heq] at hknown
  · exact hknown
  · have honChain : this.IsOnChain block state.finalizedCheckpoint :=
      hfollows.onChain _ (List.mem_cons_of_mem _ (List.mem_cons_self ..)) hraises
    have hdesc := isDescendant_of_getAncestor hw.toTree honChain
      (getAncestor_of_entryChecks hchecks) (computeStartSlotAtEpoch_mono hraises.le)
    exact hdesc.trans hknown

omit [Preset] in
theorem IsKnown.of_sameBlocks (hknown : this.IsKnown root) (h : Rooted tree this)
    (h' : Rooted tree this') (hsame : SameBlocks this this') : this'.IsKnown root := by
  have hbelow := ProtoArray.IsDescendant.below hknown h.array.sound h.blocks
  have hhas := hknown.hasBlock
  rw [ProtoArray.hasBlock, ← hsame.indices] at hhas
  rw [← hsame.finalized] at hbelow
  exact h'.below root hhas hbelow

/-! ## What the fork choice says -/

def hasBlockHex (this : ForkChoice) (blockRoot : RootHex) : Except ProtoArrayError Bool :=
  if this.protoArray.hasBlock blockRoot then this.isDescendantOfFinalized blockRoot else .ok false

/-- `getHead`; none before the constructor has set it. -/
def getHead (this : ForkChoice) : Except ForkChoiceError IProtoNode :=
  match this.head with
  | some head => .ok head
  | none => .error (.error "Cannot read properties of undefined (reading 'blockRoot')")

/-- The block of a checkpoint, which should be known. -/
def getCheckpointBlock (this : ForkChoice) (checkpoint : CheckpointWithHex) :
    Except ForkChoiceError IProtoBlock := do
  match ← (this.getBlockHex checkpoint.rootHex).mapError .protoArray with
  | some block => return block
  | none => throw (.MISSING_PROTO_ARRAY_BLOCK checkpoint.rootHex)

def getJustifiedBlock (this : ForkChoice) : Except ForkChoiceError IProtoBlock :=
  this.getCheckpointBlock this.fcStore.justifiedCheckpoint

def getFinalizedBlock (this : ForkChoice) : Except ForkChoiceError IProtoBlock :=
  this.getCheckpointBlock this.fcStore.finalizedCheckpoint

/-- How many slots a new head is past the common ancestor with the previous one; none if one of
them is above the other. -/
def getCommonAncestorDistance (this : ForkChoice) (prevBlock newBlock : IProtoBlock) :
    Except ForkChoiceError (Option Int) := do
  let some prevNode := this.protoArray.getNode prevBlock.blockRoot
    | throw (.error s!"No node if forkChoice for blockRoot {toHexString prevBlock.blockRoot}")
  let some newNode := this.protoArray.getNode newBlock.blockRoot
    | throw (.error s!"No node if forkChoice for blockRoot {toHexString newBlock.blockRoot}")
  match ← (this.protoArray.getCommonAncestor prevNode newNode).mapError .protoArray with
  | none => return none
  | some commonAncestor =>
    if commonAncestor.blockRoot = prevNode.blockRoot ∨ commonAncestor.blockRoot = newNode.blockRoot
    then return none
    else return some ((newNode.slot : Int) - commonAncestor.slot)

omit [Preset] in
theorem Rooted.isDescendantOfFinalized (h : Rooted tree this) (root : RootHex) :
    ∃ answer, this.isDescendantOfFinalized root = .ok answer ∧
      (answer = true ↔ this.IsKnown root) :=
  ProtoArray.isDescendant_eq h.array.wf.toTree
    (h.blocks.slotsIncrease h.array.sound.parentRoots) _ _

omit [Preset] in
theorem Rooted.hasBlockHex (h : Rooted tree this) (root : RootHex) :
    ∃ answer, this.hasBlockHex root = .ok answer ∧ (answer = true ↔ this.IsKnown root) := by
  rw [ForkChoice.hasBlockHex]
  split_ifs with hhas
  · exact h.isDescendantOfFinalized root
  · exact ⟨false, rfl, iff_of_false Bool.false_ne_true fun hknown => hhas hknown.hasBlock⟩

omit [Preset] in
theorem Rooted.getBlockHex (h : Rooted tree this) (root : RootHex) :
    ∃ block, this.getBlockHex root = .ok block ∧ (block.isSome ↔ this.IsKnown root) := by
  obtain ⟨answer, hanswer, hiff⟩ := h.isDescendantOfFinalized root
  rw [ForkChoice.getBlockHex]
  cases hblock : this.protoArray.getBlock root with
  | none =>
    refine ⟨none, rfl, iff_of_false Bool.false_ne_true fun hknown => ?_⟩
    obtain ⟨i, hi⟩ := ProtoArray.hasBlock_eq_true.mp hknown.hasBlock
    obtain ⟨node, hnode, -⟩ := h.array.wf.indices_iff.mp hi
    rw [ProtoArray.getBlock, ProtoArray.getNode, hi] at hblock
    simp [hnode] at hblock
  | some block =>
    dsimp only
    rw [hanswer, ← hiff]
    cases answer with
    | true => exact ⟨some block, rfl, iff_of_true rfl rfl⟩
    | false => exact ⟨none, rfl, Iff.rfl⟩

omit [Preset] in
theorem Rooted.getFinalizedBlock (h : Rooted tree this) :
    ∃ block, this.getFinalizedBlock = .ok block := by
  obtain ⟨block, hblock, hiff⟩ := h.getBlockHex this.fcStore.finalizedCheckpoint.rootHex
  obtain ⟨i, hi⟩ := ProtoArray.hasBlock_eq_true.mp h.finalized
  obtain ⟨block, rfl⟩ := Option.isSome_iff_exists.mp (hiff.mpr (.refl hi))
  refine ⟨block, ?_⟩
  rw [ForkChoice.getFinalizedBlock, getCheckpointBlock, hblock]
  rfl

omit [Preset] in
theorem Rooted.getCommonAncestorDistance_isOk_iff (h : Rooted tree this)
    {prevBlock newBlock : IProtoBlock} :
    (∃ distance, this.getCommonAncestorDistance prevBlock newBlock = .ok distance) ↔
      this.protoArray.hasBlock prevBlock.blockRoot = true ∧
        this.protoArray.hasBlock newBlock.blockRoot = true := by
  have hnode : ∀ root, this.protoArray.hasBlock root = true ↔
      (this.protoArray.getNode root).isSome := fun root => by
    rw [ProtoArray.hasBlock_eq_true, Option.isSome_iff_exists]
    constructor
    · rintro ⟨i, hi⟩
      obtain ⟨node, hget, -⟩ := h.array.wf.indices_iff.mp hi
      exact ⟨node, ProtoArray.getNode_eq_some.mpr ⟨i, hi, hget⟩⟩
    · rintro ⟨node, hget⟩
      obtain ⟨i, hi, -⟩ := ProtoArray.getNode_eq_some.mp hget
      exact ⟨i, hi⟩
  rw [hnode, hnode, ForkChoice.getCommonAncestorDistance]
  cases hprev : this.protoArray.getNode prevBlock.blockRoot with
  | none => exact iff_of_false (fun h => by cases h.choose_spec) fun h => by cases h.1
  | some x =>
  cases hnew : this.protoArray.getNode newBlock.blockRoot with
  | none => exact iff_of_false (fun h => by cases h.choose_spec) fun h => by cases h.2
  | some y =>
    refine iff_of_true ?_ ⟨rfl, rfl⟩
    obtain ⟨i, -, hx⟩ := ProtoArray.getNode_eq_some.mp hprev
    obtain ⟨j, -, hy⟩ := ProtoArray.getNode_eq_some.mp hnew
    obtain ⟨answer, hanswer, -⟩ := (ProtoArray.isDescendant_and_getCommonAncestor h.array
      (h.blocks.slotsIncrease h.array.sound.parentRoots)).2 i j x y hx hy
    dsimp only
    rw [hanswer]
    cases answer with
    | none => exact ⟨none, rfl⟩
    | some commonAncestor =>
      change ∃ distance, (if commonAncestor.blockRoot = x.blockRoot ∨
        commonAncestor.blockRoot = y.blockRoot then Except.ok none
        else Except.ok (some ((y.slot : Int) - commonAncestor.slot))) = Except.ok distance
      split
      · exact ⟨none, rfl⟩
      · exact ⟨_, rfl⟩

end Lodestar.ForkChoice
