import Lodestar.Chain.Regen
import Lodestar.ForkChoice.Runs

/-!
# Regenerated states are those asked for

A state that is not cached is searched from the first node of the proto array
up, and no ancestor of that one is known, so only cached states come out. These
are dialed forward as asked, in one call or by checkpoints.
-/

namespace Lodestar.Chain

open Lodestar.Base Lodestar.ForkChoice Lodestar.StateTransition

section Main

variable [Preset] {State : Type} [fns : StateTransitionFns State]

/-! ## Sound modules -/

/-- The fork choice holds a tree of blocks with the states `post`, and the state cache maps roots
to states with these roots. -/
structure StateRegenerator.Sound (this : StateRegenerator State) (post : RootHex → State) : Prop where
  tree : this.forkChoice.protoArray.Tree
  /-- A node points to its parent, if that is known. -/
  linked : ∀ {i p : Nat} {node : IProtoNode}, this.forkChoice.protoArray.nodes[i]? = some node →
    this.forkChoice.protoArray.indices[node.parentRoot]? = some p →
      this.forkChoice.protoArray.parentOf i = some p
  slot : ∀ block blockRoot, this.forkChoice.protoArray.getBlock blockRoot = some block →
    fns.slot (post blockRoot) = block.slot
  /-- The hash of a state tells it from others. -/
  stateRoot : ∀ block blockRoot, this.forkChoice.protoArray.getBlock blockRoot = some block →
    ∀ state, fns.hashTreeRoot state = block.stateRoot ↔ state = post blockRoot
  stateCache : ∀ stateRoot state, this.stateCache stateRoot = some state →
    fns.hashTreeRoot state = stateRoot

/-- A root and an epoch stand for the state after the block at the start of the epoch. -/
def CheckpointStateCache.Sound (cache : CheckpointStateCache State) (post : RootHex → State) : Prop :=
  ∀ blockRoot epoch state, cache.get blockRoot epoch = some state →
    processSlots (post blockRoot) (computeStartSlotAtEpoch epoch) = .ok state

variable {this : StateRegenerator State} {post : RootHex → State}
  {cache cache' : CheckpointStateCache State} {state : State} {slot : Nat}

/-! ## Empty slots -/

theorem processSlotsToCheckpoint_ok {preState : State}
    (h : (processSlotsToCheckpoint preState slot).run cache = .ok state cache') :
    processSlots preState slot = .ok state := by
  obtain ⟨postState, _, hslots, h⟩ := eq_ok_of_run_bind h
  obtain ⟨cp, _, _, h⟩ := eq_ok_of_run_bind h
  obtain ⟨⟨⟩, _, _, h⟩ := eq_ok_of_run_bind h
  cases h
  exact eq_ok_of_mapError (eq_ok_of_run_ofExcept hslots).1

theorem toNearestCheckpoint_ok {fuel nextEpochSlot : Nat} {preState : State}
    (hle : fns.slot preState ≤ slot)
    (h : (toNearestCheckpoint slot fuel nextEpochSlot preState).run cache = .ok state cache') :
    fns.slot state ≤ slot ∧ processSlots preState (fns.slot state) = .ok state := by
  induction fuel generalizing nextEpochSlot preState cache with
  | zero =>
    cases h
    exact ⟨hle, processSlots_self⟩
  | succ fuel ih =>
    unfold toNearestCheckpoint at h
    by_cases hnext : nextEpochSlot ≤ slot
    · rw [if_pos hnext] at h
      obtain ⟨middle, _, hmiddle, h⟩ := eq_ok_of_run_bind h
      have hslots := processSlotsToCheckpoint_ok hmiddle
      have hslot := (slot_processSlots hslots).2
      obtain ⟨hle', hrest⟩ := ih (by omega) h
      exact ⟨hle', processSlots_trans hslots hrest⟩
    · rw [if_neg hnext] at h
      cases h
      exact ⟨hle, processSlots_self⟩

theorem processSlotsByCheckpoint_ok {preState : State} (hle : fns.slot preState ≤ slot)
    (h : (processSlotsByCheckpoint preState slot).run cache = .ok state cache') :
    processSlots preState slot = .ok state := by
  obtain ⟨middle, _, hmiddle, h⟩ := eq_ok_of_run_bind h
  obtain ⟨hle', hslots⟩ := toNearestCheckpoint_ok hle hmiddle
  by_cases hlt : fns.slot middle < slot
  · rw [if_pos hlt] at h
    exact processSlots_trans hslots (eq_ok_of_mapError (eq_ok_of_run_ofExcept h).1)
  · rw [if_neg hlt] at h
    cases h
    rwa [show slot = fns.slot state by omega]

namespace StateRegenerator

/-! ## States by root -/

omit [Preset] in
theorem Sound.iterateAncestorBlocks_first (h : this.Sound post) {block : IProtoNode}
    {nodes : List IProtoNode} (hnodes : this.forkChoice.protoArray.nodes = block :: nodes) :
    this.forkChoice.iterateAncestorBlocks block.parentRoot = .ok [] := by
  have hfirst : this.forkChoice.protoArray.nodes[0]? = some block := by rw [hnodes]; rfl
  unfold ForkChoice.iterateAncestorBlocks ProtoArray.iterateAncestorNodes
  cases hindex : this.forkChoice.protoArray.indices[block.parentRoot]? with
  | none => rfl
  | some p =>
    have hparent := h.tree.parent_lt (h.linked hfirst hindex)
    exact absurd hparent (Nat.not_lt_zero p)

theorem Sound.getState_of_none (h : this.Sound post) {stateRoot : RootHex}
    (hcache : this.stateCache stateRoot = none) :
    (this.getState stateRoot).run cache ≠ .ok state cache' := by
  intro hrun
  unfold getState at hrun
  rw [hcache] at hrun
  obtain ⟨block, _, hblock, hrun⟩ := eq_ok_of_run_bind hrun
  obtain ⟨hfirst, rfl⟩ := eq_ok_of_run_ofExcept hblock
  unfold findFirstStateBlock forwarditerateAncestorBlocks at hfirst
  cases hnodes : this.forkChoice.protoArray.nodes with
  | nil =>
    rw [hnodes] at hfirst
    cases hfirst
  | cons node nodes =>
    rw [hnodes] at hfirst
    cases hfirst
    obtain ⟨ancestors, _, hancestors, hrun⟩ := eq_ok_of_run_bind hrun
    rw [h.iterateAncestorBlocks_first hnodes] at hancestors
    cases hancestors
    cases hrun

theorem Sound.getState_ok (h : this.Sound post) {stateRoot : RootHex}
    (hrun : (this.getState stateRoot).run cache = .ok state cache') :
    fns.hashTreeRoot state = stateRoot ∧ cache = cache' := by
  cases hcached : this.stateCache stateRoot with
  | none => exact absurd hrun (h.getState_of_none hcached)
  | some cached =>
    unfold getState at hrun
    rw [hcached] at hrun
    cases hrun
    exact ⟨h.stateCache stateRoot state hcached, rfl⟩

/-! ## States of blocks -/

omit [Preset] in
theorem getBlock_ok {blockRoot : RootHex} {block : IProtoBlock}
    (h : this.getBlock blockRoot = .ok block) :
    this.forkChoice.protoArray.getBlock blockRoot = some block := by
  unfold getBlock at h
  obtain ⟨found, hfound, h⟩ := eq_ok_of_bind h
  cases found with
  | none => cases h
  | some found =>
    cases h
    have hfound := eq_ok_of_mapError hfound
    unfold ForkChoice.getBlockHex at hfound
    cases hblock : this.forkChoice.protoArray.getBlock blockRoot with
    | none =>
      rw [hblock] at hfound
      cases hfound
    | some known =>
      rw [hblock] at hfound
      obtain ⟨descendant, _, hfound⟩ := eq_ok_of_bind hfound
      split_ifs at hfound
      · cases hfound
      · exact Except.ok.inj hfound

theorem Sound.getBlockSlotState_ok (h : this.Sound post) (hsound : cache.Sound post)
    {blockRoot : RootHex}
    (hrun : (this.getBlockSlotState blockRoot slot).run cache = .ok state cache') :
    processSlots (post blockRoot) slot = .ok state := by
  unfold getBlockSlotState at hrun
  obtain ⟨block, _, hcall, hrest⟩ := eq_ok_of_run_bind hrun
  obtain ⟨hblock, rfl⟩ := eq_ok_of_run_ofExcept hcall
  have hknown := getBlock_ok hblock
  by_cases hslot : slot < block.slot
  · rw [if_pos hslot] at hrest
    cases hrest
  · rw [if_neg hslot] at hrest
    obtain ⟨_, _, hget, hstate⟩ := eq_ok_of_run_bind hrest
    cases hget
    cases hlatest : cache.getLatest blockRoot (computeEpochAtSlot slot : Nat) with
    | some latest =>
      rw [hlatest] at hstate
      obtain ⟨epoch, hepoch, hget⟩ := CheckpointStateCache.get_of_getLatest hlatest
      have hpost := hsound blockRoot epoch latest hget
      have hstart : computeStartSlotAtEpoch epoch ≤ slot := by
        calc epoch * SLOTS_PER_EPOCH ≤ computeEpochAtSlot slot * SLOTS_PER_EPOCH :=
              Nat.mul_le_mul_right _ (by omega)
          _ ≤ slot := Nat.div_mul_le_self slot _
      rw [← (slot_processSlots hpost).2] at hstart
      exact processSlots_trans hpost (processSlotsByCheckpoint_ok hstart hstate)
    | none =>
      rw [hlatest] at hstate
      obtain ⟨blockState, _, hblockState, hdialed⟩ := eq_ok_of_run_bind hstate
      obtain ⟨hroot, rfl⟩ := h.getState_ok hblockState
      obtain rfl := (h.stateRoot block blockRoot hknown blockState).mp hroot
      exact processSlotsByCheckpoint_ok (by rw [h.slot block blockRoot hknown]; omega) hdialed

theorem Sound.getPreState_ok (h : this.Sound post) (hsound : cache.Sound post)
    {parentRoot : RootHex}
    (hrun : (this.getPreState parentRoot slot).run cache = .ok state cache') :
    ∃ parentBlock, this.forkChoice.protoArray.getBlock parentRoot = some parentBlock ∧
      if computeEpochAtSlot parentBlock.slot < computeEpochAtSlot slot then
        processSlots (post parentRoot) (computeStartSlotAtEpoch (computeEpochAtSlot slot))
          = .ok state
      else state = post parentRoot := by
  unfold getPreState at hrun
  obtain ⟨parentBlock, _, hcall, hrest⟩ := eq_ok_of_run_bind hrun
  obtain ⟨hblock, rfl⟩ := eq_ok_of_run_ofExcept hcall
  have hknown := getBlock_ok hblock
  refine ⟨parentBlock, hknown, ?_⟩
  by_cases hepoch : computeEpochAtSlot parentBlock.slot < computeEpochAtSlot slot
  · rw [if_pos hepoch] at hrest ⊢
    exact h.getBlockSlotState_ok hsound hrest
  · rw [if_neg hepoch] at hrest ⊢
    exact (h.stateRoot parentBlock parentRoot hknown state).mp (h.getState_ok hrest).1

/-- What a call returns is the state that is asked for, whatever is cached. -/
theorem states_asked_for (h : this.Sound post) (hsound : cache.Sound post) :
    (∀ stateRoot state cache', (this.getState stateRoot).run cache = .ok state cache' →
      fns.hashTreeRoot state = stateRoot) ∧
    (∀ parentRoot slot state cache',
      (this.getPreState parentRoot slot).run cache = .ok state cache' →
        ∃ parentBlock, this.forkChoice.protoArray.getBlock parentRoot = some parentBlock ∧
          if computeEpochAtSlot parentBlock.slot < computeEpochAtSlot slot then
            processSlots (post parentRoot) (computeStartSlotAtEpoch (computeEpochAtSlot slot))
              = .ok state
          else state = post parentRoot) ∧
    (∀ cp state cache', (this.getCheckpointState cp).run cache = .ok state cache' →
      processSlots (post cp.rootHex) (computeStartSlotAtEpoch cp.epoch) = .ok state) ∧
    ∀ blockRoot slot state cache',
      (this.getBlockSlotState blockRoot slot).run cache = .ok state cache' →
        processSlots (post blockRoot) slot = .ok state := by
  refine ⟨?_, ?_, ?_, ?_⟩
  · intro stateRoot state cache' hrun
    exact (h.getState_ok hrun).1
  · intro parentRoot slot state cache' hrun
    exact h.getPreState_ok hsound hrun
  · intro cp state cache' hrun
    exact h.getBlockSlotState_ok hsound hrun
  · intro blockRoot slot state cache' hrun
    exact h.getBlockSlotState_ok hsound hrun

end StateRegenerator

/-! ## The cache of checkpoint states stays sound -/

theorem StateRegenerator.stateOf_getState (this : StateRegenerator State) (stateRoot : RootHex)
    (cache : CheckpointStateCache State) :
    stateOf ((this.getState stateRoot).run cache) = cache := by
  have hmoves : Moves Eq (this.getState stateRoot) := by
    unfold getState
    split
    · exact fun _ => rfl
    · refine .bind Eq.trans (.ofExcept (fun _ => rfl) _) fun block => ?_
      refine .bind Eq.trans (.ofExcept (fun _ => rfl) _) fun ancestors => ?_
      refine .get_bind fun cache => ?_
      split
      · rfl
      · split_ifs
        · rfl
        · exact Moves.ofExcept (fun _ => rfl) _ cache
  exact (hmoves cache).symm

namespace CheckpointStateCache.Sound

variable {α β : Type} {blockRoot : RootHex} {preState : State}

theorem bind {x : RegenM State α} {f : α → RegenM State β} (hx : (stateOf (x.run cache)).Sound post)
    (hf : ∀ a t, x.run cache = .ok a t → t.Sound post → (stateOf ((f a).run t)).Sound post) :
    (stateOf ((x >>= f).run cache)).Sound post := by
  rw [EStateM.run_bind]
  cases hrun : x.run cache with
  | ok a t =>
    rw [hrun] at hx
    exact hf a t hrun hx
  | error e t =>
    rw [hrun] at hx
    exact hx

theorem ofExcept (h : cache.Sound post) (r : Except RegenError α) :
    (stateOf ((MonadExcept.ofExcept r : RegenM State α).run cache)).Sound post := by
  rw [run_ofExcept, stateOf_atState]
  exact h

section

variable (hroot : ∀ slot state, processSlots (post blockRoot) slot = .ok state →
    fns.latestBlockRoot state = blockRoot)
  (hpre : processSlots (post blockRoot) (fns.slot preState) = .ok preState)

include hroot hpre

theorem processSlotsToCheckpoint (h : cache.Sound post) :
    (stateOf ((processSlotsToCheckpoint preState slot).run cache)).Sound post := by
  refine bind (h.ofExcept _) fun postState t hcall ht => ?_
  have hpost := processSlots_trans hpre (eq_ok_of_mapError (eq_ok_of_run_ofExcept hcall).1)
  have hslot := (slot_processSlots hpost).2
  rw [← hslot] at hpost
  refine bind (ht.ofExcept _) fun cp t' hcall' ht' => ?_
  have hcp := (eq_ok_of_run_ofExcept hcall').1
  intro root epoch added hget
  rcases CheckpointStateCache.get_add hget with ⟨rfl, rfl, rfl⟩ | hget
  · unfold getCheckpointFromState at hcp
    by_cases hfirst : fns.slot added % SLOTS_PER_EPOCH ≠ 0
    · rw [if_pos hfirst] at hcp
      cases hcp
    rw [if_neg hfirst] at hcp
    cases hcp
    have hstart : computeStartSlotAtEpoch (computeEpochAtSlot (fns.slot added))
        = fns.slot added :=
      Nat.div_mul_cancel (Nat.dvd_of_mod_eq_zero (not_not.mp hfirst))
    dsimp only
    rw [hroot _ added hpost, hstart]
    exact hpost
  · exact ht' root epoch added hget

theorem toNearestCheckpoint (h : cache.Sound post) {fuel nextEpochSlot : Nat} :
    (stateOf ((toNearestCheckpoint slot fuel nextEpochSlot preState).run cache)).Sound post := by
  induction fuel generalizing nextEpochSlot preState cache with
  | zero => exact h
  | succ fuel ih =>
    unfold Chain.toNearestCheckpoint
    rw [run_ite]
    split_ifs
    · refine bind (h.processSlotsToCheckpoint hroot hpre) fun middle t hmiddle ht => ?_
      have hpost := processSlots_trans hpre (processSlotsToCheckpoint_ok hmiddle)
      rw [← (slot_processSlots hpost).2] at hpost
      exact ih hpost ht
    · exact h

theorem processSlotsByCheckpoint (h : cache.Sound post) :
    (stateOf ((processSlotsByCheckpoint preState slot).run cache)).Sound post := by
  refine bind (h.toNearestCheckpoint hroot hpre) fun middle t _ ht => ?_
  rw [run_ite]
  split_ifs
  · exact ht.ofExcept _
  · exact ht

end

/-- Whether the call returns or throws. -/
theorem getBlockSlotState (hsound : cache.Sound post) (h : this.Sound post)
    (hroot : ∀ block, this.forkChoice.protoArray.getBlock blockRoot = some block →
      ∀ slot state, processSlots (post blockRoot) slot = .ok state →
        fns.latestBlockRoot state = blockRoot) :
    (stateOf ((this.getBlockSlotState blockRoot slot).run cache)).Sound post := by
  refine bind (hsound.ofExcept _) fun block t hcall ht => ?_
  have hknown := StateRegenerator.getBlock_ok (eq_ok_of_run_ofExcept hcall).1
  rw [run_ite]
  split_ifs
  · exact ht
  refine bind ht fun _ _ hget _ => ?_
  cases hget
  cases hlatest : t.getLatest blockRoot (computeEpochAtSlot slot : Nat) with
  | some latest =>
    obtain ⟨epoch, -, hget⟩ := CheckpointStateCache.get_of_getLatest hlatest
    have hpost := ht blockRoot epoch latest hget
    rw [← (slot_processSlots hpost).2] at hpost
    exact ht.processSlotsByCheckpoint (hroot block hknown) hpost
  | none =>
    refine bind ?_ fun blockState t' hblockState ht' => ?_
    · rw [StateRegenerator.stateOf_getState]
      exact ht
    · obtain ⟨hstateRoot, -⟩ := h.getState_ok hblockState
      obtain rfl := (h.stateRoot block blockRoot hknown blockState).mp hstateRoot
      exact ht'.processSlotsByCheckpoint (hroot block hknown) processSlots_self

end CheckpointStateCache.Sound

/-! ## Calls one after the other -/

inductive RegenCall where
  | getPreState (parentRoot : RootHex) (slot : Nat)
  | getCheckpointState (cp : CheckpointWithHex)
  | getBlockSlotState (blockRoot : RootHex) (slot : Nat)

namespace RegenCall

def run (this : StateRegenerator State) : RegenCall → RegenM State State
  | getPreState parentRoot slot => this.getPreState parentRoot slot
  | getCheckpointState cp => this.getCheckpointState cp
  | getBlockSlotState blockRoot slot => this.getBlockSlotState blockRoot slot

/-- The state that the call asks for. -/
def Asked (this : StateRegenerator State) (post : RootHex → State) : RegenCall → State → Prop
  | getPreState parentRoot slot, state =>
    ∃ parentBlock, this.forkChoice.protoArray.getBlock parentRoot = some parentBlock ∧
      if computeEpochAtSlot parentBlock.slot < computeEpochAtSlot slot then
        processSlots (post parentRoot) (computeStartSlotAtEpoch (computeEpochAtSlot slot)) = .ok state
      else state = post parentRoot
  | getCheckpointState cp, state =>
    processSlots (post cp.rootHex) (computeStartSlotAtEpoch cp.epoch) = .ok state
  | getBlockSlotState blockRoot slot, state => processSlots (post blockRoot) slot = .ok state

/-- What calls one after the other leave in the cache, those that throw too. -/
def cacheAfter (this : StateRegenerator State) (cache : CheckpointStateCache State)
    (calls : List RegenCall) : CheckpointStateCache State :=
  calls.foldl (fun cache call => stateOf ((call.run this).run cache)) cache

variable (h : this.Sound post) (hroot : ∀ blockRoot block,
  this.forkChoice.protoArray.getBlock blockRoot = some block →
    ∀ slot state, processSlots (post blockRoot) slot = .ok state →
      fns.latestBlockRoot state = blockRoot)

include h hroot

theorem sound_run (hsound : cache.Sound post) (call : RegenCall) :
    (stateOf ((call.run this).run cache)).Sound post := by
  cases call with
  | getBlockSlotState blockRoot slot => exact hsound.getBlockSlotState h (hroot blockRoot)
  | getCheckpointState cp => exact hsound.getBlockSlotState h (hroot cp.rootHex)
  | getPreState parentRoot slot =>
    refine CheckpointStateCache.Sound.bind (hsound.ofExcept _) fun parentBlock t _ ht => ?_
    dsimp only
    rw [run_ite]
    split_ifs
    · exact ht.getBlockSlotState h (hroot parentRoot)
    · rw [StateRegenerator.stateOf_getState]
      exact ht

theorem sound_cacheAfter (hsound : cache.Sound post) (calls : List RegenCall) :
    (cacheAfter this cache calls).Sound post := by
  induction calls generalizing cache with
  | nil => exact hsound
  | cons call calls ih => exact ih (sound_run h hroot hsound call)

/-- After any calls, of which some may have thrown midway, a call that returns returns the state
that it asks for. -/
theorem asked_of_run (hsound : cache.Sound post) (calls : List RegenCall) {call : RegenCall}
    (hrun : (call.run this).run (cacheAfter this cache calls) = .ok state cache') :
    call.Asked this post state := by
  have hafter := sound_cacheAfter h hroot hsound calls
  cases call with
  | getPreState parentRoot slot => exact h.getPreState_ok hafter hrun
  | getCheckpointState cp => exact h.getBlockSlotState_ok hafter hrun
  | getBlockSlotState blockRoot slot => exact h.getBlockSlotState_ok hafter hrun

end RegenCall

end Main

/-! ## A run -/

/-- A state is its slot, which is its root as well. -/
@[reducible] def slotFns : StateTransitionFns (BitVec 256) where
  slot state := state.toNat
  hashTreeRoot state := state
  latestBlockRoot _ := 0xaa
  processSlot state :=
    if state.toNat + 1 < 2 ^ 256 then .ok (BitVec.ofNat 256 (state.toNat + 1)) else .error "overflow"
  slot_processSlot := by
    intro state postState h
    split_ifs at h with hlt
    rw [← Except.ok.inj h, BitVec.toNat_ofNat, Nat.mod_eq_of_lt hlt]
  Block := Unit
  blockSlot _ := 0
  processBlock state _ := .ok state

attribute [local instance] minimal slotFns

/-- Above genesis, whose state is cached. -/
def genesisRegenerator : StateRegenerator (BitVec 256) where
  forkChoice := genesisChoice false
  stateCache stateRoot := if stateRoot = 0 then some 0 else none
  block _ := none

/-- The state of epoch 3 is cached. -/
def genesisStates : CheckpointStateCache (BitVec 256) :=
  CheckpointStateCache.add ⟨.empty, .empty⟩ ⟨3, 0xaa⟩ 24

theorem genesisRegenerator_sound : genesisRegenerator.Sound fun _ => 0 := by
  have hreachable : (genesisChoice false).Reachable := ⟨_, genesisChoice_created false, .refl⟩
  have htree : (genesisChoice false).protoArray.Tree := hreachable.protoArray_reachable.wf.toTree
  have hnodes : ∀ node ∈ (genesisChoice false).protoArray.nodes,
      (genesisChoice false).protoArray.indices[node.parentRoot]? = none ∧
        node.slot = 0 ∧ node.stateRoot = 0 := by decide +kernel
  have hblock : ∀ block blockRoot,
      genesisRegenerator.forkChoice.protoArray.getBlock blockRoot = some block →
        block.slot = 0 ∧ block.stateRoot = 0 := by
    intro block blockRoot hblock
    obtain ⟨node, hnode, rfl⟩ := Option.map_eq_some_iff.mp hblock
    obtain ⟨i, -, hi⟩ := Option.bind_eq_some_iff.mp hnode
    exact (hnodes node (List.mem_of_getElem? hi)).2
  refine ⟨htree, ?_, ?_, ?_, ?_⟩
  · intro i p node hnode hindex
    cases (hnodes node (List.mem_of_getElem? hnode)).1.symm.trans hindex
  · intro block blockRoot h
    exact (hblock block blockRoot h).1.symm
  · intro block blockRoot h state
    rw [(hblock block blockRoot h).2]
    exact Iff.rfl
  · intro stateRoot state hcached
    change (if stateRoot = 0 then some (0 : BitVec 256) else none) = some state at hcached
    split_ifs at hcached with hroot
    exact (Option.some.inj hcached).symm.trans hroot.symm

theorem genesisStates_sound : genesisStates.Sound fun _ => (0 : BitVec 256) := by
  intro blockRoot epoch state hget
  rcases CheckpointStateCache.get_add hget with ⟨rfl, rfl, rfl⟩ | hget
  · decide +kernel
  · cases hget

/-- A state of epoch 4 that is not cached, from the cached one of epoch 3. -/
theorem genesisRegenerator_asked_for :
    ∃ state cache', (genesisRegenerator.getBlockSlotState 0xaa 33).run genesisStates
        = .ok state cache' ∧
      processSlots (0 : BitVec 256) 33 = .ok state := by
  have hok : errorOf ((genesisRegenerator.getBlockSlotState 0xaa 33).run genesisStates) = none := by
    decide +kernel
  obtain ⟨state, hrun⟩ := exists_ok_of_errorOf hok
  exact ⟨state, _, hrun, (StateRegenerator.states_asked_for genesisRegenerator_sound
    genesisStates_sound).2.2.2 0xaa 33 state _ hrun⟩

/-- The state of epoch 5 was asked for first, which has cached that of epoch 4. -/
theorem genesisRegenerator_asked_of_run :
    ∃ state, RegenCall.Asked genesisRegenerator (fun _ => 0) (.getBlockSlotState 0xaa 33) state := by
  have hok : errorOf (((RegenCall.getBlockSlotState 0xaa 33).run genesisRegenerator).run
      (RegenCall.cacheAfter genesisRegenerator genesisStates [.getCheckpointState ⟨5, 0xaa⟩]))
      = none := by
    decide +kernel
  obtain ⟨state, hrun⟩ := exists_ok_of_errorOf hok
  refine ⟨state, RegenCall.asked_of_run genesisRegenerator_sound ?_ genesisStates_sound _ hrun⟩
  intro blockRoot block hblock slot state _
  have hroots : ∀ node ∈ (genesisChoice false).protoArray.nodes, node.blockRoot = 0xaa := by
    decide +kernel
  obtain ⟨node, hnode, rfl⟩ := Option.map_eq_some_iff.mp hblock
  obtain ⟨i, hi, -⟩ := Option.bind_eq_some_iff.mp hnode
  obtain ⟨known, hknown, rfl⟩ := genesisRegenerator_sound.tree.indices_iff.mp hi
  exact (hroots known (List.mem_of_getElem? hknown)).symm

end Lodestar.Chain
