import Lodestar.Base.Ring
import Lodestar.ForkChoice.Blocks

/-!
# The block tree and the block roots of its states

The spec's `get_ancestor` over all blocks there are, and `blockRoots` of a block's
post state, which `processSlot` (`allForks/slot/index.ts`) writes. Each block root
that the state still has room for is that of the block's ancestor at its slot
(`IsPostState.holdsPast`).
-/

namespace Lodestar.ForkChoice

open Lodestar.Base Lodestar.StateTransition

/-! ## Ancestors -/

/-- The headers of the blocks, by their roots. -/
structure BlockTree where
  header : Root → Option BeaconBlockHeader
  slot_lt : ∀ {root : Root} {header' parent : BeaconBlockHeader}, header root = some header' →
    header header'.parentRoot = some parent → parent.slot < header'.slot

namespace BlockTree

variable {tree : BlockTree} {root ancestor : Root} {header : BeaconBlockHeader} {slot : Nat}

/-- The walk of `get_ancestor`; slots fall along it, so that of the first block bounds it. -/
def ancestorFrom (tree : BlockTree) (slot : Nat) : Nat → Root → Option Root
  | 0, _ => none
  | fuel + 1, root =>
    match tree.header root with
    | none => none
    | some header =>
      if header.slot > slot then tree.ancestorFrom slot fuel header.parentRoot else some root

/-- `get_ancestor` of the spec. -/
def getAncestor (tree : BlockTree) (root : Root) (slot : Nat) : Option Root :=
  match tree.header root with
  | none => none
  | some header => tree.ancestorFrom slot (header.slot + 1) root

theorem ancestorFrom_eq {fuel : Nat} (h : tree.header root = some header)
    (hfuel : header.slot < fuel) : tree.ancestorFrom slot fuel root = tree.getAncestor root slot := by
  induction fuel using Nat.strong_induction_on generalizing root header with
  | _ fuel ih =>
    obtain ⟨fuel, rfl⟩ : ∃ fuel', fuel = fuel' + 1 := ⟨fuel - 1, by omega⟩
    simp only [getAncestor, h, ancestorFrom]
    split_ifs with hlt
    · cases hparent : tree.header header.parentRoot with
      | none =>
        obtain ⟨m, hm⟩ : ∃ m, header.slot = m + 1 := ⟨header.slot - 1, by omega⟩
        obtain ⟨k, rfl⟩ : ∃ k, fuel = k + 1 := ⟨fuel - 1, by omega⟩
        simp only [hm, ancestorFrom, hparent]
      | some parent =>
        have hslot := tree.slot_lt h hparent
        rw [ih fuel (by omega) hparent (by omega), ih header.slot (by omega) hparent hslot]
    · rfl

theorem getAncestor_of_le (h : tree.header root = some header) (hle : header.slot ≤ slot) :
    tree.getAncestor root slot = some root := by
  simp [getAncestor, h, ancestorFrom, not_lt.mpr hle]

theorem getAncestor_of_lt (h : tree.header root = some header) {parent : BeaconBlockHeader}
    (hparent : tree.header header.parentRoot = some parent) (hlt : slot < header.slot) :
    tree.getAncestor root slot = tree.getAncestor header.parentRoot slot := by
  rw [getAncestor, h]
  simp only [ancestorFrom, h, gt_iff_lt, if_pos hlt]
  exact ancestorFrom_eq hparent (tree.slot_lt h hparent)

theorem slot_le_of_ancestorFrom {fuel : Nat} (h : tree.ancestorFrom slot fuel root = some ancestor) :
    ∃ header, tree.header ancestor = some header ∧ header.slot ≤ slot := by
  induction fuel generalizing root with
  | zero => cases h
  | succ fuel ih =>
    rw [ancestorFrom] at h
    cases hheader : tree.header root with
    | none =>
      rw [hheader] at h
      cases h
    | some header =>
      simp only [hheader] at h
      split_ifs at h with hlt
      · exact ih h
      · obtain rfl := Option.some.inj h
        exact ⟨header, hheader, not_lt.mp hlt⟩

theorem slot_le_of_getAncestor (h : tree.getAncestor root slot = some ancestor) :
    ∃ header, tree.header ancestor = some header ∧ header.slot ≤ slot := by
  rw [getAncestor] at h
  cases hheader : tree.header root with
  | none =>
    rw [hheader] at h
    cases h
  | some header =>
    rw [hheader] at h
    exact slot_le_of_ancestorFrom h

end BlockTree

/-! ## Slots -/

section Slots

variable [Preset]

def ZERO_HASH : Root := 0

/-- A state with the header of its latest block. -/
structure HeadState extends BeaconState where
  latestBlockHeader : BeaconBlockHeader

/-- The latest header, with the state root that was not known when its block was processed. -/
def cacheStateRoot (latestBlockHeader : BeaconBlockHeader) (previousStateRoot : Root) :
    BeaconBlockHeader :=
  if latestBlockHeader.stateRoot = ZERO_HASH then
    { latestBlockHeader with stateRoot := previousStateRoot }
  else latestBlockHeader

variable (hashTreeRoot : BeaconBlockHeader → Root)

/-- `processSlot` on a state of the given root, less the state roots. -/
def processSlot (state : HeadState) (previousStateRoot : Root) : HeadState :=
  let latestBlockHeader := cacheStateRoot state.latestBlockHeader previousStateRoot
  let previousBlockRoot := hashTreeRoot latestBlockHeader
  { state with
    latestBlockHeader
    blockRoots := state.blockRoots.set (state.slot % SLOTS_PER_HISTORICAL_ROOT) previousBlockRoot
      (Nat.mod_lt _ Preset.SLOTS_PER_HISTORICAL_ROOT_pos) }

/-- A turn of the loop of `processSlots`; an epoch transition and an upgrade leave the block roots
and the header as they are. -/
def processNextSlot (state : HeadState) (previousStateRoot : Root) : HeadState :=
  let state := processSlot hashTreeRoot state previousStateRoot
  { state with slot := state.slot + 1 }

/-- The loop of `processSlots`, by the roots of the states on the way. -/
def processSlots (state : HeadState) (previousStateRoots : List Root) : HeadState :=
  previousStateRoots.foldl (processNextSlot hashTreeRoot) state

/-- The states after the blocks of the tree. -/
inductive IsPostState (tree : BlockTree) : Root → HeadState → Prop
  | genesis {root : Root} {header : BeaconBlockHeader} {state : HeadState}
      (hheader : tree.header root = some header) (hgenesis : header.slot = GENESIS_SLOT)
      (hslot : state.slot = header.slot) : IsPostState tree root state
  | block {root : Root} {header : BeaconBlockHeader} {preState state : HeadState}
      {previousStateRoots : List Root}
      (hheader : tree.header root = some header)
      (hparent : IsPostState tree header.parentRoot preState)
      -- no state hashes to the zero hash
      (hroots : ZERO_HASH ∉ previousStateRoots)
      -- the checks of `processBlockHeader`
      (hslot : (processSlots hashTreeRoot preState previousStateRoots).slot = header.slot)
      (hparentRoot : header.parentRoot
        = hashTreeRoot (processSlots hashTreeRoot preState previousStateRoots).latestBlockHeader)
      -- what the block leaves
      (hstate : state.slot = header.slot)
      (hlatest : state.latestBlockHeader = { header with stateRoot := ZERO_HASH })
      (hblockRoots : state.blockRoots
        = (processSlots hashTreeRoot preState previousStateRoots).blockRoots) :
      IsPostState tree root state

variable {hashTreeRoot} {P : Nat → Root → Prop} {state : HeadState}

theorem processSlots_cons (previousStateRoot : Root) (previousStateRoots : List Root) :
    processSlots hashTreeRoot state (previousStateRoot :: previousStateRoots)
      = processSlots hashTreeRoot (processNextSlot hashTreeRoot state previousStateRoot)
          previousStateRoots := rfl

theorem holdsPast_processNextSlot {previousStateRoot : Root}
    (h : HoldsPast P state.blockRoots state.slot)
    (hroot : P state.slot (hashTreeRoot (cacheStateRoot state.latestBlockHeader previousStateRoot))) :
    HoldsPast P (processNextSlot hashTreeRoot state previousStateRoot).blockRoots
      (processNextSlot hashTreeRoot state previousStateRoot).slot :=
  h.set Preset.SLOTS_PER_HISTORICAL_ROOT_pos hroot

theorem cacheStateRoot_of_ne {previousStateRoot : Root}
    (hheader : state.latestBlockHeader.stateRoot ≠ ZERO_HASH) :
    cacheStateRoot state.latestBlockHeader previousStateRoot = state.latestBlockHeader :=
  if_neg hheader

theorem holdsPast_processSlots {previousStateRoots : List Root}
    (hheader : state.latestBlockHeader.stateRoot ≠ ZERO_HASH)
    (hroot : ∀ y, state.slot ≤ y → P y (hashTreeRoot state.latestBlockHeader))
    (h : HoldsPast P state.blockRoots state.slot) :
    HoldsPast P (processSlots hashTreeRoot state previousStateRoots).blockRoots
      (processSlots hashTreeRoot state previousStateRoots).slot := by
  induction previousStateRoots generalizing state with
  | nil => exact h
  | cons previousStateRoot previousStateRoots ih =>
    have hnext : (processNextSlot hashTreeRoot state previousStateRoot).latestBlockHeader = _ :=
      cacheStateRoot_of_ne hheader
    rw [processSlots_cons]
    refine ih (hnext ▸ hheader) (fun y hy => hnext ▸ hroot y (Nat.le_of_succ_le hy)) ?_
    refine holdsPast_processNextSlot h ?_
    rw [cacheStateRoot_of_ne hheader]
    exact hroot _ le_rfl

omit [Preset] in
theorem stateRoot_cacheStateRoot (latestBlockHeader : BeaconBlockHeader) {previousStateRoot : Root}
    (h : previousStateRoot ≠ ZERO_HASH) :
    (cacheStateRoot latestBlockHeader previousStateRoot).stateRoot ≠ ZERO_HASH := by
  rw [cacheStateRoot]
  split_ifs with hzero
  · exact h
  · exact hzero

theorem latestBlockHeader_processSlots {previousStateRoots : List Root}
    (hheader : state.latestBlockHeader.stateRoot ≠ ZERO_HASH) :
    (processSlots hashTreeRoot state previousStateRoots).latestBlockHeader
      = state.latestBlockHeader := by
  induction previousStateRoots generalizing state with
  | nil => rfl
  | cons previousStateRoot previousStateRoots ih =>
    have hnext : (processNextSlot hashTreeRoot state previousStateRoot).latestBlockHeader = _ :=
      cacheStateRoot_of_ne hheader
    rw [processSlots_cons, ih (hnext ▸ hheader), hnext]

namespace IsPostState

variable {tree : BlockTree} {root : Root}

/-- Each block root that there is still room for is that of the ancestor at its slot. -/
theorem holdsPast (h : IsPostState hashTreeRoot tree root state) :
    ∃ header, tree.header root = some header ∧ state.slot = header.slot ∧
      HoldsPast (fun slot blockRoot => tree.getAncestor root slot = some blockRoot)
        state.blockRoots state.slot := by
  induction h with
  | genesis hheader hgenesis hslot =>
    refine ⟨_, hheader, hslot, ?_⟩
    rw [hslot, hgenesis]
    exact .zero
  | @block root header preState state previousStateRoots hheader _ hroots hslot hparentRoot hstate _
      hblockRoots ih =>
    obtain ⟨parent, hparent, hpre, hpast⟩ := ih
    refine ⟨header, hheader, hstate, ?_⟩
    rw [hstate, hblockRoots, ← hslot]
    -- the ancestors of the block at the slots before it are those of its parent
    refine HoldsPast.mono (P := fun slot blockRoot =>
      tree.getAncestor header.parentRoot slot = some blockRoot) ?_ fun y hy blockRoot hblockRoot => ?_
    · cases previousStateRoots with
      | nil => exact hpast
      | cons previousStateRoot previousStateRoots =>
        have hfirst := stateRoot_cacheStateRoot preState.latestBlockHeader
          (List.ne_of_not_mem_cons hroots).symm
        have hhash : header.parentRoot
            = hashTreeRoot (cacheStateRoot preState.latestBlockHeader previousStateRoot) := by
          rw [hparentRoot, processSlots_cons, latestBlockHeader_processSlots hfirst]
          rfl
        have hlater : ∀ y, preState.slot ≤ y → tree.getAncestor header.parentRoot y
            = some (hashTreeRoot (cacheStateRoot preState.latestBlockHeader previousStateRoot)) :=
          fun y hy => hhash ▸ BlockTree.getAncestor_of_le hparent (hpre ▸ hy)
        rw [processSlots_cons]
        exact holdsPast_processSlots hfirst (fun y hy => hlater y (Nat.le_of_succ_le hy))
          (holdsPast_processNextSlot hpast (hlater _ le_rfl))
    · rw [hslot] at hy
      rwa [BlockTree.getAncestor_of_lt hheader hparent hy]

end IsPostState

end Slots

end Lodestar.ForkChoice
