import Lodestar.Chain.ArchiveBlocks
import Lodestar.ForkChoice.FailedBlock

/-!
# What archiving prunes

`getNonCheckpointBlocks` wants the blocks from ancestor to child and gets them
from child to ancestor. Walking from the oldest block on, the epoch pointer
never goes back: of the blocks after the first only those at the first slot of
an epoch are kept.
-/

namespace Lodestar.Chain

open Lodestar.Base Lodestar.ForkChoice Lodestar.StateTransition

section Main

variable [Preset] {this : ForkChoice} {root : RootHex} {blocks : List BlockRootSlot}
  {chain canonical nonCanonical : List IProtoNode} {block : IProtoNode}

/-! ## The helper -/

theorem nonCheckpointBlocksFrom_coe (epochPtr : Nat) (epochPtrHasFirstSlot : Bool)
    (h : ∀ block ∈ blocks, epochPtr ≤ computeEpochAtSlot block.slot) :
    nonCheckpointBlocksFrom epochPtr epochPtrHasFirstSlot blocks =
      blocks.filter (·.slot % SLOTS_PER_EPOCH ≠ 0) := by
  induction blocks generalizing epochPtrHasFirstSlot with
  | nil => rfl
  | cons block blocks ih =>
    obtain ⟨hblock, hblocks⟩ := List.forall_mem_cons.mp h
    have hn : ¬ ((computeEpochAtSlot block.slot : Nat) : WithTop Nat) < epochPtr := by
      exact_mod_cast Nat.not_lt.mpr hblock
    simp only [nonCheckpointBlocksFrom, hn, false_and, false_or, if_false, ih _ hblocks]
    by_cases hfirst : block.slot % SLOTS_PER_EPOCH = 0
    · rw [if_pos hfirst, List.filter_cons_of_neg (by simpa using hfirst)]
    · rw [if_neg hfirst, List.filter_cons_of_pos (by simpa using hfirst)]

theorem getNonCheckpointBlocks_of_pairwise
    (h : blocks.Pairwise fun child ancestor => ancestor.slot < child.slot) :
    getNonCheckpointBlocks blocks =
      (blocks.dropLast.filter (·.slot % SLOTS_PER_EPOCH ≠ 0)).reverse := by
  rcases List.eq_nil_or_concat' blocks with rfl | ⟨younger, oldest, rfl⟩
  · rfl
  · have hle : ∀ block ∈ younger.reverse,
        computeEpochAtSlot oldest.slot ≤ computeEpochAtSlot block.slot := by
      intro block hblock
      apply Nat.div_le_div_right
      have := (List.pairwise_append.mp h).2.2 block (List.mem_reverse.mp hblock) oldest
        (List.mem_singleton_self _)
      omega
    have htop : ((computeEpochAtSlot oldest.slot : Nat) : WithTop Nat) < ⊤ := WithTop.natCast_lt_top _
    rw [getNonCheckpointBlocks, List.reverse_append, List.dropLast_concat, ← List.filter_reverse]
    show nonCheckpointBlocksFrom ⊤ false (oldest :: younger.reverse) = _
    simp only [nonCheckpointBlocksFrom, htop, if_true, Bool.false_eq_true, not_false_eq_true,
      and_self, true_or]
    exact nonCheckpointBlocksFrom_coe _ _ hle

/-! ## Checkpoints of a chain -/

/-- Some continuation of the chain has the block as the last one up to the start of an epoch. -/
def MayBeCheckpoint (chain : List IProtoNode) (block : IProtoNode) : Prop :=
  ∃ (later : List IProtoNode) (epoch : Nat),
    (later ++ chain).Pairwise (fun child ancestor => ancestor.slot < child.slot) ∧
    (later ++ chain).find? (·.slot ≤ computeStartSlotAtEpoch epoch) = some block

/-- A later block comes no later than the first slot of the next epoch. -/
def IsSucceeded (canonical : List IProtoNode) (block : IProtoNode) : Prop :=
  ∃ successor ∈ canonical, block.slot < successor.slot ∧
    successor.slot ≤ computeStartSlotAtEpoch (computeEpochAtSlot block.slot + 1)

theorem le_startSlot_of_lt {slot epoch : Nat} (hle : slot ≤ computeStartSlotAtEpoch epoch)
    (hn : slot % SLOTS_PER_EPOCH ≠ 0) :
    computeStartSlotAtEpoch (computeEpochAtSlot slot + 1) ≤ computeStartSlotAtEpoch epoch := by
  apply computeStartSlotAtEpoch_mono
  apply Nat.succ_le_of_lt
  apply Nat.div_lt_of_lt_mul
  rw [Nat.mul_comm]
  apply lt_of_le_of_ne hle
  rintro rfl
  exact hn (Nat.mul_mod_left _ _)

/-- Off the first slots, a block is no checkpoint if and only if it is succeeded in time. -/
theorem mayBeCheckpoint_iff
    (hchain : chain.Pairwise fun child ancestor => ancestor.slot < child.slot)
    (hblock : block ∈ chain.dropLast) (hn : block.slot % SLOTS_PER_EPOCH ≠ 0) :
    MayBeCheckpoint chain block ↔ ¬ IsSucceeded chain.dropLast block := by
  constructor
  · rintro ⟨later, epoch, hpair, hfind⟩ ⟨successor, hmem, hlt, hle⟩
    obtain ⟨hslot, above, below, heq, habove⟩ := List.find?_eq_some_iff_append.mp hfind
    have hslot : block.slot ≤ computeStartSlotAtEpoch epoch := by simpa using hslot
    have hmem : successor ∈ above ++ block :: below :=
      heq ▸ List.mem_append_right _ (List.mem_of_mem_dropLast hmem)
    rw [heq] at hpair
    rcases List.mem_append.mp hmem with hs | hs
    · have := habove successor hs
      simp only [Bool.not_eq_true', decide_eq_false_iff_not] at this
      exact this (hle.trans (le_startSlot_of_lt hslot hn))
    · rcases List.mem_cons.mp hs with rfl | hs
      · exact lt_irrefl _ hlt
      · have := (List.pairwise_cons.mp (List.pairwise_append.mp hpair).2.1).1 successor hs
        omega
  · intro hs
    obtain ⟨above, below, heq⟩ := List.append_of_mem hblock
    have hne : chain ≠ [] := by
      rintro rfl
      exact List.not_mem_nil hblock
    have hsplit : chain = above ++ block :: (below ++ [chain.getLast hne]) := by
      conv_lhs => rw [← List.dropLast_append_getLast hne, heq]
      simp
    refine ⟨[], computeEpochAtSlot block.slot + 1, hchain, ?_⟩
    rw [List.nil_append, List.find?_eq_some_iff_append]
    refine ⟨decide_eq_true (lt_startSlot_succ _).le, above, _, hsplit, fun a ha => ?_⟩
    rw [Bool.not_eq_true', decide_eq_false_iff_not]
    intro hle
    apply hs
    refine ⟨a, heq ▸ List.mem_append_left _ ha, ?_, hle⟩
    rw [hsplit] at hchain
    exact (List.pairwise_append.mp hchain).2.2 a ha block (List.mem_cons_self ..)

/-! ## Archiving -/

/-- What the fork choice hands out for a finalized root. -/
structure HandedOut (this : ForkChoice) (root : RootHex)
    (chain canonical nonCanonical : List IProtoNode) : Prop where
  chain_eq : this.protoArray.getAllAncestorNodes root = .ok chain
  canonical_eq : getAllAncestorBlocks this root = .ok canonical
  nonCanonical_eq : getAllNonAncestorBlocks this root = .ok nonCanonical

omit [Preset] in
theorem HandedOut.canonical_eq_dropLast (h : HandedOut this root chain canonical nonCanonical) :
    canonical = chain.dropLast := by
  have := h.canonical_eq
  rw [getAllAncestorBlocks, h.chain_eq] at this
  exact (Except.ok.inj this).symm

omit [Preset] in
theorem HandedOut.pairwise (h : HandedOut this root chain canonical nonCanonical)
    (ht : this.protoArray.Tree) (hs : this.protoArray.SlotsIncrease) :
    chain.Pairwise fun child ancestor => ancestor.slot < child.slot := by
  have heq := h.chain_eq
  cases hi : this.protoArray.indices[root]? with
  | none =>
    rw [ProtoArray.getAllAncestorNodes, hi] at heq
    cases heq
    exact .nil
  | some i =>
    rw [ProtoArray.getAllAncestorNodes_eq ht hi] at heq
    cases heq
    exact hs.pairwise_chain ht i

theorem HandedOut.mem_nonCheckpointBlockRoots
    (h : HandedOut this root chain canonical nonCanonical) (ht : this.protoArray.Tree)
    (hs : this.protoArray.SlotsIncrease) (hblock : block ∈ chain) :
    block.blockRoot ∈ nonCheckpointBlockRoots canonical nonCanonical ↔
      block ∈ canonical.dropLast ∧ block.slot % SLOTS_PER_EPOCH ≠ 0 := by
  cases hi : this.protoArray.indices[root]? with
  | none =>
    have heq := h.chain_eq
    rw [ProtoArray.getAllAncestorNodes, hi] at heq
    cases heq
    exact absurd hblock List.not_mem_nil
  | some i =>
    have heq := h.chain_eq
    rw [ProtoArray.getAllAncestorNodes_eq ht hi] at heq
    have hchain : ∀ node ∈ chain, ∃ a, (this.protoArray.forest ht).Descends i a ∧
        this.protoArray.nodes[a]? = some node := fun node hnode =>
      (ProtoArray.mem_chain ht).mp (Except.ok.inj heq ▸ hnode)
    obtain ⟨a, ha, hget⟩ := hchain block hblock
    have hbeside : block.blockRoot ∉ nonCanonical.map (·.blockRoot) := by
      intro hmem
      obtain ⟨node, hnode, hroot⟩ := List.mem_map.mp hmem
      obtain ⟨nodes, hnodes, hall⟩ := ProtoArray.getAllNonAncestorNodes_eq ht hi
      obtain rfl : nodes = nonCanonical := Except.ok.inj (hnodes.symm.trans h.nonCanonical_eq)
      obtain ⟨j, _, hj, hgetj⟩ := hall node hnode
      exact hj (ht.root_inj hgetj hget hroot ▸ ha)
    have hpair : (canonical.map blockRootSlot).Pairwise
        fun child ancestor => ancestor.slot < child.slot := by
      rw [List.pairwise_map, h.canonical_eq_dropLast]
      exact (h.pairwise ht hs).sublist (List.dropLast_sublist _)
    rw [nonCheckpointBlockRoots, List.mem_append, or_iff_right hbeside,
      getNonCheckpointBlocks_of_pairwise hpair]
    simp only [List.mem_map, List.mem_reverse, List.mem_filter, ← List.map_dropLast]
    constructor
    · rintro ⟨_, ⟨⟨node, hnode, rfl⟩, hn⟩, hroot⟩
      have hnc : node ∈ chain := List.mem_of_mem_dropLast
        (h.canonical_eq_dropLast ▸ List.mem_of_mem_dropLast hnode)
      obtain ⟨a', _, hget'⟩ := hchain node hnc
      obtain rfl : a' = a := ht.root_inj hget' hget hroot
      obtain rfl : node = block := Option.some.inj (hget'.symm.trans hget)
      exact ⟨hnode, of_decide_eq_true hn⟩
    · rintro ⟨hmem, hn⟩
      exact ⟨_, ⟨⟨block, hmem, rfl⟩, decide_eq_true hn⟩, rfl⟩

/-- No block on the chain that is pruned may be a checkpoint. -/
def KeepsCheckpoints (this : ForkChoice) (root : RootHex) : Prop :=
  ∀ chain canonical nonCanonical, HandedOut this root chain canonical nonCanonical →
    ∀ block ∈ chain, block.blockRoot ∈ nonCheckpointBlockRoots canonical nonCanonical →
      ¬ MayBeCheckpoint chain block

/-- All but the oldest block are at the first slot of an epoch or succeeded in time. -/
def FirstSlotsFilled (canonical : List IProtoNode) : Prop :=
  ∀ block ∈ canonical.dropLast,
    block.slot % SLOTS_PER_EPOCH = 0 ∨ IsSucceeded canonical block

omit [Preset] in
theorem exists_handedOut (ht : this.protoArray.Tree) (root : RootHex) :
    ∃ chain canonical nonCanonical, HandedOut this root chain canonical nonCanonical := by
  cases hi : this.protoArray.indices[root]? with
  | none =>
    have hchain : this.protoArray.getAllAncestorNodes root = .ok [] := by
      rw [ProtoArray.getAllAncestorNodes, hi]
    refine ⟨[], [], [], hchain, ?_, ?_⟩
    · rw [getAllAncestorBlocks, hchain]
      rfl
    · rw [getAllNonAncestorBlocks, ProtoArray.getAllNonAncestorNodes, hi]
  | some i =>
    have hchain := ProtoArray.getAllAncestorNodes_eq ht hi
    obtain ⟨nodes, hnodes, -⟩ := ProtoArray.getAllNonAncestorNodes_eq ht hi
    refine ⟨_, (this.protoArray.chain ht i).dropLast, nodes, hchain, ?_, hnodes⟩
    rw [getAllAncestorBlocks, hchain]
    rfl

theorem keepsCheckpoints_iff (hr : this.Reachable) (hs : this.protoArray.SlotsIncrease)
    (root : RootHex) : KeepsCheckpoints this root ↔
      ∀ canonical, getAllAncestorBlocks this root = .ok canonical → FirstSlotsFilled canonical := by
  have ht : this.protoArray.Tree := hr.protoArray_reachable.wf.toTree
  constructor
  · intro h canonical hcanonical block hblock
    obtain ⟨chain, canonical', nonCanonical, hout⟩ := exists_handedOut ht root
    obtain rfl : canonical = canonical' := Except.ok.inj (hcanonical.symm.trans hout.canonical_eq)
    by_contra hn
    obtain ⟨hfirst, hsucceeded⟩ := not_or.mp hn
    have hdrop : block ∈ chain.dropLast := hout.canonical_eq_dropLast ▸ List.mem_of_mem_dropLast hblock
    apply h chain canonical nonCanonical hout block (List.mem_of_mem_dropLast hdrop)
    · exact (hout.mem_nonCheckpointBlockRoots ht hs (List.mem_of_mem_dropLast hdrop)).mpr
        ⟨hblock, hfirst⟩
    · rw [mayBeCheckpoint_iff (hout.pairwise ht hs) hdrop hfirst, ← hout.canonical_eq_dropLast]
      exact hsucceeded
  · intro h chain canonical nonCanonical hout block hblock hmem
    obtain ⟨hdrop, hfirst⟩ := (hout.mem_nonCheckpointBlockRoots ht hs hblock).mp hmem
    have hcanonical : block ∈ chain.dropLast := hout.canonical_eq_dropLast ▸ List.mem_of_mem_dropLast hdrop
    rw [mayBeCheckpoint_iff (hout.pairwise ht hs) hcanonical hfirst, not_not, ← hout.canonical_eq_dropLast]
    exact (h canonical hout.canonical_eq block hdrop).resolve_left hfirst

theorem not_keepsCheckpoints (ht : this.protoArray.Tree) (hs : this.protoArray.SlotsIncrease)
    (epoch : Nat)
    (hpruned : ∃ block ∈ okOr [] (this.protoArray.getAllAncestorNodes root),
      block.blockRoot ∈ nonCheckpointBlockRoots (okOr [] (getAllAncestorBlocks this root))
        (okOr [] (getAllNonAncestorBlocks this root)) ∧
      (okOr [] (this.protoArray.getAllAncestorNodes root)).find?
        (·.slot ≤ computeStartSlotAtEpoch epoch) = some block) : ¬ KeepsCheckpoints this root := by
  intro h
  obtain ⟨chain, canonical, nonCanonical, hout⟩ := exists_handedOut ht root
  rw [hout.chain_eq, hout.canonical_eq, hout.nonCanonical_eq] at hpruned
  obtain ⟨block, hblock, hmem, hfind⟩ := hpruned
  exact h _ _ _ hout block hblock hmem ⟨[], epoch, hout.pairwise ht hs, hfind⟩

end Main

/-! ## A checkpoint that is pruned -/

attribute [local instance] minimal

/-- The slots 6 and 8 to 24 are skipped, and the block `2` at slot 7 is finalized for epoch 1. -/
def skippedCalls : List Call :=
  [.updateTime 33,
    .onBlock (plainBlock 5 1 0xaa) (plainState 5 ⟨0, 0xaa⟩ ⟨0, 0xaa⟩) (some (lateData none)),
    .onBlock (plainBlock 7 2 1) (plainState 7 ⟨0, 0xaa⟩ ⟨0, 0xaa⟩) (some (lateData none)),
    .onBlock (plainBlock 25 3 2) (plainState 25 ⟨2, 2⟩ ⟨1, 2⟩) (some (lateData (some [1])))]

def skippedChoice : ForkChoice := (genesisChoice false).afterCalls skippedCalls

theorem skippedChoice_reachable : skippedChoice.Reachable :=
  ForkChoice.Reachable.afterCalls ⟨_, genesisChoice_created false, .refl⟩ skippedCalls

theorem skippedChoice_slots : skippedChoice.protoArray.SlotsIncrease := by decide +kernel

theorem not_keepsCheckpoints_skippedChoice :
    skippedChoice.Reachable ∧ skippedChoice.protoArray.SlotsIncrease ∧
      skippedChoice.fcStore.finalizedCheckpoint = ⟨1, 2⟩ ∧ ¬ KeepsCheckpoints skippedChoice 2 :=
  ⟨skippedChoice_reachable, skippedChoice_slots, by decide +kernel,
    not_keepsCheckpoints skippedChoice_reachable.protoArray_reachable.wf.toTree skippedChoice_slots
      1 (by decide +kernel)⟩

theorem keepsCheckpoints_skippedChoice : KeepsCheckpoints skippedChoice 2 ↔
    ∀ canonical, getAllAncestorBlocks skippedChoice 2 = .ok canonical →
      FirstSlotsFilled canonical :=
  keepsCheckpoints_iff skippedChoice_reachable skippedChoice_slots 2

end Lodestar.Chain
