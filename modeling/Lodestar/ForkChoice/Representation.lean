import Lodestar.ForkChoice.FindHead

/-!
# What the nodes of a proto array say

Along a run, a parent index names the parent block, and best descendants agree
with best children (`ProtoArray.Sound`). Pruning renumbers all of it, and the
heads of the remaining blocks stay as they were.
-/

namespace Lodestar.ForkChoice

open Lodestar.Base

namespace ProtoArray

variable {this this' : ProtoArray}

/-- A parent index is that of the parent root. -/
def ParentRoots (this : ProtoArray) : Prop :=
  ∀ (c p : Nat) (node : IProtoNode), this.nodes[c]? = some node → node.parent = some p →
    ∃ parent, this.nodes[p]? = some parent ∧ parent.blockRoot = node.parentRoot

structure Sound (this : ProtoArray) : Prop extends Wf this where
  parentRoots : this.ParentRoots
  coherent : this.links.Coherent

/-! ## Parents -/

/-- Only weights and pointers differ. -/
def SameTree (this this' : ProtoArray) : Prop :=
  ∀ i : Nat, this'.nodes[i]?.map (fun node => (node.parent, node.toIProtoBlock)) =
    this.nodes[i]?.map fun node => (node.parent, node.toIProtoBlock)

theorem ParentRoots.congr (h : this.ParentRoots) (hs : SameTree this this') :
    this'.ParentRoots := by
  intro c p node hnode hp
  have hc := hs c
  rw [hnode, Option.map_some, eq_comm, Option.map_eq_some_iff] at hc
  obtain ⟨old, hold, heq⟩ := hc
  obtain ⟨hparent, hblock⟩ := Prod.mk.inj heq
  obtain ⟨parent, hget, hroot⟩ := h c p old hold (hparent.trans hp)
  have hp' := hs p
  rw [hget, Option.map_some, Option.map_eq_some_iff] at hp'
  obtain ⟨parent', hget', heq'⟩ := hp'
  refine ⟨parent', hget', ?_⟩
  rw [(Prod.mk.inj heq').2, hroot, hblock]

theorem sameTree_relink (l : Links) : SameTree this (this.relink l) := by
  intro i
  rw [getElem?_relink, Option.map_map]
  rfl

theorem sameTree_scored (h : this.Tree) (changes : ScoreChanges) :
    SameTree this (this.scored h changes) := by
  intro i
  rw [scored, getElem?_reweigh, Option.map_map]
  rfl

theorem ParentRoots.addNode (h : this.ParentRoots) (ht : this.Tree) (block : IProtoBlock) :
    (this.addNode block).ParentRoots := by
  intro c p node hnode hp
  have hold : ∀ {p : Nat} {parent : IProtoNode}, this.nodes[p]? = some parent →
      (this.addNode block).nodes[p]? = some parent := by
    intro p parent hparent
    rwa [getElem?_addNode_of_lt (List.getElem?_eq_some_iff.mp hparent).1]
  rcases Nat.lt_trichotomy c this.nodes.length with hlt | rfl | hgt
  · rw [getElem?_addNode_of_lt hlt] at hnode
    obtain ⟨parent, hparent, hroot⟩ := h c p node hnode hp
    exact ⟨parent, hold hparent, hroot⟩
  · rw [getElem?_addNode_length] at hnode
    cases hnode
    obtain ⟨parent, hparent, hroot⟩ := ht.indices_iff.mp hp
    exact ⟨parent, hold hparent, hroot⟩
  · rw [getElem?_addNode_of_gt hgt] at hnode
    cases hnode

theorem ParentRoots.dropNodes (h : this.ParentRoots) (n : Nat) :
    (this.dropNodes n).ParentRoots := by
  intro c p node hnode hp
  rw [getElem?_dropNodes] at hnode
  obtain ⟨old, hold, rfl⟩ := Option.map_eq_some_iff.mp hnode
  obtain ⟨q, hq, hite⟩ := Option.bind_eq_some_iff.mp hp
  split at hite
  · cases hite
  · obtain rfl := Option.some.inj hite
    obtain ⟨parent, hparent, hroot⟩ := h _ _ old hold hq
    refine ⟨dropNode n parent, ?_, hroot⟩
    rw [getElem?_dropNodes, Nat.sub_add_cancel (by omega), hparent]
    rfl

/-! ## Runs -/

theorem Sound.empty (pruneThreshold justifiedEpoch : Nat) (justifiedRoot : RootHex)
    (finalizedEpoch : Nat) (finalizedRoot : RootHex) :
    (empty pruneThreshold justifiedEpoch justifiedRoot finalizedEpoch finalizedRoot).Sound where
  toWf := Wf.empty ..
  parentRoots _ _ _ h := by simp [ProtoArray.empty] at h
  coherent hc := by simp [ProtoArray.links, ProtoArray.empty] at hc

theorem Sound.onBlock (h : this.Sound) {block : IProtoBlock}
    (hcall : this.onBlock block = .ok this') : this'.Sound := by
  rcases onBlock_eq h.toWf block with ⟨-, heq⟩ | ⟨hnew, l, hl, hcoh, heq⟩
  · cases hcall.symm.trans heq
    exact h
  · cases hcall.symm.trans heq
    have hwf := h.addNode hnew
    refine ⟨hwf.relink hl, (h.parentRoots.addNode h.toTree block).congr (sameTree_relink l),
      ?_⟩
    rw [links_relink (le_refl _) hl]
    exact hcoh h.coherent

theorem Sound.applyScoreChanges (h : this.Sound) {changes : ScoreChanges}
    (hcall : this.applyScoreChanges changes = .ok this') : this'.Sound := by
  rcases h.toWf.applyScoreChanges changes with heq | ⟨that, heq, hwf⟩
  · rw [hcall] at heq
    cases heq
  · obtain rfl : that = this' := Except.ok.inj (heq.symm.trans hcall)
    obtain ⟨-, -, hlinks⟩ := applyScoreChanges_parts h.toWf hcall hwf
    have happly := applyScoreChanges_eq h.toWf changes (length_deltas h.toWf hcall)
    refine ⟨hwf, ?_, ?_⟩
    · obtain rfl := Except.ok.inj (heq.symm.trans happly)
      exact (h.parentRoots.congr (sameTree_scored h.toTree changes)).congr (sameTree_relink _)
    · rw [hlinks]
      exact h.links.coherent_pass

theorem Sound.dropNodes (h : this.Sound) (n : Nat) : (this.dropNodes n).Sound where
  toWf := h.toWf.dropNodes n
  parentRoots := h.parentRoots.dropNodes n
  coherent := by
    rw [links_dropNodes]
    exact Links.Coherent.drop h.coherent h.links n

theorem Sound.maybePrune (h : this.Sound) {finalizedRoot : RootHex} {removed : List IProtoBlock}
    (hcall : this.maybePrune finalizedRoot = .ok (removed, this')) : this'.Sound := by
  rw [maybePrune_eq h.toWf] at hcall
  cases hn : this.indices[finalizedRoot]? with
  | none =>
    rw [hn] at hcall
    cases hcall
  | some n =>
    simp only [hn] at hcall
    split at hcall
    · cases hcall
      exact h
    · cases hcall
      exact h.dropNodes n

theorem Sound.step (h : this.Sound) (hstep : Step this this') : this'.Sound := by
  cases hstep with
  | onBlock block hcall => exact h.onBlock hcall
  | applyScoreChanges changes hcall => exact h.applyScoreChanges hcall
  | maybePrune finalizedRoot removed hcall => exact h.maybePrune hcall
  | setPruneThreshold threshold =>
    exact ⟨h.toWf.step (.setPruneThreshold this threshold), h.parentRoots, h.coherent⟩

theorem Reachable.sound (h : this.Reachable) : this.Sound := by
  obtain ⟨_, _, _, _, _, hrun⟩ := h
  induction hrun with
  | refl => exact Sound.empty ..
  | tail _ hstep ih => exact ih.step hstep

/-! ## Heads after pruning -/

theorem getElem?_indices_dropNodes (h : this.Tree) {n i : Nat} {r : RootHex}
    (hi : this.indices[r]? = some i) (hle : n ≤ i) :
    (this.dropNodes n).indices[r]? = some (i - n) := by
  obtain ⟨node, hnode, hroot⟩ := h.indices_iff.mp hi
  refine (h.dropNodes n).indices_iff.mpr ⟨dropNode n node, ?_, hroot⟩
  rw [getElem?_dropNodes, Nat.sub_add_cancel hle, hnode]
  rfl

theorem findHead_dropNodes (h : this.Sound) {n i : Nat} {r : RootHex}
    (hi : this.indices[r]? = some i) (hle : n ≤ i) :
    (this.dropNodes n).findHead r = this.findHead r := by
  obtain ⟨node, hnode, -⟩ := h.indices_iff.mp hi
  have hget : ∀ j, n ≤ j → (this.dropNodes n).nodes[j - n]? = this.nodes[j]?.map (dropNode n) := by
    intro j hj
    rw [getElem?_dropNodes, Nat.sub_add_cancel hj]
  have hdesc : ∀ d, node.bestDescendant = some d → n ≤ d := by
    intro d hd
    have hlink : this.links.bestDescendant (i - n + n) = some d := by
      rw [Nat.sub_add_cancel hle]
      simp [ProtoArray.links, hnode, hd]
    exact h.links.le_bestDescendant hlink
  have hbest : n ≤ node.bestDescendant.getD i := by
    cases hd : node.bestDescendant with
    | none => exact hle
    | some d => exact hdesc d hd
  have hshift : (dropNode n node).bestDescendant.getD (i - n) = node.bestDescendant.getD i - n := by
    show (node.bestDescendant.map (· - n)).getD (i - n) = _
    cases node.bestDescendant <;> rfl
  unfold findHead
  simp only [hi, getElem?_indices_dropNodes h.toTree hi hle, hnode, hget i hle, Option.map_some,
    hshift, hget _ hbest]
  obtain ⟨best, hget', -⟩ := findHead_eq h.toWf hi
  have hhead : this.links.head i = node.bestDescendant.getD i := by
    simp [Links.head, ProtoArray.links, hnode]
  have hne : (node.bestDescendant.getD i - n ≠ i - n) = (node.bestDescendant.getD i ≠ i) :=
    propext (by omega)
  rw [hhead] at hget'
  simp only [hget', Option.map_some, hne]
  rfl

/-! ## The representation -/

/-- `indices` names the nodes; a parent comes before its children and is the block of the parent
root; a best child is a child, and the best descendant is that child's, or the child itself. -/
theorem Sound.representation (h : this.Sound) :
    (∀ (r : RootHex) (i : Nat),
      this.indices[r]? = some i ↔ ∃ node, this.nodes[i]? = some node ∧ node.blockRoot = r) ∧
    ∀ (i : Nat) (node : IProtoNode), this.nodes[i]? = some node →
      (∀ p, node.parent = some p →
        p < i ∧ ∃ parent, this.nodes[p]? = some parent ∧ parent.blockRoot = node.parentRoot) ∧
      (∀ c, node.bestChild = some c → ∃ child, this.nodes[c]? = some child ∧
        child.parent = some i ∧ node.bestDescendant = some (child.bestDescendant.getD c)) ∧
      (node.bestChild = none → node.bestDescendant = none) := by
  refine ⟨fun _ _ => h.indices_iff, fun i node hnode => ⟨fun p hp => ?_, fun c hc => ?_, fun hc => ?_⟩⟩
  · have hparent : this.parentOf i = some p := by simp [parentOf, hnode, hp]
    exact ⟨h.parent_lt hparent, h.parentRoots i p node hnode hp⟩
  · have hlink : this.links.bestChild i = some c := by simp [ProtoArray.links, hnode, hc]
    have hparent : this.parentOf c = some i := h.links.parent hlink
    obtain ⟨child, hchild, hp⟩ := Option.bind_eq_some_iff.mp hparent
    have hdesc := h.coherent hlink (Set.mem_univ c)
    refine ⟨child, hchild, hp, ?_⟩
    simpa [ProtoArray.links, Links.head, hnode, hchild] using hdesc
  · have hlink : this.links.bestChild i = none := by simp [ProtoArray.links, hnode, hc]
    simpa [ProtoArray.links, hnode] using h.links.bestDescendant_eq_none hlink

/-- `maybePrune` with a known root: below the threshold nothing happens, else the nodes before the
finalized one go; the heads of the remaining blocks stay. -/
theorem Sound.maybePrune_spec (h : this.Sound) {finalizedRoot : RootHex} {n : Nat}
    (hn : this.indices[finalizedRoot]? = some n) :
    ∃ removed this', this.maybePrune finalizedRoot = .ok (removed, this') ∧
      (n < this.pruneThreshold → removed = [] ∧ this' = this) ∧
      (this.pruneThreshold ≤ n → removed = (this.nodes.take n).map (·.toIProtoBlock) ∧
        this'.nodes.map (·.toIProtoBlock) = (this.nodes.drop n).map (·.toIProtoBlock)) ∧
      ∀ r i, this.indices[r]? = some i → n ≤ i → this'.findHead r = this.findHead r := by
  rw [maybePrune_eq h.toWf]
  simp only [hn]
  split
  · exact ⟨[], this, rfl, fun _ => ⟨rfl, rfl⟩, fun hle => by omega, fun _ _ _ _ => rfl⟩
  · refine ⟨_, _, rfl, fun hlt => by omega, fun _ => ⟨rfl, ?_⟩,
      fun r i hi hle => findHead_dropNodes h hi hle⟩
    rw [ProtoArray.dropNodes, List.map_map]
    rfl

/-- What holds of the nodes after every run, and what pruning does to them. -/
theorem representation_of_reachable (hr : this.Reachable) :
    (∀ (r : RootHex) (i : Nat),
      this.indices[r]? = some i ↔ ∃ node, this.nodes[i]? = some node ∧ node.blockRoot = r) ∧
    (∀ (i : Nat) (node : IProtoNode), this.nodes[i]? = some node →
      (∀ p, node.parent = some p →
        p < i ∧ ∃ parent, this.nodes[p]? = some parent ∧ parent.blockRoot = node.parentRoot) ∧
      (∀ c, node.bestChild = some c → ∃ child, this.nodes[c]? = some child ∧
        child.parent = some i ∧ node.bestDescendant = some (child.bestDescendant.getD c)) ∧
      (node.bestChild = none → node.bestDescendant = none)) ∧
    ∀ (finalizedRoot : RootHex) (n : Nat), this.indices[finalizedRoot]? = some n →
      ∃ removed this', this.maybePrune finalizedRoot = .ok (removed, this') ∧
        (n < this.pruneThreshold → removed = [] ∧ this' = this) ∧
        (this.pruneThreshold ≤ n → removed = (this.nodes.take n).map (·.toIProtoBlock) ∧
          this'.nodes.map (·.toIProtoBlock) = (this.nodes.drop n).map (·.toIProtoBlock)) ∧
        ∀ r i, this.indices[r]? = some i → n ≤ i → this'.findHead r = this.findHead r :=
  ⟨hr.sound.representation.1, hr.sound.representation.2, fun _ _ => hr.sound.maybePrune_spec⟩

theorem representation_of_reachable_staleArray :
    ∃ removed this', staleArray.maybePrune 0xcc = .ok (removed, this') ∧
      removed = (staleArray.nodes.take 1).map (·.toIProtoBlock) := by
  obtain ⟨removed, this', hcall, -, hremoved, -⟩ :=
    (representation_of_reachable staleArray_reachable).2.2 0xcc 1 (by decide +kernel)
  exact ⟨removed, this', hcall, (hremoved (by decide +kernel)).1⟩

/-- The anchor and a child, with a threshold above both. -/
def smallArray : ProtoArray :=
  okOr (empty 256 1 0xaa 0 0xaa)
    ([staleBlock 8 0xaa 0x99, staleBlock 9 0xcc 0xaa].foldlM onBlock (empty 256 1 0xaa 0 0xaa))

/-- Below the threshold the anchor stays, though it comes before the finalized child. -/
theorem smallArray_not_pruned :
    smallArray.Reachable ∧ smallArray.indices[(0xcc : RootHex)]? = some 1 ∧
      ¬ ∃ removed this', smallArray.maybePrune 0xcc = .ok (removed, this') ∧
        removed = (smallArray.nodes.take 1).map (·.toIProtoBlock) := by
  refine ⟨⟨256, 1, 0xaa, 0, 0xaa, run_of_foldlM (eq_ok_okOr _ (by decide +kernel))⟩,
    by decide +kernel, ?_⟩
  rintro ⟨removed, this', hcall, hremoved⟩
  have hnone : (smallArray.maybePrune 0xcc).map (·.1) = .ok [] := by decide +kernel
  rw [hcall, hremoved] at hnone
  have hlen : (smallArray.nodes.take 1).length = 1 := by decide +kernel
  have hempty : (smallArray.nodes.take 1).map (·.toIProtoBlock) = [] := Except.ok.inj hnone
  rw [List.map_eq_nil_iff.mp hempty] at hlen
  cases hlen

end ProtoArray

end Lodestar.ForkChoice
