import Lodestar.ForkChoice.Ancestors

/-!
# Weights of a proto array

The weight of a node is the sum of what the blocks of its subtree have of their
own, the balance of the votes for them and the boost. The methods of the proto
array keep it so (`ProtoArray.Weighs`).
-/

namespace Lodestar.ForkChoice

open Lodestar.Base

namespace ProtoArray

variable {this this' : ProtoArray} {own own' : RootHex → Int} {i : Nat} {node : IProtoNode}

/-- What the block at `i` has of its own. -/
def ownAt (this : ProtoArray) (own : RootHex → Int) (i : Nat) : Int :=
  match this.nodes[i]? with
  | some node => own node.blockRoot
  | none => 0

/-- The weights are the sums over the subtrees. The alias of the genesis block has none, and has no
parent that misses it. -/
structure Weighs (this : ProtoArray) (own : RootHex → Int) : Prop extends Wf this where
  parent_alias : ∀ {i : Nat} {node : IProtoNode}, this.nodes[i]? = some node →
    node.blockRoot = HEX_ZERO_HASH → node.parent = none
  weight : ∀ {i : Nat} {node : IProtoNode}, this.nodes[i]? = some node →
    node.weight = if node.blockRoot = HEX_ZERO_HASH then 0
      else (this.forest toTree).subtreeSum (this.ownAt own) i

theorem ownAt_eq (h : this.nodes[i]? = some node) : this.ownAt own i = own node.blockRoot := by
  rw [ownAt, h]

theorem Weighs.root_ne (h : this.Weighs own) {d : Nat} {below : IProtoNode}
    (hdesc : (this.forest h.toTree).Descends d i) (hi : this.nodes[i]? = some node)
    (hroot : node.blockRoot ≠ HEX_ZERO_HASH) (hd : this.nodes[d]? = some below) :
    below.blockRoot ≠ HEX_ZERO_HASH := by
  intro halias
  by_cases hne : d = i
  · subst hne
    rw [hi] at hd
    exact hroot (Option.some.inj hd ▸ halias)
  · obtain ⟨p, hp, -⟩ := hdesc.exists_parent hne
    have hparent : this.parentOf d = some p := hp
    rw [parentOf, hd, Option.bind_some, h.parent_alias hd halias] at hparent
    cases hparent

theorem Weighs.congr (h : this.Weighs own)
    (hown : ∀ node ∈ this.nodes, node.blockRoot ≠ HEX_ZERO_HASH →
      own' node.blockRoot = own node.blockRoot) : this.Weighs own' where
  toWf := h.toWf
  parent_alias := h.parent_alias
  weight {i node} hnode := by
    rw [h.weight hnode]
    split_ifs with hroot
    · rfl
    · refine Forest.subtreeSum_congr fun d hd hdesc => ?_
      obtain ⟨below, hbelow⟩ : ∃ below, this.nodes[d]? = some below :=
        ⟨_, List.getElem?_eq_getElem hd⟩
      rw [ownAt_eq hbelow, ownAt_eq hbelow,
        hown below (List.mem_of_getElem? hbelow) (h.root_ne hdesc hnode hroot hbelow)]

theorem Weighs.empty (pruneThreshold justifiedEpoch : Nat) (justifiedRoot : RootHex)
    (finalizedEpoch : Nat) (finalizedRoot : RootHex) (own : RootHex → Int) :
    (empty pruneThreshold justifiedEpoch justifiedRoot finalizedEpoch
      finalizedRoot).Weighs own where
  toWf := Wf.empty ..
  parent_alias h := by simp [ProtoArray.empty] at h
  weight h := by simp [ProtoArray.empty] at h

/-! ## The methods -/

theorem Weighs.relink (h : this.Weighs own) {l : Links} (hl : Links.Inv (this.forest h.toTree) l) :
    (this.relink l).Weighs own where
  toWf := h.toWf.relink hl
  parent_alias {i node} hnode hroot := by
    rw [getElem?_relink] at hnode
    obtain ⟨old, hold, rfl⟩ := Option.map_eq_some_iff.mp hnode
    have hparent := h.parent_alias hold hroot
    exact hparent
  weight {i node} hnode := by
    have hown : (this.relink l).ownAt own = this.ownAt own := by
      funext j
      rw [ownAt, getElem?_relink, ownAt]
      cases this.nodes[j]? <;> rfl
    rw [getElem?_relink] at hnode
    obtain ⟨old, hold, rfl⟩ := Option.map_eq_some_iff.mp hnode
    have hweight := h.weight hold
    rw [forest_relink _ h.toTree, hown]
    exact hweight

theorem Weighs.addNode (h : this.Weighs own) {block : IProtoBlock}
    (hnew : this.indices[block.blockRoot]? = none)
    (halias : block.blockRoot = HEX_ZERO_HASH → this.indices[block.parentRoot]? = none)
    (hown : own block.blockRoot = 0) : (this.addNode block).Weighs own where
  toWf := h.toWf.addNode hnew
  parent_alias {i node} hnode hroot := by
    rcases Nat.lt_trichotomy i this.nodes.length with hlt | rfl | hgt
    · rw [getElem?_addNode_of_lt hlt] at hnode
      exact h.parent_alias hnode hroot
    · rw [getElem?_addNode_length] at hnode
      obtain rfl := Option.some.inj hnode
      exact halias hroot
    · rw [getElem?_addNode_of_gt hgt] at hnode
      cases hnode
  weight {i node} hnode := by
    have hlast : (this.addNode block).ownAt own this.nodes.length = 0 := by
      rw [ownAt_eq getElem?_addNode_length]
      exact hown
    have hsum : ∀ j, ((this.addNode block).forest (h.toTree.addNode hnew)).subtreeSum
        ((this.addNode block).ownAt own) j
          = (this.forest h.toTree).subtreeSum (this.ownAt own) j := by
      intro j
      rw [forest_addNode h.toTree hnew, Forest.subtreeSum_push (f := this.forest h.toTree) hlast]
      refine Forest.subtreeSum_congr fun d hd _ => ?_
      rw [ownAt, getElem?_addNode_of_lt hd, ownAt]
    rw [hsum]
    rcases Nat.lt_trichotomy i this.nodes.length with hlt | rfl | hgt
    · rw [getElem?_addNode_of_lt hlt] at hnode
      exact h.weight hnode
    · rw [getElem?_addNode_length] at hnode
      obtain rfl := Option.some.inj hnode
      rw [Forest.subtreeSum_of_le (f := this.forest h.toTree) (i := this.nodes.length) le_rfl,
        ite_self]
      rfl
    · rw [getElem?_addNode_of_gt hgt] at hnode
      cases hnode

theorem Weighs.onBlock (h : this.Weighs own) {block : IProtoBlock}
    (hfresh : this.indices[block.blockRoot]? = none →
      (block.blockRoot = HEX_ZERO_HASH → this.indices[block.parentRoot]? = none) ∧
        own block.blockRoot = 0)
    (hcall : this.onBlock block = .ok this') :
    this'.Weighs own ∧ this'.previousProposerBoost = this.previousProposerBoost := by
  rcases onBlock_eq h.toWf block with ⟨-, heq⟩ | ⟨hnew, l, hl, -, heq⟩
  · obtain rfl := Except.ok.inj (heq.symm.trans hcall)
    exact ⟨h, rfl⟩
  · obtain rfl := Except.ok.inj (heq.symm.trans hcall)
    obtain ⟨halias, hown⟩ := hfresh hnew
    exact ⟨(h.addNode hnew halias hown).relink hl, rfl⟩

theorem Weighs.dropNodes (h : this.Weighs own) (n : Nat) : (this.dropNodes n).Weighs own where
  toWf := h.toWf.dropNodes n
  parent_alias {i node} hnode hroot := by
    rw [getElem?_dropNodes] at hnode
    obtain ⟨old, hold, rfl⟩ := Option.map_eq_some_iff.mp hnode
    have hparent : old.parent = none := h.parent_alias hold hroot
    simp [dropNode, hparent]
  weight {i node} hnode := by
    rw [getElem?_dropNodes] at hnode
    obtain ⟨old, hold, rfl⟩ := Option.map_eq_some_iff.mp hnode
    have hsum : ((this.dropNodes n).forest (h.toTree.dropNodes n)).subtreeSum
        ((this.dropNodes n).ownAt own) i
          = (this.forest h.toTree).subtreeSum (this.ownAt own) (i + n) := by
      rw [forest_dropNodes h.toTree, Forest.subtreeSum_drop]
      refine Forest.subtreeSum_congr fun d hd hdesc => ?_
      rw [ownAt, getElem?_dropNodes, Nat.sub_add_cancel (by have := hdesc.le; omega), ownAt]
      cases this.nodes[d]? <;> rfl
    have hweight := h.weight hold
    rw [hsum]
    exact hweight

theorem Weighs.maybePrune (h : this.Weighs own) {finalizedRoot : RootHex}
    {removed : List IProtoBlock} (hcall : this.maybePrune finalizedRoot = .ok (removed, this')) :
    this'.Weighs own ∧ this'.previousProposerBoost = this.previousProposerBoost := by
  rw [maybePrune_eq h.toWf] at hcall
  split at hcall
  · cases hcall
  · split at hcall
    · cases hcall
      exact ⟨h, rfl⟩
    · cases hcall
      exact ⟨h.dropNodes _, rfl⟩

theorem Weighs.of_nodes (h : this.Weighs own) (hnodes : this'.nodes = this.nodes)
    (hindices : this'.indices = this.indices) : this'.Weighs own := by
  obtain ⟨_, _, _, _, _, nodes, indices, _⟩ := this
  obtain ⟨_, _, _, _, _, nodes', indices', _⟩ := this'
  obtain rfl : nodes' = nodes := hnodes
  obtain rfl : indices' = indices := hindices
  exact ⟨⟨⟨h.indices_iff, h.parent_lt⟩, h.links⟩, h.parent_alias, h.weight⟩

theorem Weighs.scoreForest_eq (h : this.Weighs own) :
    this.scoreForest h.toTree = this.forest h.toTree := by
  refine Forest.ext' rfl (funext fun c => ?_)
  change (if this.isZeroAt c = true then none else this.parentOf c) = this.parentOf c
  split
  · rename_i hzero
    rw [isZeroAt] at hzero
    split at hzero
    · rename_i node hnode
      rw [parentOf, hnode, Option.bind_some, h.parent_alias hnode (of_decide_eq_true hzero)]
    · cases hzero
  · rfl

/-- New weights, where the change adds to each block's own what `own'` has more than `own`. -/
theorem Weighs.scored (h : this.Weighs own) (changes : ScoreChanges)
    (hown : ∀ {i : Nat} {node : IProtoNode}, this.nodes[i]? = some node →
      node.blockRoot ≠ HEX_ZERO_HASH →
      own' node.blockRoot = own node.blockRoot + this.ownDelta changes i) :
    (this.scored h.toTree changes).Weighs own' where
  toWf := h.toWf.scored changes
  parent_alias {i node} hnode hroot := by
    rw [ProtoArray.scored, getElem?_reweigh] at hnode
    obtain ⟨old, hold, rfl⟩ := Option.map_eq_some_iff.mp hnode
    have hold' : this.nodes[i]? = some old := hold
    have hparent := h.parent_alias hold' hroot
    exact hparent
  weight {i node} hnode := by
    have hsame : (this.scored h.toTree changes).ownAt own' = this.ownAt own' := by
      funext j
      have hnodes : (this.withCheckpoints changes).nodes = this.nodes := rfl
      rw [ownAt, ProtoArray.scored, getElem?_reweigh, ownAt, hnodes]
      cases this.nodes[j]? <;> rfl
    rw [ProtoArray.scored, getElem?_reweigh] at hnode
    obtain ⟨old, hold, rfl⟩ := Option.map_eq_some_iff.mp hnode
    have hold' : this.nodes[i]? = some old := hold
    rw [forest_scored h.toWf, hsame]
    change old.weight + this.weightDelta h.toTree changes i = _
    have hzero : this.isZeroAt i = decide (old.blockRoot = HEX_ZERO_HASH) := by
      rw [isZeroAt, hold']
    rw [h.weight hold', weightDelta, h.scoreForest_eq, hzero]
    by_cases hroot : old.blockRoot = HEX_ZERO_HASH
    · simp [hroot]
    · simp only [hroot, decide_false, if_false, Bool.false_eq_true]
      rw [← Forest.subtreeSum_add]
      refine Forest.subtreeSum_congr fun d hd hdesc => ?_
      obtain ⟨below, hbelow⟩ : ∃ below, this.nodes[d]? = some below :=
        ⟨_, List.getElem?_eq_getElem hd⟩
      rw [ownAt_eq hbelow, ownAt_eq hbelow, hown hbelow (h.root_ne hdesc hold' hroot hbelow)]

theorem Weighs.applyScoreChanges (h : this.Weighs own) {changes : ScoreChanges}
    (hlen : changes.deltas.length = this.nodes.length)
    (hown : ∀ {i : Nat} {node : IProtoNode}, this.nodes[i]? = some node →
      node.blockRoot ≠ HEX_ZERO_HASH →
      own' node.blockRoot = own node.blockRoot + (changes.deltas.getD i 0
        + (boostAt changes.proposerBoost node.blockRoot
          - boostAt this.previousProposerBoost node.blockRoot))) :
    ∃ this', this.applyScoreChanges changes = .ok this' ∧ this'.Weighs own' ∧
      this'.previousProposerBoost = changes.proposerBoost := by
  have hscored : (this.scored h.toTree changes).Weighs own' := by
    refine h.scored changes fun {i node} hnode hroot => ?_
    rw [ownDelta, boostDelta, hnode]
    exact hown hnode hroot
  have hinv : Links.Inv ((this.scored h.toTree changes).forest (h.toWf.scored changes).toTree)
      (Links.pass (this.forest h.toTree) (this.scored h.toTree changes).key
        (this.scored h.toTree changes).viableAt this.nodes.length this.links) := by
    rw [forest_scored h.toWf]
    exact h.links.pass _
  exact ⟨_, applyScoreChanges_eq h.toWf changes hlen, (hscored.relink hinv).of_nodes rfl rfl, rfl⟩

/-! ## Sums over subtrees -/

end ProtoArray

end Lodestar.ForkChoice
