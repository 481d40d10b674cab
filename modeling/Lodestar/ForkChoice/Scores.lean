import Lodestar.ForkChoice.Wf

/-!
# Score changes

The first loop of `applyScoreChanges` adds to each node the deltas and boosts of
its subtree (`Forest.subtreeSum`), where a node with the zero root takes nothing
and passes nothing on; the second is a pass over the pointers.
-/

namespace Lodestar.ForkChoice

open Lodestar.Base

namespace ProtoArray

variable {this : ProtoArray} {i c p : Nat}

/-! ## The first loop -/

/-- Whether the node at `i` has the zero root. -/
def isZeroAt (this : ProtoArray) (i : Nat) : Bool :=
  match this.nodes[i]? with
  | some node => node.blockRoot = HEX_ZERO_HASH
  | none => false

/-- The forest scores are passed up in: nothing leaves a node with the zero root. -/
def scoreForest (this : ProtoArray) (h : this.Tree) : Forest where
  size := this.nodes.length
  parent c := if this.isZeroAt c then none else this.parentOf c
  parent_lt {c p} hp := by
    split at hp
    · cases hp
    · exact h.parent_lt hp
  lt_size {c p} hp := by
    split at hp
    · cases hp
    · exact lt_length_of_parentOf hp

/-- What the new boost adds at the node itself and the previous one takes away. -/
def boostDelta (this : ProtoArray) (changes : ScoreChanges) (i : Nat) : Int :=
  match this.nodes[i]? with
  | some node =>
    boostAt changes.proposerBoost node.blockRoot - boostAt this.previousProposerBoost node.blockRoot
  | none => 0

/-- What the change adds at the node itself. -/
def ownDelta (this : ProtoArray) (changes : ScoreChanges) (i : Nat) : Int :=
  changes.deltas.getD i 0 + this.boostDelta changes i

/-- What the change adds to the weight of the node at `i`. -/
noncomputable def weightDelta (this : ProtoArray) (h : this.Tree) (changes : ScoreChanges)
    (i : Nat) : Int :=
  if this.isZeroAt i then 0 else (this.scoreForest h).subtreeSum (this.ownDelta changes) i

/-- The nodes with `δ` added to their weights. -/
def reweigh (this : ProtoArray) (δ : Nat → Int) : ProtoArray :=
  { this with nodes := this.nodes.mapIdx fun i node => { node with weight := node.weight + δ i } }

theorem applyDeltas_eq_of_stage (h : this.Tree) (changes : ScoreChanges)
    {k : Nat} {nodes : List IProtoNode} {deltas : List Int} (hk : k ≤ this.nodes.length)
    (hnodes : ∀ i, nodes[i]? = this.nodes[i]?.map fun node =>
      if k ≤ i then { node with weight := node.weight + this.weightDelta h changes i } else node)
    (hdeltas : ∀ i < k, deltas[i]? = some
      ((this.scoreForest h).partialSum (this.ownDelta changes) k i - this.boostDelta changes i)) :
    applyDeltas changes.proposerBoost this.previousProposerBoost k nodes deltas
      = .ok (this.reweigh (this.weightDelta h changes)).nodes := by
  induction k generalizing nodes deltas with
  | zero =>
    rw [applyDeltas]
    congr 1
    refine List.ext_getElem? fun i => ?_
    rw [hnodes, reweigh, List.getElem?_mapIdx]
    rfl
  | succ k ih =>
    obtain ⟨node, hnode⟩ : ∃ node, this.nodes[k]? = some node :=
      ⟨_, List.getElem?_eq_getElem hk⟩
    have hk' : nodes[k]? = some node := by simp [hnodes, hnode]
    have hzero : this.isZeroAt k = decide (node.blockRoot = HEX_ZERO_HASH) := by
      simp [isZeroAt, hnode]
    have hboost : this.boostDelta changes k = boostAt changes.proposerBoost node.blockRoot
        - boostAt this.previousProposerBoost node.blockRoot := by simp [boostDelta, hnode]
    have hparent : this.parentOf k = node.parent := by simp [parentOf, hnode]
    have hdelta := hdeltas k (Nat.lt_succ_self k)
    obtain ⟨total, htotal⟩ : ∃ total,
        (this.scoreForest h).subtreeSum (this.ownDelta changes) k = total := ⟨_, rfl⟩
    rw [Forest.partialSum_self _ (le_refl _) hk, htotal] at hdelta
    rw [applyDeltas, hk', hdelta]
    dsimp only
    by_cases hroot : node.blockRoot = HEX_ZERO_HASH
    · -- nothing is added and nothing is passed on
      have hnone : ∀ i, (this.scoreForest h).parent k ≠ some i := by simp [scoreForest, hzero, hroot]
      rw [if_pos hroot]
      refine ih (by omega) (fun i => ?_) fun i hi => ?_
      · rw [hnodes]
        rcases Nat.lt_trichotomy i k with hlt | rfl | hgt
        · simp [Nat.not_le_of_lt hlt, show ¬ k + 1 ≤ i by omega]
        · simp [hnode, weightDelta, hzero, hroot]
        · simp [hgt, hgt.le]
      · rw [hdeltas i (by omega), Forest.partialSum_of_ne _ (hnone i)]
    · rw [if_neg hroot]
      have hweight : this.weightDelta h changes k = total := by
        simp [weightDelta, hzero, hroot, htotal]
      have hforest : (this.scoreForest h).parent k = node.parent := by
        simp [scoreForest, hzero, hroot, hparent]
      have hsum : total - this.boostDelta changes k + boostAt changes.proposerBoost node.blockRoot
          - boostAt this.previousProposerBoost node.blockRoot = total := by
        rw [hboost]
        ring
      rw [hsum]
      have hset : ∀ i, (nodes.set k { node with weight := node.weight + total })[i]?
          = this.nodes[i]?.map fun node =>
            if k ≤ i then { node with weight := node.weight + this.weightDelta h changes i }
            else node := by
        intro i
        rw [List.getElem?_set]
        rcases Nat.lt_trichotomy i k with hlt | rfl | hgt
        · simp [hnodes, hlt.ne', Nat.not_le_of_lt hlt, show ¬ k + 1 ≤ i by omega]
        · have hlen : i < nodes.length := (List.getElem?_eq_some_iff.mp hk').1
          simp [hnode, hweight, hlen]
        · simp [hnodes, hgt, hgt.le, hgt.ne]
      generalize nodes.set k { node with weight := node.weight + total } = nodes' at hset ⊢
      cases hp : node.parent with
      | none =>
        refine ih (by omega) hset fun i hi => ?_
        rw [hdeltas i (by omega), Forest.partialSum_of_ne (k := k) _ (by rw [hforest, hp]; simp)]
      | some p =>
        have hpk : p < k := h.parent_lt (hparent.trans hp)
        have hdp := hdeltas p (by omega)
        simp only [hdp]
        refine ih (by omega) hset fun i hi => ?_
        rw [List.getElem?_set]
        by_cases hip : p = i
        · subst hip
          have hlen : p < deltas.length := (List.getElem?_eq_some_iff.mp hdp).1
          rw [if_pos rfl, if_pos hlen, Forest.partialSum_parent _ (hforest.trans hp),
            htotal]
          congr 1
          ring
        · rw [if_neg hip, hdeltas i (by omega),
            Forest.partialSum_of_ne (k := k) _ (by rw [hforest, hp]; simpa using hip)]

theorem applyDeltas_eq (h : this.Tree) (changes : ScoreChanges)
    (hlen : changes.deltas.length = this.nodes.length) :
    applyDeltas changes.proposerBoost this.previousProposerBoost this.nodes.length this.nodes
      changes.deltas = .ok (this.reweigh (this.weightDelta h changes)).nodes := by
  refine applyDeltas_eq_of_stage h changes (le_refl _) (fun i => ?_) fun i hi => ?_
  · cases hn : this.nodes[i]? with
    | none => rfl
    | some node =>
      have hlt := (List.getElem?_eq_some_iff.mp hn).1
      simp [Nat.not_le_of_lt hlt]
  · have hi' : i < changes.deltas.length := hlen ▸ hi
    have hsize := Forest.partialSum_size (f := this.scoreForest h) (this.ownDelta changes) i
    rw [show this.nodes.length = (this.scoreForest h).size from rfl, hsize, ownDelta]
    simp [hi']

/-! ## The call -/

section Reweigh

variable (δ : Nat → Int)

theorem getElem?_reweigh (i : Nat) :
    (this.reweigh δ).nodes[i]?
      = this.nodes[i]?.map fun node => { node with weight := node.weight + δ i } :=
  List.getElem?_mapIdx

@[simp] theorem length_reweigh : (this.reweigh δ).nodes.length = this.nodes.length :=
  List.length_mapIdx

@[simp] theorem parentOf_reweigh : (this.reweigh δ).parentOf = this.parentOf := by
  funext i
  rw [parentOf, getElem?_reweigh, parentOf]
  cases this.nodes[i]? <;> rfl

@[simp] theorem links_reweigh : (this.reweigh δ).links = this.links := by
  rw [links, links]
  congr 1 <;> funext i <;> rw [getElem?_reweigh] <;> cases this.nodes[i]? <;> rfl

theorem Tree.reweigh (h : this.Tree) : (this.reweigh δ).Tree where
  indices_iff {r i} := by
    rw [getElem?_reweigh]
    refine h.indices_iff.trans
      ⟨fun ⟨node, hnode, hr⟩ => ⟨_, Option.map_eq_some_iff.mpr ⟨node, hnode, rfl⟩, hr⟩, ?_⟩
    rintro ⟨node, hnode, hr⟩
    obtain ⟨node', hnode', rfl⟩ := Option.map_eq_some_iff.mp hnode
    exact ⟨node', hnode', hr⟩
  parent_lt hp := h.parent_lt (by rwa [parentOf_reweigh] at hp)

theorem forest_reweigh (h : this.Tree) : (this.reweigh δ).forest (h.reweigh δ) = this.forest h :=
  Forest.ext' (length_reweigh δ) (parentOf_reweigh δ)

theorem Wf.reweigh (h : this.Wf) : (this.reweigh δ).Wf where
  toTree := h.toTree.reweigh δ
  links := by
    rw [forest_reweigh, links_reweigh]
    exact h.links

end Reweigh

theorem Wf.withCheckpoints (h : this.Wf) (changes : ScoreChanges) :
    (this.withCheckpoints changes).Wf :=
  ⟨⟨h.indices_iff, h.parent_lt⟩, h.links⟩

/-- The array with the new checkpoints and weights, and the pointers as they were. -/
noncomputable def scored (this : ProtoArray) (h : this.Tree) (changes : ScoreChanges) :
    ProtoArray :=
  (this.withCheckpoints changes).reweigh (this.weightDelta h changes)

theorem Wf.scored (h : this.Wf) (changes : ScoreChanges) : (this.scored h.toTree changes).Wf :=
  (h.withCheckpoints changes).reweigh _

theorem length_scored (h : this.Tree) (changes : ScoreChanges) :
    (this.scored h changes).nodes.length = this.nodes.length :=
  length_reweigh _

theorem links_scored (h : this.Tree) (changes : ScoreChanges) :
    (this.scored h changes).links = this.links :=
  links_reweigh _

theorem forest_scored (h : this.Wf) (changes : ScoreChanges) :
    (this.scored h.toTree changes).forest (h.scored changes).toTree = this.forest h.toTree :=
  forest_reweigh _ (h.withCheckpoints changes).toTree

theorem applyScoreChanges_eq (h : this.Wf) (changes : ScoreChanges)
    (hlen : changes.deltas.length = this.nodes.length) :
    this.applyScoreChanges changes = .ok
      { (this.scored h.toTree changes).relink
          (Links.pass (this.forest h.toTree) (this.scored h.toTree changes).key
            (this.scored h.toTree changes).viableAt this.nodes.length this.links) with
        previousProposerBoost := changes.proposerBoost } := by
  have hwf := h.scored changes
  have hfirst := applyDeltas_eq h.toTree changes hlen
  have hsecond := updateBestChildren_eq hwf (le_refl _)
  rw [applyScoreChanges, if_neg (not_not.mpr (hlen.trans h.size_indices.symm))]
  change (applyDeltas _ this.previousProposerBoost this.nodes.length this.nodes _ >>= _) = _
  rw [hfirst]
  change (updateBestChildren (this.scored h.toTree changes).nodes.length
    (this.scored h.toTree changes) >>= _) = _
  rw [hsecond, forest_scored h, links_scored, length_scored]
  rfl

end ProtoArray

end Lodestar.ForkChoice
