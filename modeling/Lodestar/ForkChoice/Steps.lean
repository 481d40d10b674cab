import Lodestar.ForkChoice.Scores

/-!
# The methods keep a proto array well-formed

Each method on a well-formed array either throws at its first checks, with the
array as it was, or gives a well-formed array (`ProtoArray.Step`, `Wf.run`).
-/

namespace Lodestar.ForkChoice

open Lodestar.Base

namespace ProtoArray

variable {this this' : ProtoArray} {i c p : Nat}

theorem Wf.empty (pruneThreshold justifiedEpoch : Nat) (justifiedRoot : RootHex)
    (finalizedEpoch : Nat) (finalizedRoot : RootHex) :
    (empty pruneThreshold justifiedEpoch justifiedRoot finalizedEpoch finalizedRoot).Wf where
  indices_iff := by simp [ProtoArray.empty]
  parent_lt h := by simp [ProtoArray.empty, parentOf] at h
  links := ⟨fun h => by simp [ProtoArray.links, ProtoArray.empty] at h,
    fun h => by simp [ProtoArray.links, ProtoArray.empty] at h,
    fun h => by simp [ProtoArray.links, ProtoArray.empty] at h⟩

/-! ## onBlock -/

/-- The node `onBlock` makes of a block. -/
def newNode (this : ProtoArray) (block : IProtoBlock) : IProtoNode :=
  { block with
    parent := this.indices[block.parentRoot]?
    weight := 0
    bestChild := none
    bestDescendant := none }

/-- The array with a new node at its end. -/
def addNode (this : ProtoArray) (block : IProtoBlock) : ProtoArray :=
  { this with
    indices := this.indices.insert block.blockRoot this.nodes.length
    nodes := this.nodes ++ [this.newNode block] }

section AddNode

variable {block : IProtoBlock}

theorem getElem?_addNode_of_lt (hi : i < this.nodes.length) :
    (this.addNode block).nodes[i]? = this.nodes[i]? :=
  List.getElem?_append_left hi

theorem getElem?_addNode_length :
    (this.addNode block).nodes[this.nodes.length]? = some (this.newNode block) := by
  rw [addNode, List.getElem?_append_right (le_refl _), Nat.sub_self]
  rfl

theorem getElem?_addNode_of_gt (hi : this.nodes.length < i) :
    (this.addNode block).nodes[i]? = none := by
  rw [List.getElem?_eq_none_iff, addNode, List.length_append, List.length_singleton]
  omega

theorem Tree.index_lt (h : this.Tree) (block : IProtoBlock) (p : Nat)
    (hp : this.indices[block.parentRoot]? = some p) : p < (this.forest h).size :=
  h.lt_length_of_index hp

theorem parentOf_addNode (h : this.Tree) :
    (this.addNode block).parentOf
      = ((this.forest h).push this.indices[block.parentRoot]? (h.index_lt block)).parent := by
  funext i
  rw [parentOf, Forest.push]
  rcases Nat.lt_trichotomy i this.nodes.length with hlt | rfl | hgt
  · rw [getElem?_addNode_of_lt hlt]
    exact (if_neg hlt.ne).symm
  · rw [getElem?_addNode_length]
    exact (if_pos rfl).symm
  · rw [getElem?_addNode_of_gt hgt]
    have hnone : this.parentOf i = none := by
      rw [parentOf, List.getElem?_eq_none_iff.mpr hgt.le]
      rfl
    exact hnone.symm.trans (if_neg hgt.ne').symm

theorem links_addNode : (this.addNode block).links = this.links := by
  have hnodes : ∀ i : Nat, (this.addNode block).nodes[i]? = this.nodes[i]? ∨
      this.nodes[i]? = none ∧ (this.addNode block).nodes[i]? = some (this.newNode block) := by
    intro i
    rcases Nat.lt_trichotomy i this.nodes.length with hlt | rfl | hgt
    · exact .inl (getElem?_addNode_of_lt hlt)
    · exact .inr ⟨List.getElem?_eq_none_iff.mpr (le_refl _), getElem?_addNode_length⟩
    · exact .inl (by rw [getElem?_addNode_of_gt hgt, List.getElem?_eq_none_iff.mpr hgt.le])
  rw [links, links]
  congr 1 <;> funext i <;> rcases hnodes i with h | ⟨h, h'⟩
  · rw [h]
  · rw [h, h']
    rfl
  · rw [h]
  · rw [h, h']
    rfl

theorem Tree.addNode (h : this.Tree) (hnew : this.indices[block.blockRoot]? = none) :
    (this.addNode block).Tree where
  indices_iff {r i} := by
    rw [ProtoArray.addNode, Std.TreeMap.getElem?_insert]
    change (if compare block.blockRoot r = .eq then some this.nodes.length else this.indices[r]?)
      = some i ↔ ∃ node, (this.addNode block).nodes[i]? = some node ∧ node.blockRoot = r
    have hold : ∀ {i : Nat} {node : IProtoNode}, this.nodes[i]? = some node →
        node.blockRoot ≠ block.blockRoot := by
      intro i node hnode hr
      rw [h.indices_iff.mpr ⟨node, hnode, hr⟩] at hnew
      cases hnew
    by_cases hr : block.blockRoot = r
    · subst hr
      rw [if_pos Std.ReflCmp.compare_self]
      constructor
      · rintro ⟨⟩
        exact ⟨_, getElem?_addNode_length, rfl⟩
      · rintro ⟨node, hnode, hroot⟩
        rcases Nat.lt_trichotomy i this.nodes.length with hlt | rfl | hgt
        · rw [getElem?_addNode_of_lt hlt] at hnode
          exact absurd hroot (hold hnode)
        · rfl
        · rw [getElem?_addNode_of_gt hgt] at hnode
          cases hnode
    · rw [if_neg (fun heq => hr (Std.LawfulEqCmp.eq_of_compare heq)), h.indices_iff]
      constructor
      · rintro ⟨node, hnode, hroot⟩
        exact ⟨node, by rwa [getElem?_addNode_of_lt (List.getElem?_eq_some_iff.mp hnode).1], hroot⟩
      · rintro ⟨node, hnode, hroot⟩
        rcases Nat.lt_trichotomy i this.nodes.length with hlt | rfl | hgt
        · exact ⟨node, by rwa [getElem?_addNode_of_lt hlt] at hnode, hroot⟩
        · rw [getElem?_addNode_length] at hnode
          obtain rfl := Option.some.inj hnode
          exact absurd hroot hr
        · rw [getElem?_addNode_of_gt hgt] at hnode
          cases hnode
  parent_lt {c p} hp := by
    rw [parentOf_addNode h] at hp
    exact ((this.forest h).push _ (h.index_lt block)).parent_lt hp

theorem forest_addNode (h : this.Tree) (hnew : this.indices[block.blockRoot]? = none) :
    (this.addNode block).forest (h.addNode hnew)
      = (this.forest h).push this.indices[block.parentRoot]? (h.index_lt block) :=
  Forest.ext' (by simp [forest, Forest.push, ProtoArray.addNode]) (parentOf_addNode h)

theorem Wf.addNode (h : this.Wf) (hnew : this.indices[block.blockRoot]? = none) :
    (this.addNode block).Wf where
  toTree := h.toTree.addNode hnew
  links := by
    rw [forest_addNode h.toTree hnew, links_addNode]
    exact h.links.push

end AddNode

theorem onBlock_eq (h : this.Wf) (block : IProtoBlock) :
    (∃ i, this.indices[block.blockRoot]? = some i) ∧ this.onBlock block = .ok this ∨
    ∃ hnew : this.indices[block.blockRoot]? = none, ∃ l,
      Links.Inv ((this.addNode block).forest (h.addNode hnew).toTree) l ∧
      (this.links.Coherent → l.Coherent) ∧
      this.onBlock block = .ok ((this.addNode block).relink l) := by
  rw [onBlock, Std.TreeMap.contains_eq_isSome_getElem?]
  obtain hnew | ⟨i, hi⟩ := Option.eq_none_or_eq_some this.indices[block.blockRoot]?
  · have hparent : (this.addNode block).parentOf this.nodes.length
        = this.indices[block.parentRoot]? := by
      rw [parentOf, getElem?_addNode_length]
      rfl
    obtain ⟨l, hl, hcoh, hloop⟩ :=
      updateAncestors_eq (h.addNode hnew) this.nodes.length this.nodes.length
    rw [links_addNode] at hcoh
    rw [hparent] at hloop
    refine .inr ⟨hnew, l, hl, fun hc => hcoh le_rfl fun hx _ => hc hx (Set.mem_univ _), ?_⟩
    rw [hnew]
    exact hloop
  · refine .inl ⟨⟨i, hi⟩, ?_⟩
    rw [hi]
    rfl

theorem Wf.onBlock (h : this.Wf) (block : IProtoBlock) :
    ∃ this', this.onBlock block = .ok this' ∧ this'.Wf := by
  rcases onBlock_eq h block with ⟨-, heq⟩ | ⟨hnew, l, hl, -, heq⟩
  · exact ⟨this, heq, h⟩
  · exact ⟨_, heq, (h.addNode hnew).relink hl⟩

/-! ## applyScoreChanges -/

theorem Wf.applyScoreChanges (h : this.Wf) (changes : ScoreChanges) :
    this.applyScoreChanges changes
        = .error (.INVALID_DELTA_LEN changes.deltas.length this.indices.size) ∨
      ∃ this', this.applyScoreChanges changes = .ok this' ∧ this'.Wf := by
  by_cases hlen : changes.deltas.length = this.nodes.length
  · right
    refine ⟨_, applyScoreChanges_eq h changes hlen, ?_⟩
    have hinv : Links.Inv ((this.scored h.toTree changes).forest (h.scored changes).toTree)
        (Links.pass (this.forest h.toTree) (this.scored h.toTree changes).key
          (this.scored h.toTree changes).viableAt this.nodes.length this.links) := by
      rw [forest_scored h]
      exact h.links.pass _
    have hwf := (h.scored changes).relink hinv
    exact ⟨⟨hwf.indices_iff, hwf.parent_lt⟩, hwf.links⟩
  · left
    rw [ProtoArray.applyScoreChanges, if_pos (by rwa [h.size_indices])]
    rfl

/-! ## maybePrune -/

/-- A node in the layout without the first `n` nodes. -/
def dropNode (n : Nat) (node : IProtoNode) : IProtoNode :=
  { node with
    parent := node.parent.bind fun p => if p < n then none else some (p - n)
    bestChild := node.bestChild.map (· - n)
    bestDescendant := node.bestDescendant.map (· - n) }

/-- The array without its first `n` nodes. -/
def dropNodes (this : ProtoArray) (n : Nat) : ProtoArray :=
  { this with
    nodes := (this.nodes.drop n).map (dropNode n)
    indices := ((this.nodes.take n).foldl (fun indices node => indices.erase node.blockRoot)
      this.indices).map fun _ index => index - n }

section DropNodes

variable {n : Nat}

theorem getElem?_dropNodes (i : Nat) :
    (this.dropNodes n).nodes[i]? = this.nodes[i + n]?.map (dropNode n) := by
  rw [dropNodes, List.getElem?_map, List.getElem?_drop, Nat.add_comm]

theorem parentOf_dropNodes (h : this.Tree) :
    (this.dropNodes n).parentOf = ((this.forest h).drop n).parent := by
  funext i
  rw [parentOf, getElem?_dropNodes]
  change _ = (this.parentOf (i + n)).bind _
  rw [parentOf]
  cases this.nodes[i + n]? <;> rfl

theorem links_dropNodes : (this.dropNodes n).links = this.links.drop n := by
  rw [links, Links.drop]
  congr 1 <;> funext i <;> rw [getElem?_dropNodes]
  · change _ = (this.nodes[i + n]?.bind (·.bestChild)).map _
    cases this.nodes[i + n]? <;> rfl
  · change _ = (this.nodes[i + n]?.bind (·.bestDescendant)).map _
    cases this.nodes[i + n]? <;> rfl

theorem getElem?_foldl_erase (indices : Std.TreeMap RootHex Nat) (nodes : List IProtoNode)
    (r : RootHex) :
    (nodes.foldl (fun indices node => indices.erase node.blockRoot) indices)[r]?
      = if r ∈ nodes.map (·.blockRoot) then none else indices[r]? := by
  induction nodes generalizing indices with
  | nil => simp
  | cons node nodes ih =>
    rw [List.foldl_cons, ih, Std.TreeMap.getElem?_erase, List.map_cons]
    by_cases hr : node.blockRoot = r
    · subst hr
      simp
    · have hcmp : compare node.blockRoot r ≠ .eq := fun h => hr (Std.LawfulEqCmp.eq_of_compare h)
      simp [hcmp, Ne.symm hr]

theorem Tree.mem_take_iff (h : this.Tree) {r : RootHex} {j : Nat}
    (hj : this.indices[r]? = some j) : r ∈ (this.nodes.take n).map (·.blockRoot) ↔ j < n := by
  obtain ⟨node, hnode, hr⟩ := h.indices_iff.mp hj
  rw [List.mem_map]
  constructor
  · rintro ⟨node', hmem, hr'⟩
    obtain ⟨i, hi⟩ := List.mem_iff_getElem?.mp hmem
    rw [List.getElem?_take] at hi
    split at hi
    · obtain rfl := h.root_inj hi hnode (hr'.trans hr.symm)
      assumption
    · cases hi
  · intro hlt
    refine ⟨node, List.mem_iff_getElem?.mpr ⟨j, ?_⟩, hr⟩
    rw [List.getElem?_take, if_pos hlt, hnode]

theorem Tree.dropNodes (h : this.Tree) (n : Nat) : (this.dropNodes n).Tree where
  indices_iff {r i} := by
    rw [getElem?_dropNodes, ProtoArray.dropNodes, Std.TreeMap.getElem?_map, getElem?_foldl_erase]
    constructor
    · intro hi
      obtain ⟨j, hj, rfl⟩ := Option.map_eq_some_iff.mp hi
      split at hj
      · cases hj
      · rename_i hmem
        have hle : n ≤ j := Nat.not_lt.mp fun hlt => hmem ((h.mem_take_iff hj).mpr hlt)
        obtain ⟨node, hnode, hr⟩ := h.indices_iff.mp hj
        exact ⟨ProtoArray.dropNode n node, by rw [Nat.sub_add_cancel hle, hnode]; rfl, hr⟩
    · rintro ⟨node', hnode', hr⟩
      obtain ⟨node, hnode, rfl⟩ := Option.map_eq_some_iff.mp hnode'
      have hj : this.indices[r]? = some (i + n) := h.indices_iff.mpr ⟨node, hnode, hr⟩
      rw [if_neg fun hmem => absurd ((h.mem_take_iff hj).mp hmem) (by omega), hj, Option.map_some,
        Nat.add_sub_cancel]
  parent_lt {c p} hp := by
    rw [parentOf_dropNodes h] at hp
    exact ((this.forest h).drop n).parent_lt hp

theorem forest_dropNodes (h : this.Tree) :
    (this.dropNodes n).forest (h.dropNodes n) = (this.forest h).drop n :=
  Forest.ext' (by simp [forest, Forest.drop, ProtoArray.dropNodes]) (parentOf_dropNodes h)

theorem Wf.dropNodes (h : this.Wf) (n : Nat) : (this.dropNodes n).Wf where
  toTree := h.toTree.dropNodes n
  links := by
    rw [forest_dropNodes h.toTree, links_dropNodes]
    exact h.links.drop n

theorem shiftNode_eq (h : this.Wf) {i : Nat} {node : IProtoNode}
    (hnode : this.nodes[i + n]? = some node) : shiftNode n node = .ok (dropNode n node) := by
  have hc : ∀ {c}, node.bestChild = some c → n ≤ c := fun {c} hc =>
    h.links.le_bestChild (i := i) (by simp [ProtoArray.links, hnode, hc])
  have hd : ∀ {d}, node.bestDescendant = some d → n ≤ d := fun {d} hd =>
    h.links.le_bestDescendant (i := i) (by simp [ProtoArray.links, hnode, hd])
  have hshift : ∀ {value : String} {best : Option Nat}, (∀ {b}, best = some b → n ≤ b) →
      shiftBest n value best = .ok (best.map (· - n)) := by
    intro value best hle
    cases best with
    | none => rfl
    | some b => rw [shiftBest, if_neg (Nat.not_lt.mpr (hle rfl))]; rfl
  rw [shiftNode, hshift hc, hshift hd]
  rfl

theorem mapM_shiftNode (h : this.Wf) (n : Nat) :
    (this.nodes.drop n).mapM (shiftNode n) = .ok ((this.nodes.drop n).map (dropNode n)) := by
  have hall : ∀ node ∈ this.nodes.drop n, shiftNode n node = .ok (dropNode n node) := by
    intro node hmem
    obtain ⟨i, hi⟩ := List.mem_iff_getElem?.mp hmem
    rw [List.getElem?_drop, Nat.add_comm] at hi
    exact shiftNode_eq h hi
  generalize this.nodes.drop n = nodes at hall
  induction nodes with
  | nil => rfl
  | cons node nodes ih =>
    rw [List.mapM_cons, hall node List.mem_cons_self,
      ih fun m hm => hall m (List.mem_cons_of_mem _ hm)]
    rfl

/-- `maybePrune` throws at its first check, does nothing, or drops the nodes before the finalized
one. -/
theorem maybePrune_eq (h : this.Wf) (finalizedRoot : RootHex) :
    this.maybePrune finalizedRoot
      = match this.indices[finalizedRoot]? with
        | none => .error (.FINALIZED_NODE_UNKNOWN finalizedRoot)
        | some n =>
          if n < this.pruneThreshold then .ok ([], this)
          else .ok ((this.nodes.take n).map (·.toIProtoBlock), this.dropNodes n) := by
  rw [maybePrune]
  cases hn : this.indices[finalizedRoot]? with
  | none => rfl
  | some n =>
    have hlt : n < this.nodes.length := h.lt_length_of_index hn
    have hany : (((this.nodes.take n).foldl (fun indices node => indices.erase node.blockRoot)
        this.indices).toList.any fun entry => decide (entry.2 < n)) = false := by
      rw [List.any_eq_false]
      rintro ⟨r, j⟩ hmem
      rw [Std.TreeMap.mem_toList_iff_getElem?_eq_some, getElem?_foldl_erase] at hmem
      split at hmem
      · cases hmem
      · rename_i hnot
        simpa using Nat.not_lt.mp fun hlt => hnot ((h.mem_take_iff hmem).mpr hlt)
    by_cases hthr : n < this.pruneThreshold
    · simp [hthr]
      rfl
    · simp only [hthr, if_false, if_neg (Nat.not_lt.mpr hlt.le), hany, mapM_shiftNode h]
      rfl

end DropNodes

theorem Wf.maybePrune (h : this.Wf) (finalizedRoot : RootHex) :
    this.maybePrune finalizedRoot = .error (.FINALIZED_NODE_UNKNOWN finalizedRoot) ∨
      ∃ removed this', this.maybePrune finalizedRoot = .ok (removed, this') ∧ this'.Wf := by
  rw [maybePrune_eq h]
  cases this.indices[finalizedRoot]? with
  | none => exact .inl rfl
  | some n =>
    dsimp only
    split
    · exact .inr ⟨[], this, rfl, h⟩
    · exact .inr ⟨_, _, rfl, h.dropNodes n⟩

/-! ## Runs -/

/-- One call of a method, or a write to the public `pruneThreshold`. A call that throws leaves the
array as it is. -/
inductive Step : ProtoArray → ProtoArray → Prop
  | onBlock {this this' : ProtoArray} (block : IProtoBlock) (h : this.onBlock block = .ok this') :
      Step this this'
  | applyScoreChanges {this this' : ProtoArray} (changes : ScoreChanges)
      (h : this.applyScoreChanges changes = .ok this') : Step this this'
  | maybePrune {this this' : ProtoArray} (finalizedRoot : RootHex) (removed : List IProtoBlock)
      (h : this.maybePrune finalizedRoot = .ok (removed, this')) : Step this this'
  | setPruneThreshold (this : ProtoArray) (threshold : Nat) :
      Step this { this with pruneThreshold := threshold }

/-- The steps that add no block. -/
inductive QuietStep : ProtoArray → ProtoArray → Prop
  | applyScoreChanges {this this' : ProtoArray} (changes : ScoreChanges)
      (h : this.applyScoreChanges changes = .ok this') : QuietStep this this'
  | maybePrune {this this' : ProtoArray} (finalizedRoot : RootHex) (removed : List IProtoBlock)
      (h : this.maybePrune finalizedRoot = .ok (removed, this')) : QuietStep this this'
  | setPruneThreshold (this : ProtoArray) (threshold : Nat) :
      QuietStep this { this with pruneThreshold := threshold }

theorem QuietStep.step (h : QuietStep this this') : Step this this' := by
  cases h with
  | applyScoreChanges changes hcall => exact .applyScoreChanges changes hcall
  | maybePrune finalizedRoot removed hcall => exact .maybePrune finalizedRoot removed hcall
  | setPruneThreshold threshold => exact .setPruneThreshold this threshold

/-- The arrays reached from a new one. -/
def Reachable (this : ProtoArray) : Prop :=
  ∃ pruneThreshold justifiedEpoch justifiedRoot finalizedEpoch finalizedRoot,
    Relation.ReflTransGen Step
      (empty pruneThreshold justifiedEpoch justifiedRoot finalizedEpoch finalizedRoot) this

theorem Wf.step (h : this.Wf) (hstep : Step this this') : this'.Wf := by
  cases hstep with
  | onBlock block hcall =>
    obtain ⟨that, heq, hwf⟩ := h.onBlock block
    obtain rfl : that = this' := Except.ok.inj (heq.symm.trans hcall)
    exact hwf
  | applyScoreChanges changes hcall =>
    rcases h.applyScoreChanges changes with heq | ⟨that, heq, hwf⟩ <;> rw [hcall] at heq
    · cases heq
    · cases heq
      exact hwf
  | maybePrune finalizedRoot removed hcall =>
    rcases h.maybePrune finalizedRoot with heq | ⟨removed', that, heq, hwf⟩ <;> rw [hcall] at heq
    · cases heq
    · cases heq
      exact hwf
  | setPruneThreshold threshold => exact ⟨⟨h.indices_iff, h.parent_lt⟩, h.links⟩

theorem Reachable.wf (h : this.Reachable) : this.Wf := by
  obtain ⟨_, _, _, _, _, hrun⟩ := h
  induction hrun with
  | refl => exact Wf.empty ..
  | tail _ hstep ih => exact ih.step hstep

end ProtoArray

end Lodestar.ForkChoice
