import Lodestar.ForkChoice.Representation

/-!
# Lookups and ancestors

The methods of `protoArray.ts` that read the array. On a well-formed array none
of them throws, and the ancestors of a block are those of its node in the
forest.
-/

namespace Lodestar.ForkChoice

open Lodestar.Base

namespace ProtoArray

variable {this this' : ProtoArray} {i n : Nat} {r : RootHex}

/-! ## Lookups -/

def hasBlock (this : ProtoArray) (blockRoot : RootHex) : Bool :=
  this.indices.contains blockRoot

def getNode (this : ProtoArray) (blockRoot : RootHex) : Option IProtoNode :=
  this.indices[blockRoot]?.bind (this.nodes[·]?)

def getBlock (this : ProtoArray) (blockRoot : RootHex) : Option IProtoBlock :=
  (this.getNode blockRoot).map (·.toIProtoBlock)

def getNodeFromIndex (this : ProtoArray) (index : Nat) : Except ProtoArrayError IProtoNode :=
  match this.nodes[index]? with
  | none => .error (.INVALID_NODE_INDEX index)
  | some node => .ok node

/-- The nodes above the given one, the nearest first. Parents come before their children, so the
index of the node bounds their number. -/
def iterateAncestorNodesFromNode (this : ProtoArray) :
    Nat → IProtoNode → Except ProtoArrayError (List IProtoNode)
  | 0, _ => .ok []
  | fuel + 1, node =>
    match node.parent with
    | none => .ok []
    | some parentIndex => do
      let node ← this.getNodeFromIndex parentIndex
      let nodes ← this.iterateAncestorNodesFromNode fuel node
      return node :: nodes

/-- Iterates from a block root backwards over nodes; the block itself is left out. -/
def iterateAncestorNodes (this : ProtoArray) (blockRoot : RootHex) :
    Except ProtoArrayError (List IProtoNode) :=
  match this.indices[blockRoot]? with
  | none => .ok []
  | some startIndex => do
    let node ← this.getNodeFromIndex startIndex
    this.iterateAncestorNodesFromNode startIndex node

theorem hasBlock_eq_true : this.hasBlock r = true ↔ ∃ i, this.indices[r]? = some i := by
  rw [hasBlock, Std.TreeMap.contains_eq_isSome_getElem?, Option.isSome_iff_exists]

theorem getNode_eq_some {node : IProtoNode} :
    this.getNode r = some node ↔
      ∃ i, this.indices[r]? = some i ∧ this.nodes[i]? = some node := by
  rw [getNode, Option.bind_eq_some_iff]

theorem exists_getNode (h : this.Tree) (hi : this.indices[r]? = some i) :
    ∃ node, this.nodes[i]? = some node ∧ this.getNode r = some node ∧ node.blockRoot = r := by
  obtain ⟨node, hnode, hr⟩ := h.indices_iff.mp hi
  exact ⟨node, hnode, by rw [getNode, hi]; exact hnode, hr⟩

/-! ## Ancestors -/

theorem iterateAncestorNodesFromNode_eq (h : this.Tree) {fuel : Nat} {node : IProtoNode}
    (hnode : this.nodes[i]? = some node) (hi : i ≤ fuel) :
    this.iterateAncestorNodesFromNode fuel node
      = .ok (((this.forest h).ancestors i).filterMap (this.nodes[·]?)) := by
  have hparent : (this.forest h).parent i = node.parent := by
    change this.parentOf i = _
    rw [parentOf, hnode, Option.bind_some]
  induction fuel generalizing i node with
  | zero =>
    obtain rfl := Nat.le_zero.mp hi
    have hnone : (this.forest h).parent 0 = none := by
      cases hp : (this.forest h).parent 0 with
      | none => rfl
      | some p => exact absurd ((this.forest h).parent_lt hp) (Nat.not_lt_zero p)
    rw [Forest.ancestors_of_none hnone]
    rfl
  | succ fuel ih =>
    rw [iterateAncestorNodesFromNode]
    cases hp : node.parent with
    | none =>
      rw [Forest.ancestors_of_none (hparent.trans hp)]
      rfl
    | some p =>
      have hlt : p < i := (this.forest h).parent_lt (hparent.trans hp)
      have hlen : p < this.nodes.length :=
        hlt.trans (List.getElem?_eq_some_iff.mp hnode).1
      have hget := List.getElem?_eq_getElem hlen
      have hnext : (this.forest h).parent p = this.nodes[p].parent := by
        change this.parentOf p = _
        rw [parentOf, hget, Option.bind_some]
      rw [Forest.ancestors_of_some (hparent.trans hp), List.filterMap_cons_some hget]
      simp only [getNodeFromIndex, hget]
      change (this.iterateAncestorNodesFromNode fuel this.nodes[p] >>= fun nodes =>
        pure (this.nodes[p] :: nodes)) = _
      rw [ih hget (by omega) hnext]
      rfl

theorem iterateAncestorNodes_eq (h : this.Tree) (hi : this.indices[r]? = some i) :
    this.iterateAncestorNodes r
      = .ok (((this.forest h).ancestors i).filterMap (this.nodes[·]?)) := by
  obtain ⟨node, hnode, -⟩ := h.indices_iff.mp hi
  rw [iterateAncestorNodes, hi]
  simp only [getNodeFromIndex, hnode]
  exact iterateAncestorNodesFromNode_eq h hnode (le_refl i)

/-! ## Blocks at or before a slot -/

/-- The block or an ancestor of it that is one of the nodes from `n` on is at or before the
slot. -/
def ReachesFrom (this : ProtoArray) (n : Nat) (r : RootHex) (slot : Nat) : Prop :=
  ∃ (i a : Nat) (node : IProtoNode), this.indices[r]? = some i ∧
    Relation.ReflTransGen (fun c p => this.parentOf c = some p) i a ∧
    this.nodes[a]? = some node ∧ n ≤ a ∧ node.slot ≤ slot

/-- The block or an ancestor of it is at or before the slot. -/
def Reaches (this : ProtoArray) (r : RootHex) (slot : Nat) : Prop :=
  this.ReachesFrom 0 r slot

variable {slot slot' : Nat}

theorem reaches_iff_ancestors (h : this.Tree) {node : IProtoNode} (hi : this.indices[r]? = some i)
    (hnode : this.nodes[i]? = some node) (hslot : slot < node.slot) :
    this.Reaches r slot ↔
      ∃ ancestor ∈ ((this.forest h).ancestors i).filterMap (this.nodes[·]?),
        ancestor.slot ≤ slot := by
  simp only [List.mem_filterMap, Forest.mem_ancestors]
  constructor
  · rintro ⟨j, a, ancestor, hj, hd, ha, -, hs⟩
    obtain rfl : i = j := Option.some.inj (hi.symm.trans hj)
    refine ⟨ancestor, ⟨a, ⟨hd, ?_⟩, ha⟩, hs⟩
    rintro rfl
    rw [hnode] at ha
    obtain rfl := Option.some.inj ha
    omega
  · rintro ⟨ancestor, ⟨a, ⟨hd, -⟩, ha⟩, hs⟩
    exact ⟨i, a, ancestor, hi, hd, ha, Nat.zero_le a, hs⟩

theorem SameTree.parentOf_eq (hs : SameTree this this') : this'.parentOf = this.parentOf := by
  funext i
  have hi := congrArg (Option.bind · fun x => x.1) (hs i)
  simpa [parentOf, Option.bind_map, Function.comp_def] using hi

theorem ReachesFrom.congr (h : this.ReachesFrom n r slot) (hs : SameTree this this')
    (hindices : this'.indices = this.indices) : this'.ReachesFrom n r slot := by
  obtain ⟨i, a, node, hi, hd, hnode, hn, hslot⟩ := h
  have ha := hs a
  rw [hnode, Option.map_some, Option.map_eq_some_iff] at ha
  obtain ⟨node', hnode', heq⟩ := ha
  refine ⟨i, a, node', by rwa [hindices], by rwa [hs.parentOf_eq], hnode', hn, ?_⟩
  rw [(Prod.mk.inj heq).2]
  exact hslot

theorem getElem?_indices_addNode {block : IProtoBlock}
    (hnew : this.indices[block.blockRoot]? = none) (hi : this.indices[r]? = some i) :
    (this.addNode block).indices[r]? = some i := by
  have hne : block.blockRoot ≠ r := by
    rintro rfl
    rw [hi] at hnew
    cases hnew
  rw [ProtoArray.addNode, Std.TreeMap.getElem?_insert]
  rwa [if_neg fun heq => hne (Std.LawfulEqCmp.eq_of_compare heq)]

theorem descends_addNode (ht : this.Tree) {block : IProtoBlock}
    (hnew : this.indices[block.blockRoot]? = none) {a : Nat} (hlt : i < this.nodes.length)
    (hd : (this.forest ht).Descends i a) :
    ((this.addNode block).forest (ht.addNode hnew)).Descends i a := by
  rw [forest_addNode ht hnew]
  exact (Forest.descends_push_iff (h := ht.index_lt block) hlt).mpr hd

theorem Reaches.addNode (h : this.Reaches r slot) (ht : this.Tree) {block : IProtoBlock}
    (hnew : this.indices[block.blockRoot]? = none) : (this.addNode block).Reaches r slot := by
  obtain ⟨i, a, node, hi, hd, hnode, hn, hslot⟩ := h
  have hlt : i < this.nodes.length := ht.lt_length_of_index hi
  have hd' : (this.forest ht).Descends i a := hd
  refine ⟨i, a, node, getElem?_indices_addNode hnew hi, descends_addNode ht hnew hlt hd', ?_, hn,
    hslot⟩
  rwa [getElem?_addNode_of_lt (hd'.le.trans_lt hlt)]

theorem reaches_dropNodes_iff (ht : this.Tree) :
    (this.dropNodes n).Reaches r slot ↔ this.ReachesFrom n r slot := by
  have hdesc : ∀ {d c : Nat},
      Relation.ReflTransGen (fun x y => (this.dropNodes n).parentOf x = some y) d c ↔
        (this.forest ht).Descends (d + n) (c + n) := by
    intro d c
    rw [← Forest.descends_drop_iff, ← forest_dropNodes ht]
    exact Iff.rfl
  constructor
  · rintro ⟨i, a, node, hi, hd, hnode, -, hslot⟩
    obtain ⟨_, hnew, hr⟩ := (ht.dropNodes n).indices_iff.mp hi
    rw [getElem?_dropNodes] at hnew hnode
    obtain ⟨old, hold, rfl⟩ := Option.map_eq_some_iff.mp hnew
    obtain ⟨anc, hanc, rfl⟩ := Option.map_eq_some_iff.mp hnode
    exact ⟨i + n, a + n, anc, ht.indices_iff.mpr ⟨old, hold, hr⟩, hdesc.mp hd, hanc,
      Nat.le_add_left n a, hslot⟩
  · rintro ⟨i, a, node, hi, hd, hnode, hn, hslot⟩
    have hai : a ≤ i := Forest.Descends.le (f := this.forest ht) hd
    refine ⟨i - n, a - n, dropNode n node, getElem?_indices_dropNodes ht hi (hn.trans hai), ?_, ?_,
      Nat.zero_le _, hslot⟩
    · rw [hdesc, Nat.sub_add_cancel hn, Nat.sub_add_cancel (hn.trans hai)]
      exact hd
    · rw [getElem?_dropNodes, Nat.sub_add_cancel hn, hnode]
      rfl

/-! ## Along the methods -/

theorem Reaches.onBlock (h : this.Reaches r slot) (hw : this.Wf) {block : IProtoBlock}
    (hcall : this.onBlock block = .ok this') : this'.Reaches r slot := by
  rcases onBlock_eq hw block with ⟨-, heq⟩ | ⟨hnew, l, -, -, heq⟩
  · cases hcall.symm.trans heq
    exact h
  · cases hcall.symm.trans heq
    exact (h.addNode hw.toTree hnew).congr (sameTree_relink l) rfl

theorem Reaches.applyScoreChanges (h : this.Reaches r slot) (hw : this.Wf)
    {changes : ScoreChanges} (hcall : this.applyScoreChanges changes = .ok this') :
    this'.Reaches r slot := by
  have heq := applyScoreChanges_eq hw changes (length_deltas hw hcall)
  cases hcall.symm.trans heq
  exact (h.congr (sameTree_scored hw.toTree changes) rfl).congr (sameTree_relink _) rfl

theorem Reaches.maybePrune (h : this.Reaches r slot) (hw : this.Wf) {finalizedRoot : RootHex}
    {removed : List IProtoBlock} (hcall : this.maybePrune finalizedRoot = .ok (removed, this'))
    (hstays : ∀ k, this.indices[finalizedRoot]? = some k → this.pruneThreshold ≤ k →
      this.ReachesFrom k r slot) : this'.Reaches r slot := by
  rw [maybePrune_eq hw] at hcall
  cases hk : this.indices[finalizedRoot]? with
  | none =>
    rw [hk] at hcall
    cases hcall
  | some k =>
    simp only [hk] at hcall
    split at hcall
    · cases hcall
      exact h
    · cases hcall
      exact (reaches_dropNodes_iff hw.toTree).mpr (hstays k hk (by omega))

/-! ## Descendants -/

/-- The block of `descendantRoot` is that of `ancestorRoot` or below it. -/
def IsDescendant (this : ProtoArray) (ancestorRoot descendantRoot : RootHex) : Prop :=
  ∃ a i : Nat, this.indices[ancestorRoot]? = some a ∧ this.indices[descendantRoot]? = some i ∧
    Relation.ReflTransGen (fun c p => this.parentOf c = some p) i a

theorem IsDescendant.refl (hi : this.indices[r]? = some i) : this.IsDescendant r r :=
  ⟨i, i, hi, hi, .refl⟩

theorem not_isDescendant_of_parent (ht : this.Tree) {ancestorRoot : RootHex} {a p : Nat}
    (ha : this.indices[ancestorRoot]? = some a) (hi : this.indices[r]? = some i)
    (hp : this.parentOf i = some p) (hne : i ≠ a) (hlt : p < a) :
    ¬ this.IsDescendant ancestorRoot r := by
  rintro ⟨a', i', ha', hi', hd⟩
  obtain rfl : a = a' := Option.some.inj (ha.symm.trans ha')
  obtain rfl : i = i' := Option.some.inj (hi.symm.trans hi')
  have hd' : (this.forest ht).Descends i a := hd
  obtain ⟨q, hq, hd'⟩ := hd'.exists_parent hne
  obtain rfl : q = p := Option.some.inj (hq.symm.trans hp)
  exact absurd hd'.le (Nat.not_le.mpr hlt)

theorem IsDescendant.congr {ancestorRoot : RootHex} (h : this.IsDescendant ancestorRoot r)
    (hs : SameTree this this') (hindices : this'.indices = this.indices) :
    this'.IsDescendant ancestorRoot r := by
  obtain ⟨a, i, ha, hi, hd⟩ := h
  exact ⟨a, i, by rwa [hindices], by rwa [hindices], by rwa [hs.parentOf_eq]⟩

theorem IsDescendant.onBlock {ancestorRoot : RootHex} (h : this.IsDescendant ancestorRoot r)
    (hw : this.Wf) {block : IProtoBlock} (hcall : this.onBlock block = .ok this') :
    this'.IsDescendant ancestorRoot r := by
  rcases onBlock_eq hw block with ⟨-, heq⟩ | ⟨hnew, l, -, -, heq⟩
  · cases hcall.symm.trans heq
    exact h
  · cases hcall.symm.trans heq
    obtain ⟨a, i, ha, hi, hd⟩ := h
    have hlt : i < this.nodes.length := hw.toTree.lt_length_of_index hi
    have hnewer : (this.addNode block).IsDescendant ancestorRoot r :=
      ⟨a, i, getElem?_indices_addNode hnew ha, getElem?_indices_addNode hnew hi,
        descends_addNode hw.toTree hnew hlt hd⟩
    exact hnewer.congr (sameTree_relink l) rfl

theorem IsDescendant.applyScoreChanges {ancestorRoot : RootHex}
    (h : this.IsDescendant ancestorRoot r) (hw : this.Wf) {changes : ScoreChanges}
    (hcall : this.applyScoreChanges changes = .ok this') : this'.IsDescendant ancestorRoot r := by
  have heq := applyScoreChanges_eq hw changes (length_deltas hw hcall)
  cases hcall.symm.trans heq
  have hscored : (this.scored hw.toTree changes).IsDescendant ancestorRoot r :=
    h.congr (sameTree_scored hw.toTree changes) rfl
  exact hscored.congr (sameTree_relink _) rfl

end ProtoArray

end Lodestar.ForkChoice
