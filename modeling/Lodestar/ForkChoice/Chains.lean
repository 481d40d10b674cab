import Lodestar.ForkChoice.ForkChoice

/-!
# The chains the fork choice hands out

The methods that list the blocks on the chain of a block, or beside it. The
lists come from child to ancestor.
-/

namespace Lodestar.ForkChoice

open Lodestar.Base

namespace ProtoArray

variable {this : ProtoArray} {i upper : Nat} {r : RootHex} {node : IProtoNode}

/-! ## On the chain -/

/-- All nodes from a block root backwards. -/
def getAllAncestorNodes (this : ProtoArray) (blockRoot : RootHex) :
    Except ProtoArrayError (List IProtoNode) :=
  match this.indices[blockRoot]? with
  | none => .ok []
  | some startIndex => do
    let node ← this.getNodeFromIndex startIndex
    let nodes ← this.iterateAncestorNodesFromNode startIndex node
    return node :: nodes

/-- The node and its ancestors, from the nearest. -/
def chain (this : ProtoArray) (h : this.Tree) (i : Nat) : List IProtoNode :=
  (i :: (this.forest h).ancestors i).filterMap (this.nodes[·]?)

theorem mem_chain (h : this.Tree) :
    node ∈ this.chain h i ↔ ∃ a, (this.forest h).Descends i a ∧ this.nodes[a]? = some node := by
  simp only [chain, List.mem_filterMap, List.mem_cons, Forest.mem_ancestors]
  constructor
  · rintro ⟨a, rfl | ⟨hd, -⟩, ha⟩
    · exact ⟨a, .refl a, ha⟩
    · exact ⟨a, hd, ha⟩
  · rintro ⟨a, hd, ha⟩
    by_cases heq : a = i
    · exact ⟨a, .inl heq, ha⟩
    · exact ⟨a, .inr ⟨hd, Ne.symm heq⟩, ha⟩

theorem chain_eq_cons (h : this.Tree) (hnode : this.nodes[i]? = some node) :
    this.chain h i = node :: ((this.forest h).ancestors i).filterMap (this.nodes[·]?) :=
  List.filterMap_cons_some hnode

theorem forest_parent (h : this.Tree) (hnode : this.nodes[i]? = some node) :
    (this.forest h).parent i = node.parent := by
  show this.parentOf i = _
  rw [parentOf, hnode, Option.bind_some]

theorem getAllAncestorNodes_eq (h : this.Tree) (hi : this.indices[r]? = some i) :
    this.getAllAncestorNodes r = .ok (this.chain h i) := by
  obtain ⟨node, hnode, -⟩ := h.indices_iff.mp hi
  rw [getAllAncestorNodes, hi, chain_eq_cons h hnode]
  simp only [getNodeFromIndex, hnode]
  show (this.iterateAncestorNodesFromNode i node >>= fun nodes => pure (node :: nodes)) = _
  rw [iterateAncestorNodesFromNode_eq h hnode le_rfl]
  rfl

/-- Blocks come at later slots than their parents, which the state transition asks for. -/
def SlotsIncrease (this : ProtoArray) : Prop :=
  ∀ node ∈ this.nodes, ∀ parent ∈ node.parent.bind (this.nodes[·]?), parent.slot < node.slot

instance (this : ProtoArray) : Decidable this.SlotsIncrease :=
  inferInstanceAs (Decidable (∀ node ∈ this.nodes, _))

theorem SlotsIncrease.of_descends (hs : this.SlotsIncrease) (h : this.Tree) {d a : Nat}
    {below above : IProtoNode} (hd : (this.forest h).Descends d a) (hne : d ≠ a)
    (hbelow : this.nodes[d]? = some below) (habove : this.nodes[a]? = some above) :
    above.slot < below.slot := by
  induction hd generalizing above with
  | refl => exact absurd rfl hne
  | @tail c a hc hp ih =>
    obtain ⟨node, hnode, hparent⟩ := Option.bind_eq_some_iff.mp hp
    have hlt : above.slot < node.slot := by
      apply hs node (List.mem_of_getElem? hnode) above
      rw [Option.mem_def, hparent]
      exact habove
    by_cases heq : d = c
    · subst heq
      rwa [← Option.some.inj (hnode.symm.trans hbelow)]
    · exact hlt.trans (ih heq hnode)

theorem pairwise_ancestors (f : Forest) (i : Nat) :
    (i :: f.ancestors i).Pairwise fun d a => f.Descends d a ∧ d ≠ a := by
  induction i using Nat.strong_induction_on with
  | _ i ih =>
    rw [List.pairwise_cons]
    refine ⟨fun a ha => Forest.mem_ancestors.mp ha, ?_⟩
    cases hp : f.parent i with
    | none =>
      rw [Forest.ancestors_of_none hp]
      exact .nil
    | some p =>
      rw [Forest.ancestors_of_some hp]
      exact ih p (f.parent_lt hp)

theorem SlotsIncrease.pairwise_chain (hs : this.SlotsIncrease) (h : this.Tree) (i : Nat) :
    (this.chain h i).Pairwise fun child ancestor => ancestor.slot < child.slot := by
  rw [chain, List.pairwise_filterMap]
  apply (pairwise_ancestors _ i).imp
  rintro d a ⟨hd, hne⟩ below hbelow above habove
  exact hs.of_descends h hd hne hbelow habove

/-! ## Beside the chain -/

/-- The nodes strictly between two indices, from the upper one down. -/
def getNodesBetween (this : ProtoArray) (lowerIndex : Nat) :
    Nat → Except ProtoArrayError (List IProtoNode)
  | 0 => .ok []
  | index + 1 =>
    if index > lowerIndex then do
      let node ← this.getNodeFromIndex index
      let nodes ← this.getNodesBetween lowerIndex index
      return node :: nodes
    else .ok []

/-- The loop of `getAllNonAncestorNodes`, which collects what lies between a node and its
parent. -/
def nonAncestorNodesFrom (this : ProtoArray) :
    Nat → Nat → IProtoNode → Except ProtoArrayError (List IProtoNode)
  | 0, nodeIndex, _ => this.getNodesBetween 0 nodeIndex
  | fuel + 1, nodeIndex, node =>
    match node.parent with
    | none => this.getNodesBetween 0 nodeIndex
    | some parentIndex => do
      let node ← this.getNodeFromIndex parentIndex
      let between ← this.getNodesBetween parentIndex nodeIndex
      let nodes ← this.nonAncestorNodesFrom fuel parentIndex node
      return between ++ nodes

/-- The nodes before the block that are not ancestors of it. -/
def getAllNonAncestorNodes (this : ProtoArray) (blockRoot : RootHex) :
    Except ProtoArrayError (List IProtoNode) :=
  match this.indices[blockRoot]? with
  | none => .ok []
  | some startIndex => do
    let node ← this.getNodeFromIndex startIndex
    this.nonAncestorNodesFrom startIndex startIndex node

theorem getNodesBetween_eq (lower : Nat) (hupper : upper ≤ this.nodes.length) :
    ∃ nodes, this.getNodesBetween lower upper = .ok nodes ∧
      ∀ node ∈ nodes, ∃ j, lower < j ∧ j < upper ∧ this.nodes[j]? = some node := by
  induction upper with
  | zero => exact ⟨[], rfl, fun _ h => absurd h List.not_mem_nil⟩
  | succ index ih =>
    rw [getNodesBetween]
    split_ifs with hlt
    · have hget : this.nodes[index]? = some this.nodes[index] := List.getElem?_eq_getElem hupper
      obtain ⟨nodes, hnodes, hmem⟩ := ih (by omega)
      refine ⟨this.nodes[index] :: nodes, ?_, ?_⟩
      · simp only [getNodeFromIndex, hget, hnodes]
        rfl
      · intro node hnode
        rcases List.mem_cons.mp hnode with rfl | hnode
        · exact ⟨index, hlt, by omega, hget⟩
        · obtain ⟨j, h₁, h₂, hj⟩ := hmem node hnode
          exact ⟨j, h₁, by omega, hj⟩
    · exact ⟨[], rfl, fun _ h => absurd h List.not_mem_nil⟩

/-- The nodes are beside the chain of the node at `i`, and before it. -/
def Beside (this : ProtoArray) (h : this.Tree) (i : Nat) (nodes : List IProtoNode) : Prop :=
  ∀ node ∈ nodes, ∃ j, j < i ∧ ¬ (this.forest h).Descends i j ∧ this.nodes[j]? = some node

theorem getNodesBetween_of_root (h : this.Tree) (hi : i ≤ this.nodes.length)
    (hp : (this.forest h).parent i = none) :
    ∃ nodes, this.getNodesBetween 0 i = .ok nodes ∧ this.Beside h i nodes := by
  obtain ⟨nodes, hnodes, hmem⟩ := getNodesBetween_eq 0 hi
  refine ⟨nodes, hnodes, fun node hnode => ?_⟩
  obtain ⟨j, -, hj, hget⟩ := hmem node hnode
  refine ⟨j, hj, fun hd => ?_, hget⟩
  obtain ⟨q, hq, -⟩ := hd.exists_parent hj.ne'
  rw [hp] at hq
  cases hq

/-- What lies between a node and its parent is beside the chain, and so is what is beside the
chain of the parent. -/
theorem Beside.append {p : Nat} (h : this.Tree) (hp : (this.forest h).parent i = some p)
    {between nodes : List IProtoNode}
    (hbetween : ∀ node ∈ between, ∃ j, p < j ∧ j < i ∧ this.nodes[j]? = some node)
    (hnodes : this.Beside h p nodes) : this.Beside h i (between ++ nodes) := by
  have hlt := (this.forest h).parent_lt hp
  have hdesc : ∀ {j}, j < i → (this.forest h).Descends i j → (this.forest h).Descends p j := by
    intro j hj hd
    obtain ⟨q, hq, hd⟩ := hd.exists_parent hj.ne'
    obtain rfl : q = p := Option.some.inj (hq.symm.trans hp)
    exact hd
  intro node hnode
  rcases List.mem_append.mp hnode with hnode | hnode
  · obtain ⟨j, h₁, h₂, hj⟩ := hbetween node hnode
    exact ⟨j, h₂, fun hd => absurd (hdesc h₂ hd).le (by omega), hj⟩
  · obtain ⟨j, h₁, h₂, hj⟩ := hnodes node hnode
    exact ⟨j, by omega, fun hd => h₂ (hdesc (by omega) hd), hj⟩

theorem nonAncestorNodesFrom_eq (h : this.Tree) {fuel : Nat} (hnode : this.nodes[i]? = some node)
    (hi : i ≤ fuel) :
    ∃ nodes, this.nonAncestorNodesFrom fuel i node = .ok nodes ∧ this.Beside h i nodes := by
  have hlen : i < this.nodes.length := (List.getElem?_eq_some_iff.mp hnode).1
  induction fuel generalizing i node with
  | zero =>
    apply getNodesBetween_of_root h hlen.le
    cases hp : (this.forest h).parent i with
    | none => rfl
    | some p =>
      have := (this.forest h).parent_lt hp
      omega
  | succ fuel ih =>
    rw [nonAncestorNodesFrom]
    cases hp : node.parent with
    | none => exact getNodesBetween_of_root h hlen.le ((forest_parent h hnode).trans hp)
    | some p =>
      have hparent := (forest_parent h hnode).trans hp
      have hlt : p < i := (this.forest h).parent_lt hparent
      have hget : this.nodes[p]? = some this.nodes[p] := List.getElem?_eq_getElem (hlt.trans hlen)
      obtain ⟨between, hbetween, hmem⟩ := getNodesBetween_eq p hlen.le
      obtain ⟨nodes, hnodes, hbeside⟩ := ih hget (by omega) (hlt.trans hlen)
      refine ⟨between ++ nodes, ?_, .append h hparent hmem hbeside⟩
      simp only [getNodeFromIndex, hget, hbetween]
      show (this.nonAncestorNodesFrom fuel p this.nodes[p] >>= fun nodes =>
        pure (between ++ nodes)) = _
      rw [hnodes]
      rfl

theorem getAllNonAncestorNodes_eq (h : this.Tree) (hi : this.indices[r]? = some i) :
    ∃ nodes, this.getAllNonAncestorNodes r = .ok nodes ∧ this.Beside h i nodes := by
  obtain ⟨node, hnode, -⟩ := h.indices_iff.mp hi
  rw [getAllNonAncestorNodes, hi]
  simp only [getNodeFromIndex, hnode]
  exact nonAncestorNodesFrom_eq h hnode le_rfl

end ProtoArray

/-! ## Methods of the fork choice -/

/-- The blocks backwards from a block root, without the block itself. -/
def iterateAncestorBlocks (this : ForkChoice) (blockRoot : RootHex) :
    Except ProtoArrayError (List IProtoNode) :=
  this.protoArray.iterateAncestorNodes blockRoot

/-- The loop of `isDescendant` over the ancestors. -/
def reachesNode (ancestorNode : IProtoNode) : List IProtoNode → Bool
  | [] => false
  | node :: nodes =>
    if node.slot < ancestorNode.slot then false
    else if node.blockRoot = ancestorNode.blockRoot then true
    else reachesNode ancestorNode nodes

def isDescendant (this : ProtoArray) (ancestorRoot descendantRoot : RootHex) :
    Except ProtoArrayError Bool :=
  match this.getNode ancestorRoot with
  | none => .ok false
  | some ancestorNode =>
    if ancestorRoot = descendantRoot then .ok true
    else do
      let nodes ← this.iterateAncestorNodes descendantRoot
      return reachesNode ancestorNode nodes

def isDescendantOfFinalized (this : ForkChoice) (blockRoot : RootHex) :
    Except ProtoArrayError Bool :=
  isDescendant this.protoArray this.fcStore.finalizedCheckpoint.rootHex blockRoot

/-- The block, if it is known and a descendant of the finalized root. -/
def getBlockHex (this : ForkChoice) (blockRoot : RootHex) :
    Except ProtoArrayError (Option IProtoBlock) :=
  match this.protoArray.getBlock blockRoot with
  | none => .ok none
  | some block => do
    if !(← this.isDescendantOfFinalized blockRoot) then return none
    else return some block

/-- All nodes, in the order of the array. -/
def forwarditerateAncestorBlocks (this : ForkChoice) : List IProtoNode := this.protoArray.nodes

/-- The last node is the previous finalized one, which is not handed out again. -/
def getAllAncestorBlocks (this : ForkChoice) (blockRoot : RootHex) :
    Except ProtoArrayError (List IProtoNode) := do
  let blocks ← this.protoArray.getAllAncestorNodes blockRoot
  return blocks.dropLast

def getAllNonAncestorBlocks (this : ForkChoice) (blockRoot : RootHex) :
    Except ProtoArrayError (List IProtoNode) :=
  this.protoArray.getAllNonAncestorNodes blockRoot

end Lodestar.ForkChoice
