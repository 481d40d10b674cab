import Lodestar.ForkChoice.Interface

/-!
# The proto array

`protoArray/protoArray.ts`. A method that throws leaves the array as it was:
every check that can fail comes before the first write, or never fails on an
array the methods have built (`ProtoArray.Wf`).
-/

namespace Lodestar.ForkChoice

open Std (TreeMap)

structure ProtoArray where
  pruneThreshold : Nat
  justifiedEpoch : Nat
  justifiedRoot : RootHex
  finalizedEpoch : Nat
  finalizedRoot : RootHex
  nodes : List IProtoNode
  indices : TreeMap RootHex Nat
  previousProposerBoost : Option ProposerBoost

namespace ProtoArray

/-- The constructor. -/
def empty (pruneThreshold justifiedEpoch : Nat) (justifiedRoot : RootHex) (finalizedEpoch : Nat)
    (finalizedRoot : RootHex) : ProtoArray where
  pruneThreshold
  justifiedEpoch
  justifiedRoot
  finalizedEpoch
  finalizedRoot
  nodes := []
  indices := ∅
  previousProposerBoost := none

/-! ## Best children -/

/-- The equivalent of `filter_block_tree` for one node. -/
def nodeIsViableForHead (this : ProtoArray) (node : IProtoNode) : Bool :=
  let correctJustified :=
    node.justifiedEpoch = this.justifiedEpoch && node.justifiedRoot = this.justifiedRoot
      || this.justifiedEpoch = 0
  let correctFinalized :=
    node.finalizedEpoch = this.finalizedEpoch && node.finalizedRoot = this.finalizedRoot
      || this.finalizedEpoch = 0
  correctJustified && correctFinalized

/-- Whether the node or its best descendant is viable for the head. -/
def nodeLeadsToViableHead (this : ProtoArray) (node : IProtoNode) : Except ProtoArrayError Bool :=
  match node.bestDescendant with
  | some bestDescendantIndex =>
    match this.nodes[bestDescendantIndex]? with
    | some bestDescendantNode =>
      .ok (this.nodeIsViableForHead bestDescendantNode || this.nodeIsViableForHead node)
    | none => .error (.INVALID_BEST_DESCENDANT_INDEX bestDescendantIndex)
  | none => .ok (this.nodeIsViableForHead node)

/-- Compares the child with the parent's best child and updates the parent. -/
def maybeUpdateBestChildAndDescendant (this : ProtoArray) (parentIndex childIndex : Nat) :
    Except ProtoArrayError ProtoArray := do
  let some childNode := this.nodes[childIndex]? | throw (.INVALID_NODE_INDEX childIndex)
  let some parentNode := this.nodes[parentIndex]? | throw (.INVALID_NODE_INDEX parentIndex)
  let childLeadsToViableHead ← this.nodeLeadsToViableHead childNode
  let changeToNull : Option Nat × Option Nat := (none, none)
  let changeToChild := (some childIndex, some (childNode.bestDescendant.getD childIndex))
  let noChange := (parentNode.bestChild, parentNode.bestDescendant)
  let newChildAndDescendant ←
    match parentNode.bestChild with
    | some bestChildIndex =>
      if bestChildIndex = childIndex then
        pure (if childLeadsToViableHead then changeToChild else changeToNull)
      else
        match this.nodes[bestChildIndex]? with
        | none => throw (.INVALID_BEST_CHILD_INDEX bestChildIndex)
        | some bestChildNode => do
          let bestChildLeadsToViableHead ← this.nodeLeadsToViableHead bestChildNode
          if childLeadsToViableHead && !bestChildLeadsToViableHead then
            pure changeToChild
          else if !childLeadsToViableHead && bestChildLeadsToViableHead then
            pure noChange
          else if childNode.weight = bestChildNode.weight then
            -- ties are broken by the root
            pure (if bestChildNode.blockRoot ≤ childNode.blockRoot then changeToChild else noChange)
          else
            pure (if bestChildNode.weight ≤ childNode.weight then changeToChild else noChange)
    | none => pure (if childLeadsToViableHead then changeToChild else noChange)
  return { this with
    nodes := this.nodes.set parentIndex
      { parentNode with
        bestChild := newChildAndDescendant.1
        bestDescendant := newChildAndDescendant.2 } }

/-! ## Scores -/

/-- The boost's score at the boosted block, and `0` elsewhere. -/
def boostAt (boost : Option ProposerBoost) (blockRoot : RootHex) : Int :=
  match boost with
  | some boost => if boost.root = blockRoot then boost.score else 0
  | none => 0

/-- The first loop of `applyScoreChanges`, for the node indices below the given one, the highest
first: adds each delta to its node and passes it on to the parent. -/
def applyDeltas (proposerBoost previousProposerBoost : Option ProposerBoost) :
    Nat → List IProtoNode → List Int → Except ProtoArrayError (List IProtoNode)
  | 0, nodes, _ => .ok nodes
  | nodeIndex + 1, nodes, deltas =>
    match nodes[nodeIndex]?, deltas[nodeIndex]? with
    | none, _ => .error (.INVALID_NODE_INDEX nodeIndex)
    | some node, delta? =>
      -- the zero hash is an alias to the genesis block
      if node.blockRoot = HEX_ZERO_HASH then
        applyDeltas proposerBoost previousProposerBoost nodeIndex nodes deltas
      else
        match delta? with
        | none => .error (.INVALID_NODE_DELTA nodeIndex)
        | some delta =>
          let currentBoost := boostAt proposerBoost node.blockRoot
          let previousBoost := boostAt previousProposerBoost node.blockRoot
          let nodeDelta := delta + currentBoost - previousBoost
          let nodes := nodes.set nodeIndex { node with weight := node.weight + nodeDelta }
          match node.parent with
          | none => applyDeltas proposerBoost previousProposerBoost nodeIndex nodes deltas
          | some parentIndex =>
            match deltas[parentIndex]? with
            | none => .error (.INVALID_PARENT_DELTA parentIndex)
            | some parentDelta =>
              applyDeltas proposerBoost previousProposerBoost nodeIndex nodes
                (deltas.set parentIndex (parentDelta + nodeDelta))

/-- The second loop of `applyScoreChanges`, for the node indices below the given one, the highest
first. -/
def updateBestChildren : Nat → ProtoArray → Except ProtoArrayError ProtoArray
  | 0, this => .ok this
  | nodeIndex + 1, this =>
    match this.nodes[nodeIndex]? with
    | none => .error (.INVALID_NODE_INDEX nodeIndex)
    | some node =>
      match node.parent with
      | none => updateBestChildren nodeIndex this
      | some parentIndex => do
        let this ← this.maybeUpdateBestChildAndDescendant parentIndex nodeIndex
        updateBestChildren nodeIndex this

/-- What `applyScoreChanges` is called with. -/
structure ScoreChanges where
  deltas : List Int
  proposerBoost : Option ProposerBoost
  justifiedEpoch : Nat
  justifiedRoot : RootHex
  finalizedEpoch : Nat
  finalizedRoot : RootHex

/-- The array with the checkpoints of the call, which `applyScoreChanges` sets first. -/
def withCheckpoints (this : ProtoArray) (changes : ScoreChanges) : ProtoArray :=
  { this with
    justifiedEpoch := changes.justifiedEpoch
    justifiedRoot := changes.justifiedRoot
    finalizedEpoch := changes.finalizedEpoch
    finalizedRoot := changes.finalizedRoot }

def applyScoreChanges (this : ProtoArray) (changes : ScoreChanges) :
    Except ProtoArrayError ProtoArray := do
  if changes.deltas.length ≠ this.indices.size then
    throw (.INVALID_DELTA_LEN changes.deltas.length this.indices.size)
  let this := this.withCheckpoints changes
  let nodes ← applyDeltas changes.proposerBoost this.previousProposerBoost this.nodes.length
    this.nodes changes.deltas
  let this ← updateBestChildren nodes.length { this with nodes }
  return { this with previousProposerBoost := changes.proposerBoost }

/-! ## Blocks -/

/-- The loop of `onBlock` up the ancestors of the new node. Parents come before their children,
so the index of the new node bounds its length. -/
def updateAncestors : Nat → ProtoArray → Option Nat → Nat → Except ProtoArrayError ProtoArray
  | 0, this, _, _ => .ok this
  | _, this, none, _ => .ok this
  | fuel + 1, this, some parentIndex, nodeIndex => do
    let this ← this.maybeUpdateBestChildAndDescendant parentIndex nodeIndex
    updateAncestors fuel this (this.nodes[parentIndex]?.bind (·.parent)) parentIndex

/-- Registers a block. -/
def onBlock (this : ProtoArray) (block : IProtoBlock) : Except ProtoArrayError ProtoArray :=
  if this.indices.contains block.blockRoot then
    .ok this
  else
    let node : IProtoNode :=
      { block with
        parent := this.indices[block.parentRoot]?
        weight := 0
        bestChild := none
        bestDescendant := none }
    let nodeIndex := this.nodes.length
    updateAncestors nodeIndex
      { this with
        indices := this.indices.insert node.blockRoot nodeIndex
        nodes := this.nodes ++ [node] }
      node.parent nodeIndex

def DEFAULT_PRUNE_THRESHOLD : Nat := 0

/-- `ProtoArray.initialize`; the block root is its own target, as it lies on an epoch boundary. -/
def initializeProtoArray (block : IProtoBlock) : Except ProtoArrayError ProtoArray :=
  (empty DEFAULT_PRUNE_THRESHOLD block.justifiedEpoch block.justifiedRoot block.finalizedEpoch
    block.finalizedRoot).onBlock { block with targetRoot := block.blockRoot }

/-! ## The head -/

/-- Follows the best descendant of the justified block. -/
def findHead (this : ProtoArray) (justifiedRoot : RootHex) : Except ProtoArrayError RootHex := do
  let some justifiedIndex := this.indices[justifiedRoot]?
    | throw (.JUSTIFIED_NODE_UNKNOWN justifiedRoot)
  let some justifiedNode := this.nodes[justifiedIndex]?
    | throw (.INVALID_JUSTIFIED_INDEX justifiedIndex)
  let bestDescendantIndex := justifiedNode.bestDescendant.getD justifiedIndex
  let some bestNode := this.nodes[bestDescendantIndex]?
    | throw (.INVALID_BEST_DESCENDANT_INDEX bestDescendantIndex)
  if bestDescendantIndex ≠ justifiedIndex && !this.nodeIsViableForHead bestNode then
    throw (.INVALID_BEST_NODE justifiedRoot this.justifiedEpoch this.finalizedEpoch
      justifiedNode.blockRoot justifiedNode.justifiedEpoch justifiedNode.finalizedEpoch)
  return bestNode.blockRoot

/-! ## Pruning -/

/-- A best index of a remaining node in the new layout. -/
def shiftBest (finalizedIndex : Nat) (value : String) :
    Option Nat → Except ProtoArrayError (Option Nat)
  | none => .ok none
  | some best =>
    if best < finalizedIndex then .error (.INDEX_OVERFLOW value)
    else .ok (some (best - finalizedIndex))

/-- A remaining node with its indices in the new layout. -/
def shiftNode (finalizedIndex : Nat) (node : IProtoNode) : Except ProtoArrayError IProtoNode := do
  let parent := node.parent.bind fun parentIndex =>
    if parentIndex < finalizedIndex then none else some (parentIndex - finalizedIndex)
  let bestChild ← shiftBest finalizedIndex "bestChild" node.bestChild
  let bestDescendant ← shiftBest finalizedIndex "bestDescendant" node.bestDescendant
  return { node with parent, bestChild, bestDescendant }

/-- Drops all nodes before the finalized one, and returns them. -/
def maybePrune (this : ProtoArray) (finalizedRoot : RootHex) :
    Except ProtoArrayError (List IProtoBlock × ProtoArray) := do
  let some finalizedIndex := this.indices[finalizedRoot]?
    | throw (.FINALIZED_NODE_UNKNOWN finalizedRoot)
  if finalizedIndex < this.pruneThreshold then
    return ([], this)
  if this.nodes.length < finalizedIndex then
    throw (.INVALID_NODE_INDEX this.nodes.length)
  let removed := this.nodes.take finalizedIndex
  let indices := removed.foldl (fun indices node => indices.erase node.blockRoot) this.indices
  if indices.toList.any fun entry => entry.2 < finalizedIndex then
    throw (.INDEX_OVERFLOW "indices")
  let nodes ← (this.nodes.drop finalizedIndex).mapM (shiftNode finalizedIndex)
  return (removed.map (·.toIProtoBlock),
    { this with nodes, indices := indices.map fun _ index => index - finalizedIndex })

end ProtoArray

end Lodestar.ForkChoice
