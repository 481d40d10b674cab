import Lodestar.ReqResp.BlocksByRange
import Lodestar.ForkChoice.FailedBlock

/-!
# Serving the canonical chain

What `onBeaconBlocksByRange` yields against the canonical block at each slot.
The archive and the fork choice split the requested slots at the last archived
block; the walk down the fork choice starts below the head.
-/

namespace Lodestar.ReqResp

open Lodestar.Base Lodestar.Chain Lodestar.ForkChoice

variable {db : BlockDb} {forkChoice : ForkChoice} {request : BeaconBlocksByRangeRequest}
  {head : IProtoNode} {ancestors : List IProtoNode} {canonical : Nat → Option Bytes}
  {border n j slot : Nat}

/-! ## Requested slots -/

/-- The canonical chain: its blocks up to `border` are archived, the later ones are the fork
choice's and in the hot database. -/
structure CanonicalChain (db : BlockDb) (forkChoice : ForkChoice) (head : IProtoNode)
    (ancestors : List IProtoNode) (canonical : Nat → Option Bytes) (border : Nat) : Prop where
  headRoot : getHeadRoot forkChoice = head.blockRoot
  chain : forkChoice.protoArray.getAllAncestorNodes head.blockRoot = .ok (head :: ancestors)
  archived : ∀ slot, db.blockArchive.blocks[slot]? = if slot ≤ border then canonical slot else none
  recent : ∀ slot bytes, border < slot → (canonical slot = some bytes ↔
    ∃ node ∈ head :: ancestors, node.slot = slot ∧ db.block node.blockRoot = some bytes)
  stored : ∀ node ∈ head :: ancestors, border < node.slot → (db.block node.blockRoot).isSome
  finalized : ∀ node ∈ head :: ancestors, node.slot ≤ border → (canonical node.slot).isSome

theorem CanonicalChain.ancestors_eq
    (h : CanonicalChain db forkChoice head ancestors canonical border)
    (ht : forkChoice.protoArray.Tree) :
    iterateAncestorBlocks forkChoice (getHeadRoot forkChoice) = .ok ancestors ∧
      ∃ i, head :: ancestors = forkChoice.protoArray.chain ht i := by
  rw [h.headRoot, iterateAncestorBlocks]
  have hchain := h.chain
  cases hi : forkChoice.protoArray.indices[head.blockRoot]? with
  | none =>
    rw [ProtoArray.getAllAncestorNodes, hi] at hchain
    cases hchain
  | some i =>
    rw [ProtoArray.getAllAncestorNodes_eq ht hi, Except.ok.injEq] at hchain
    obtain ⟨node, hnode, -⟩ := ht.indices_iff.mp hi
    rw [ProtoArray.iterateAncestorNodes_eq ht hi]
    refine ⟨?_, i, hchain.symm⟩
    rw [ProtoArray.chain_eq_cons ht hnode] at hchain
    rw [(List.cons.inj hchain).2]

theorem CanonicalChain.pairwise
    (h : CanonicalChain db forkChoice head ancestors canonical border)
    (ht : forkChoice.protoArray.Tree) (hs : forkChoice.protoArray.SlotsIncrease) :
    (head :: ancestors).Pairwise fun child ancestor => ancestor.slot < child.slot := by
  obtain ⟨i, hi⟩ := (h.ancestors_eq ht).2
  rw [hi]
  exact hs.pairwise_chain ht i

namespace CanonicalChain

variable (h : CanonicalChain db forkChoice head ancestors canonical border)
include h

end CanonicalChain

/-! ## Requests -/

section Main

variable [Preset]

end Main

attribute [local instance] minimal

end Lodestar.ReqResp
