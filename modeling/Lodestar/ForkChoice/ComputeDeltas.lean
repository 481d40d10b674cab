import Lodestar.ForkChoice.Store
import Lodestar.ForkChoice.Wf

/-!
# Score deltas

`protoArray/computeDeltas.ts`. It throws at an index outside the deltas only,
which a well-formed array does not have.
-/

namespace Lodestar.ForkChoice

open Lodestar.Base
open Std (TreeMap)

/-- Adds to the delta of a root's node. A root that is not known is outside the tree, and is
ignored. -/
def addDelta (indices : TreeMap RootHex Nat) (deltas : List Int) (root : RootHex) (delta : Int) :
    Except ProtoArrayError (List Int) :=
  match indices[root]? with
  | none => .ok deltas
  | some deltaIndex =>
    if deltas.length ≤ deltaIndex then .error (.INVALID_NODE_DELTA deltaIndex)
    else .ok (deltas.modify deltaIndex (· + delta))

/-- The body of the loop of `computeDeltas`. -/
def voteDeltas (indices : TreeMap RootHex Nat) (vote : IVoteTracker) (oldBalance newBalance : Nat)
    (deltas : List Int) : Except ProtoArrayError (List Int) :=
  if vote.currentRoot ≠ vote.nextRoot || oldBalance ≠ newBalance then do
    let deltas ← addDelta indices deltas vote.currentRoot (-oldBalance)
    addDelta indices deltas vote.nextRoot newBalance
  else
    .ok deltas

/-- The loop of `computeDeltas` from the validator `vIndex` on. -/
def computeDeltasFrom (indices : TreeMap RootHex Nat)
    (oldBalances newBalances : EffectiveBalanceIncrements) :
    Nat → List (Option IVoteTracker) → List Int →
      Except ProtoArrayError (List Int × List (Option IVoteTracker))
  | _, [], deltas => .ok (deltas, [])
  | vIndex, vote? :: votes, deltas => do
    let (deltas, vote?) ←
      match vote? with
      | none => pure (deltas, none)
      | some vote =>
        -- nothing changes for a validator whose votes are both for the zero hash
        if vote.currentRoot = HEX_ZERO_HASH && vote.nextRoot = HEX_ZERO_HASH then
          pure (deltas, some vote)
        else do
          let oldBalance := oldBalances.getD vIndex 0
          let newBalance := newBalances.getD vIndex 0
          let deltas ← voteDeltas indices vote oldBalance newBalance deltas
          pure (deltas, some { vote with currentRoot := vote.nextRoot })
    let (deltas, votes) ← computeDeltasFrom indices oldBalances newBalances (vIndex + 1) votes deltas
    return (deltas, vote? :: votes)

/-- The deltas, one for each of the indices, and the votes with their current roots moved on. -/
def computeDeltas (indices : TreeMap RootHex Nat) (votes : List (Option IVoteTracker))
    (oldBalances newBalances : EffectiveBalanceIncrements) :
    Except ProtoArrayError (List Int × List (Option IVoteTracker)) :=
  computeDeltasFrom indices oldBalances newBalances 0 votes (List.replicate indices.size 0)

/-! ## What the deltas add up to -/

/-- The root that a vote is for; it is the zero hash for a validator without one. -/
def rootOf (pick : IVoteTracker → RootHex) (votes : List (Option IVoteTracker)) (v : Nat) :
    RootHex :=
  ((votes.getD v none).map pick).getD HEX_ZERO_HASH

/-- The balance of the validators whose votes are for the root. -/
def support (pick : IVoteTracker → RootHex) (votes : List (Option IVoteTracker))
    (balances : EffectiveBalanceIncrements) (root : RootHex) : Int :=
  ∑ v ∈ Finset.range votes.length,
    if rootOf pick votes v = root then (balances.getD v 0 : Int) else 0

/-- The votes with their current roots moved on. -/
def movedOn (votes : List (Option IVoteTracker)) : List (Option IVoteTracker) :=
  votes.map (·.map fun vote => { vote with currentRoot := vote.nextRoot })

section Support

variable {pick pick' : IVoteTracker → RootHex} {votes votes' : List (Option IVoteTracker)}
  {balances : EffectiveBalanceIncrements} {root : RootHex}

theorem support_cons (vote? : Option IVoteTracker) (k : Nat) :
    support pick (vote? :: votes) (balances.drop k) root
      = support pick votes (balances.drop (k + 1)) root
        + if (vote?.map pick).getD HEX_ZERO_HASH = root then (balances.getD k 0 : Int) else 0 := by
  rw [support, List.length_cons, Finset.sum_range_succ', support]
  congr 1
  · refine Finset.sum_congr rfl fun v _ => ?_
    rw [List.getD_eq_getElem?_getD, List.getD_eq_getElem?_getD, List.getElem?_drop,
      List.getElem?_drop, Nat.add_right_comm, Nat.add_assoc]
    rfl
  · rw [List.getD_eq_getElem?_getD, List.getElem?_drop, Nat.add_zero, ← List.getD_eq_getElem?_getD]
    rfl

theorem rootOf_of_le {v : Nat} (h : votes.length ≤ v) : rootOf pick votes v = HEX_ZERO_HASH := by
  rw [rootOf, List.getD_eq_getElem?_getD, List.getElem?_eq_none h]
  rfl

/-- Validators without a vote add nothing to a block other than the alias of the genesis block. -/
theorem support_eq_sum (hroot : root ≠ HEX_ZERO_HASH) {n : Nat} (hn : votes.length ≤ n) :
    support pick votes balances root
      = ∑ v ∈ Finset.range n,
          if rootOf pick votes v = root then (balances.getD v 0 : Int) else 0 := by
  refine Finset.sum_subset (Finset.range_subset_range.mpr hn) fun v _ hv => ?_
  rw [rootOf_of_le (Nat.not_lt.mp fun hlt => hv (Finset.mem_range.mpr hlt)), if_neg hroot.symm]

theorem support_congr (hroot : root ≠ HEX_ZERO_HASH)
    (h : ∀ v, rootOf pick votes v = rootOf pick' votes' v) :
    support pick votes balances root = support pick' votes' balances root := by
  rw [support_eq_sum hroot (le_max_left votes.length votes'.length),
    support_eq_sum hroot (le_max_right votes.length votes'.length)]
  exact Finset.sum_congr rfl fun v _ => by rw [h v]

theorem getD_movedOn (v : Nat) : (movedOn votes).getD v none
    = (votes.getD v none).map fun vote => { vote with currentRoot := vote.nextRoot } := by
  rw [movedOn, List.getD_eq_getElem?_getD, List.getElem?_map, List.getD_eq_getElem?_getD]
  cases votes[v]? <;> rfl

theorem rootOf_movedOn (v : Nat) :
    rootOf (·.currentRoot) (movedOn votes) v = rootOf (·.nextRoot) votes v := by
  rw [rootOf, getD_movedOn, Option.map_map]
  rfl

theorem rootOf_next_movedOn (v : Nat) :
    rootOf (·.nextRoot) (movedOn votes) v = rootOf (·.nextRoot) votes v := by
  rw [rootOf, getD_movedOn, Option.map_map]
  rfl

end Support

section Deltas

variable {array : ProtoArray} {deltas : List Int}

theorem addDelta_spec (h : array.Tree) (hlen : deltas.length = array.nodes.length) (root : RootHex)
    (delta : Int) :
    ∃ deltas', addDelta array.indices deltas root delta = .ok deltas' ∧
      deltas'.length = deltas.length ∧
      ∀ {i : Nat} {node : IProtoNode}, array.nodes[i]? = some node →
        deltas'.getD i 0 = deltas.getD i 0 + if root = node.blockRoot then delta else 0 := by
  rw [addDelta]
  cases hj : array.indices[root]? with
  | none =>
    refine ⟨deltas, rfl, rfl, fun {i node} hnode => ?_⟩
    rw [if_neg, add_zero]
    rintro rfl
    rw [h.indices_iff.mpr ⟨node, hnode, rfl⟩] at hj
    cases hj
  | some j =>
    have hlt : j < deltas.length := hlen ▸ h.lt_length_of_index hj
    refine ⟨_, if_neg (Nat.not_le.mpr hlt), List.length_modify _ _ _, fun {i node} hnode => ?_⟩
    have hi : i < deltas.length := hlen ▸ (List.getElem?_eq_some_iff.mp hnode).1
    have hiff : j = i ↔ root = node.blockRoot := by
      constructor
      · rintro rfl
        obtain ⟨node', hnode', hroot⟩ := h.indices_iff.mp hj
        rw [hnode] at hnode'
        rw [← hroot, Option.some.inj hnode']
      · rintro rfl
        exact Option.some.inj (hj.symm.trans (h.indices_iff.mpr ⟨node, hnode, rfl⟩))
    rw [List.getD_eq_getElem?_getD, List.getElem?_modify, List.getD_eq_getElem?_getD,
      List.getElem?_eq_getElem hi]
    by_cases hji : j = i
    · simp [hji, hiff.mp hji]
    · simp [hji, mt hiff.mpr hji]

theorem voteDeltas_spec (h : array.Tree) (hlen : deltas.length = array.nodes.length)
    (vote : IVoteTracker) (oldBalance newBalance : Nat) :
    ∃ deltas', voteDeltas array.indices vote oldBalance newBalance deltas = .ok deltas' ∧
      deltas'.length = deltas.length ∧
      ∀ {i : Nat} {node : IProtoNode}, array.nodes[i]? = some node →
        deltas'.getD i 0 = deltas.getD i 0
          + ((if vote.nextRoot = node.blockRoot then (newBalance : Int) else 0)
            - if vote.currentRoot = node.blockRoot then (oldBalance : Int) else 0) := by
  rw [voteDeltas]
  split
  · obtain ⟨taken, htaken, htakenLength, htakenAt⟩ :=
      addDelta_spec h hlen vote.currentRoot (-oldBalance)
    obtain ⟨given, hgiven, hgivenLength, hgivenAt⟩ :=
      addDelta_spec h (htakenLength.trans hlen) vote.nextRoot newBalance
    refine ⟨given, ?_, hgivenLength.trans htakenLength, fun hnode => ?_⟩
    · rw [htaken]
      exact hgiven
    · rw [hgivenAt hnode, htakenAt hnode]
      split_ifs <;> ring
  · -- nothing has changed
    rename_i hsame
    simp only [ne_eq, Bool.or_eq_true, decide_eq_true_eq, not_or, not_not] at hsame
    refine ⟨deltas, rfl, rfl, fun hnode => ?_⟩
    rw [hsame.1, hsame.2, sub_self, add_zero]

/-- The deltas from the validator `k` on take the old support of each block away and give it the
new one. -/
theorem computeDeltasFrom_spec (h : array.Tree)
    (oldBalances newBalances : EffectiveBalanceIncrements) (k : Nat) (votes : List (Option IVoteTracker)) (hlen : deltas.length = array.nodes.length) :
    ∃ deltas', computeDeltasFrom array.indices oldBalances newBalances k votes deltas
        = .ok (deltas', movedOn votes) ∧ deltas'.length = deltas.length ∧
      ∀ {i : Nat} {node : IProtoNode}, array.nodes[i]? = some node →
        node.blockRoot ≠ HEX_ZERO_HASH →
        deltas'.getD i 0 = deltas.getD i 0
          + (support (·.nextRoot) votes (newBalances.drop k) node.blockRoot
            - support (·.currentRoot) votes (oldBalances.drop k) node.blockRoot) := by
  induction votes generalizing k deltas with
  | nil => exact ⟨deltas, rfl, rfl, fun _ _ => by simp [support]⟩
  | cons vote? votes ih =>
    cases vote? with
    | none =>
      obtain ⟨rest, hcall, hlength, hat⟩ := ih (k + 1) hlen
      refine ⟨rest, ?_, hlength, fun {i node} hnode hroot => ?_⟩
      · simp only [computeDeltasFrom, pure_bind, hcall]
        rfl
      · rw [hat hnode hroot, support_cons, support_cons, Option.map_none, Option.map_none,
          Option.getD_none, if_neg hroot.symm, if_neg hroot.symm, add_zero, add_zero]
    | some vote =>
      by_cases hskip : vote.currentRoot = HEX_ZERO_HASH ∧ vote.nextRoot = HEX_ZERO_HASH
      · obtain ⟨rest, hcall, hlength, hat⟩ := ih (k + 1) hlen
        have hsame : { vote with currentRoot := vote.nextRoot } = vote := by
          obtain ⟨current, next, epoch⟩ := vote
          obtain ⟨rfl, rfl⟩ := hskip
          rfl
        refine ⟨rest, ?_, hlength, fun {i node} hnode hroot => ?_⟩
        · rw [computeDeltasFrom]
          simp only [hskip.1, hskip.2, decide_true, Bool.and_self, if_true, pure_bind, hcall]
          rw [movedOn, movedOn, List.map_cons, Option.map_some, hsame]
          rfl
        · rw [hat hnode hroot, support_cons, support_cons, Option.map_some, Option.map_some,
            Option.getD_some, Option.getD_some, hskip.1, hskip.2, if_neg hroot.symm,
            if_neg hroot.symm, add_zero, add_zero]
      · obtain ⟨first, hfirst, hfirstLength, hfirstAt⟩ :=
          voteDeltas_spec h hlen vote (oldBalances.getD k 0) (newBalances.getD k 0)
        obtain ⟨rest, hcall, hlength, hat⟩ := ih (k + 1) (hfirstLength.trans hlen)
        refine ⟨rest, ?_, hlength.trans hfirstLength, fun {i node} hnode hroot => ?_⟩
        · have hnot : (vote.currentRoot = HEX_ZERO_HASH && vote.nextRoot = HEX_ZERO_HASH)
              = false := by
            simpa using hskip
          rw [computeDeltasFrom]
          simp only [hnot, Bool.false_eq_true, if_false, hfirst, bind, Except.bind, pure,
            Except.pure, hcall]
          rfl
        · rw [hat hnode hroot, hfirstAt hnode, support_cons, support_cons]
          simp only [Option.map_some, Option.getD_some]
          ring

theorem computeDeltas_spec (h : array.Tree) (votes : List (Option IVoteTracker))
    (oldBalances newBalances : EffectiveBalanceIncrements) :
    ∃ deltas, computeDeltas array.indices votes oldBalances newBalances
        = .ok (deltas, movedOn votes) ∧ deltas.length = array.nodes.length ∧
      ∀ {i : Nat} {node : IProtoNode}, array.nodes[i]? = some node →
        node.blockRoot ≠ HEX_ZERO_HASH →
        deltas.getD i 0 = support (·.nextRoot) votes newBalances node.blockRoot
          - support (·.currentRoot) votes oldBalances node.blockRoot := by
  have hlen : (List.replicate array.indices.size (0 : Int)).length = array.nodes.length := by
    rw [List.length_replicate, h.size_indices]
  obtain ⟨deltas, hcall, hlength, hat⟩ :=
    computeDeltasFrom_spec h oldBalances newBalances 0 votes hlen
  refine ⟨deltas, hcall, hlength.trans hlen, fun {i node} hnode hroot => ?_⟩
  have hzero : (List.replicate array.indices.size (0 : Int)).getD i 0 = 0 := by
    rw [List.getD_eq_getElem?_getD, List.getElem?_replicate]
    split <;> rfl
  rw [hat hnode hroot, hzero, zero_add, List.drop_zero, List.drop_zero]

end Deltas

end Lodestar.ForkChoice
