import Lodestar.Base.Bytes
import Lodestar.Base.Except
import Lodestar.Base.OrderedMap
import Lodestar.StateTransition.ProcessEth1Data

/-!
# The eth1 data to vote for

`eth1/utils/eth1Vote.ts`: the candidate with the most votes of the period, the
latest of them if there are several, or else the latest candidate.
-/

namespace Lodestar.Eth1

open Lodestar.Base Lodestar.StateTransition

/-! ## Candidates -/

structure TimestampRange where
  gte : Int
  lte : Int
  deriving DecidableEq

/-- `Eth1DataGetter`, which reads a database and may throw. -/
abbrev Eth1DataGetter := TimestampRange → Except String (List Eth1Data)

def computeTimeAtSlot (config : ChainConfig) (slot genesisTime : Nat) : Nat :=
  genesisTime + slot * config.SECONDS_PER_SLOT

section

variable [Preset]

def votingPeriodStartTime (config : ChainConfig) (state : Eth1State) : Nat :=
  let eth1VotingPeriodStartSlot :=
    state.slot - state.slot % (EPOCHS_PER_ETH1_VOTING_PERIOD * SLOTS_PER_EPOCH)
  computeTimeAtSlot config eth1VotingPeriodStartSlot state.genesisTime

def getEth1VotesToConsider (config : ChainConfig) (state : Eth1State)
    (eth1DataGetter : Eth1DataGetter) : Except String (List Eth1Data) := do
  let periodStart : Int := votingPeriodStartTime config state
  let distance : Int := config.SECONDS_PER_ETH1_BLOCK * config.ETH1_FOLLOW_DISTANCE
  let eth1Datas ← eth1DataGetter { gte := periodStart - distance * 2, lte := periodStart - distance }
  return eth1Datas.filter fun eth1Data => eth1Data.depositCount ≥ state.eth1Data.depositCount

end

/-! ## Votes -/

/-- `fastSerializeEth1Data`. -/
def getEth1DataKey (eth1Data : Eth1Data) : List Char :=
  toHexString eth1Data.blockHash ++ Nat.toDigits 16 eth1Data.depositCount ++
    toHexString eth1Data.depositRoot

/-- The keys with the greatest value, in the order of the map. -/
def getKeysWithMaxValue {α : Type} (map : OrderedMap α Nat) : List α :=
  (map.entries.foldl
    (fun (keysMax, valueMax) (key, value) =>
      if value > valueMax then ([key], (value : WithBot Nat))
      else if value = valueMax then (keysMax ++ [key], valueMax)
      else (keysMax, valueMax))
    (([], ⊥) : List α × WithBot Nat)).1

/-- The maps and the order that the loop of `pickEth1Vote` fills. -/
structure VoteCounts where
  eth1DataHashToEth1Data : OrderedMap (List Char) Eth1Data := .empty
  eth1DataVoteCountByRoot : OrderedMap (List Char) Nat := .empty
  eth1DataVotesOrder : List (List Char) := []

/-- One vote of the state. -/
def VoteCounts.add (votesToConsiderKeys : List (List Char)) (counts : VoteCounts)
    (eth1DataVote : Eth1Data) : VoteCounts :=
  let rootHex := getEth1DataKey eth1DataVote
  if rootHex ∈ votesToConsiderKeys then
    match counts.eth1DataVoteCountByRoot.get rootHex with
    | some prevVoteCount =>
      { counts with
        eth1DataVoteCountByRoot := counts.eth1DataVoteCountByRoot.set rootHex (1 + prevVoteCount) }
    | none =>
      { eth1DataVoteCountByRoot := counts.eth1DataVoteCountByRoot.set rootHex 1
        eth1DataHashToEth1Data := counts.eth1DataHashToEth1Data.set rootHex eth1DataVote
        eth1DataVotesOrder := counts.eth1DataVotesOrder ++ [rootHex] }
  else counts

def pickEth1Vote (state : Eth1State) (votesToConsider : List Eth1Data) : Eth1Data :=
  let votesToConsiderKeys := votesToConsider.map getEth1DataKey
  let counts := state.eth1DataVotes.foldl (VoteCounts.add votesToConsiderKeys) {}
  let eth1DataRootsMaxVotes := getKeysWithMaxValue counts.eth1DataVoteCountByRoot
  match eth1DataRootsMaxVotes with
  -- no votes, vote for the last valid vote
  | [] => votesToConsider.getLast?.getD state.eth1Data
  | [root] => (counts.eth1DataHashToEth1Data.get root).getD state.eth1Data
  -- several winning votes, vote for the latest one
  | roots =>
    let latest := (roots.map (counts.eth1DataVotesOrder.idxOf ·)).foldl max 0
    ((counts.eth1DataVotesOrder[latest]?).bind counts.eth1DataHashToEth1Data.get).getD
      state.eth1Data

/-! ## What is picked -/

theorem blockHash_eq_of_getEth1DataKey_eq {a b : Eth1Data}
    (h : getEth1DataKey a = getEth1DataKey b) : a.blockHash = b.blockHash := by
  unfold getEth1DataKey at h
  rw [List.append_assoc, List.append_assoc] at h
  exact toHexString_injective ⟨64, rfl⟩ (List.append_inj h (by simp)).1

theorem depositCount_eq_of_getEth1DataKey_eq {a b : Eth1Data}
    (h : getEth1DataKey a = getEth1DataKey b) : a.depositCount = b.depositCount := by
  unfold getEth1DataKey at h
  obtain ⟨h, _⟩ := List.append_inj' h (by simp)
  obtain ⟨_, h⟩ := List.append_inj h (by simp)
  exact toDigits_injective (by decide) (by decide) h

/-- The votes that are counted. -/
def VoteCounts.Considers (votesToConsiderKeys : List (List Char)) (counts : VoteCounts) : Prop :=
  ∀ root eth1Data, counts.eth1DataHashToEth1Data.get root = some eth1Data →
    getEth1DataKey eth1Data ∈ votesToConsiderKeys

variable {votesToConsiderKeys : List (List Char)} {counts : VoteCounts} {state : Eth1State}
  {votesToConsider : List Eth1Data}

theorem VoteCounts.Considers.add (h : counts.Considers votesToConsiderKeys)
    (eth1DataVote : Eth1Data) :
    (counts.add votesToConsiderKeys eth1DataVote).Considers votesToConsiderKeys := by
  unfold VoteCounts.add
  by_cases hmem : getEth1DataKey eth1DataVote ∈ votesToConsiderKeys
  · dsimp only
    rw [if_pos hmem]
    split
    · exact h
    · intro root eth1Data hget
      dsimp only at hget
      rw [OrderedMap.get_set] at hget
      split_ifs at hget
      · cases hget
        exact hmem
      · exact h root eth1Data hget
  · dsimp only
    rw [if_neg hmem]
    exact h

theorem VoteCounts.Considers.foldl (h : counts.Considers votesToConsiderKeys)
    (votes : List Eth1Data) :
    (votes.foldl (VoteCounts.add votesToConsiderKeys) counts).Considers votesToConsiderKeys := by
  induction votes generalizing counts with
  | nil => exact h
  | cons vote votes ih => exact ih (h.add vote)

theorem pickEth1Vote_eq_or (state : Eth1State) (votesToConsider : List Eth1Data) :
    pickEth1Vote state votesToConsider = state.eth1Data ∨
      ∃ candidate ∈ votesToConsider,
        getEth1DataKey candidate = getEth1DataKey (pickEth1Vote state votesToConsider) := by
  set counts := state.eth1DataVotes.foldl (VoteCounts.add (votesToConsider.map getEth1DataKey)) {}
    with hcounts
  have hconsiders : counts.Considers (votesToConsider.map getEth1DataKey) := by
    apply VoteCounts.Considers.foldl
    rintro root eth1Data ⟨⟩
  have hvote : ∀ found : Option Eth1Data,
      (∀ eth1Data, found = some eth1Data → ∃ root, counts.eth1DataHashToEth1Data.get root
        = some eth1Data) →
      found.getD state.eth1Data = state.eth1Data ∨ ∃ candidate ∈ votesToConsider,
        getEth1DataKey candidate = getEth1DataKey (found.getD state.eth1Data) := by
    intro found hfound
    cases found with
    | none => exact .inl rfl
    | some eth1Data =>
      obtain ⟨root, hroot⟩ := hfound eth1Data rfl
      exact .inr (List.mem_map.mp (hconsiders root eth1Data hroot))
  unfold pickEth1Vote
  dsimp only
  rw [← hcounts]
  split
  · cases hlast : votesToConsider.getLast? with
    | none => exact .inl rfl
    | some candidate => exact .inr ⟨candidate, List.mem_of_getLast? hlast, rfl⟩
  · exact hvote _ fun eth1Data h => ⟨_, h⟩
  · apply hvote
    intro eth1Data h
    obtain ⟨root, _, hroot⟩ := Option.bind_eq_some_iff.mp h
    exact ⟨root, hroot⟩

theorem pickEth1Vote_of_no_votes
    (h : ∀ vote ∈ state.eth1DataVotes, getEth1DataKey vote ∉ votesToConsider.map getEth1DataKey) :
    pickEth1Vote state votesToConsider = votesToConsider.getLast?.getD state.eth1Data := by
  have hcounts : ∀ votes : List Eth1Data,
      (∀ vote ∈ votes, getEth1DataKey vote ∉ votesToConsider.map getEth1DataKey) →
      votes.foldl (VoteCounts.add (votesToConsider.map getEth1DataKey)) {} = {} := by
    intro votes hvotes
    induction votes with
    | nil => rfl
    | cons vote votes ih =>
      obtain ⟨hvote, hvotes⟩ := List.forall_mem_cons.mp hvotes
      rw [List.foldl_cons, VoteCounts.add, if_neg hvote]
      exact ih hvotes
  unfold pickEth1Vote
  dsimp only
  rw [hcounts _ h]
  rfl

end Lodestar.Eth1
