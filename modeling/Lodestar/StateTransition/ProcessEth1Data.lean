import Lodestar.Params

/-!
# Votes for eth1 data

`allForks/block/processEth1Data.ts` and the number of deposits that
`processOperations` asks of a block. Two views of eth1 data are compared by
their hashes, which differ when the values do.
-/

namespace Lodestar.StateTransition

/-- The fields of a state that the vote of a block and its deposits depend on. -/
structure Eth1State where
  genesisTime : Nat
  slot : Nat
  eth1Data : Eth1Data
  eth1DataVotes : List Eth1Data
  eth1DepositIndex : Nat
  deriving DecidableEq

variable [Preset]

/-- If adding the vote would change the eth1 data of the state. -/
def becomesNewEth1Data (state : Eth1State) (newEth1Data : Eth1Data) : Bool :=
  let SLOTS_PER_ETH1_VOTING_PERIOD := EPOCHS_PER_ETH1_VOTING_PERIOD * SLOTS_PER_EPOCH
  if (state.eth1DataVotes.length + 1) * 2 ≤ SLOTS_PER_ETH1_VOTING_PERIOD then false
  else if state.eth1Data = newEth1Data then false
  else
    let sameVotesCount := state.eth1DataVotes.countP (· = newEth1Data)
    decide ((sameVotesCount + 1) * 2 > SLOTS_PER_ETH1_VOTING_PERIOD)

/-- `processEth1Data` for the vote of a block. -/
def processEth1Data (state : Eth1State) (eth1Data : Eth1Data) : Eth1State where
  genesisTime := state.genesisTime
  slot := state.slot
  eth1Data := if becomesNewEth1Data state eth1Data then eth1Data else state.eth1Data
  eth1DataVotes := state.eth1DataVotes ++ [eth1Data]
  eth1DepositIndex := state.eth1DepositIndex

/-- The number of deposits of a block for `processOperations`, less than zero for no block. -/
def maxDeposits (state : Eth1State) : Int :=
  min (MAX_DEPOSITS : Int) (state.eth1Data.depositCount - state.eth1DepositIndex)

theorem becomesNewEth1Data_of_notMem {state : Eth1State} {newEth1Data : Eth1Data}
    (h : newEth1Data ∉ state.eth1DataVotes) : becomesNewEth1Data state newEth1Data = false := by
  have hcount : state.eth1DataVotes.countP (· = newEth1Data) = 0 := by
    rw [List.countP_eq_zero]
    intro vote hvote
    rw [decide_eq_true_iff]
    rintro rfl
    exact h hvote
  have hperiod : 2 ≤ EPOCHS_PER_ETH1_VOTING_PERIOD * SLOTS_PER_EPOCH := by
    calc 2 = 2 * 1 := rfl
      _ ≤ EPOCHS_PER_ETH1_VOTING_PERIOD * SLOTS_PER_EPOCH :=
        Nat.mul_le_mul Preset.EPOCHS_PER_ETH1_VOTING_PERIOD_gt Preset.SLOTS_PER_EPOCH_pos
  unfold becomesNewEth1Data
  dsimp only
  rw [hcount]
  split_ifs
  · rfl
  · rfl
  · rw [decide_eq_false_iff_not]
    omega

/-! ## The spec -/

/-- `process_eth1_data`: appends the vote, and adopts it if more than half the period's slots have
it. -/
def specProcessEth1Data (state : Eth1State) (eth1Data : Eth1Data) : Eth1State :=
  let eth1DataVotes := state.eth1DataVotes ++ [eth1Data]
  { state with
    eth1DataVotes
    eth1Data :=
      if EPOCHS_PER_ETH1_VOTING_PERIOD * SLOTS_PER_EPOCH < eth1DataVotes.count eth1Data * 2 then
        eth1Data
      else state.eth1Data }

omit [Preset] in
theorem count_append_vote (votes : List Eth1Data) (vote : Eth1Data) :
    (votes ++ [vote]).count vote = votes.countP (· = vote) + 1 := by
  rw [List.count_append, List.count_singleton_self, List.count]
  congr 1

theorem becomesNewEth1Data_iff {state : Eth1State} {newEth1Data : Eth1Data} :
    becomesNewEth1Data state newEth1Data = true ↔
      state.eth1Data ≠ newEth1Data ∧ EPOCHS_PER_ETH1_VOTING_PERIOD * SLOTS_PER_EPOCH
        < (state.eth1DataVotes ++ [newEth1Data]).count newEth1Data * 2 := by
  have hcount := List.countP_le_length (p := (· = newEth1Data)) (l := state.eth1DataVotes)
  rw [count_append_vote]
  unfold becomesNewEth1Data
  dsimp only
  split_ifs with hshort hsame
  · -- not even all the votes are half of the period
    simp only [false_iff, not_and]
    omega
  · simp [hsame]
  · rw [decide_eq_true_iff]
    exact ⟨fun hmajority => ⟨hsame, hmajority⟩, fun h => h.2⟩

theorem processEth1Data_step (state : Eth1State) (eth1Data : Eth1Data) :
    processEth1Data state eth1Data = specProcessEth1Data state eth1Data := by
  unfold processEth1Data specProcessEth1Data
  simp only [Eth1State.mk.injEq, true_and, and_true]
  by_cases hsame : state.eth1Data = eth1Data
  · simp [hsame]
  · refine if_congr ?_ rfl rfl
    rw [becomesNewEth1Data_iff]
    exact and_iff_right hsame

/-- The eth1 data and the votes after each block of a period are those of the spec, and a vote
becomes the new eth1 data exactly when the spec changes it. -/
theorem processEth1Data_eq_spec (state : Eth1State) :
    (∀ votes : List Eth1Data, votes.scanl processEth1Data state
      = votes.scanl specProcessEth1Data state) ∧
    ∀ vote, becomesNewEth1Data state vote = true ↔
      (specProcessEth1Data state vote).eth1Data ≠ state.eth1Data := by
  constructor
  · intro votes
    have hstep : (processEth1Data : Eth1State → Eth1Data → Eth1State) = specProcessEth1Data :=
      funext fun state => funext fun vote => processEth1Data_step state vote
    rw [hstep]
  · intro vote
    rw [becomesNewEth1Data_iff]
    unfold specProcessEth1Data
    dsimp only
    split_ifs with hmajority
    · exact ⟨fun h => Ne.symm h.1, fun h => ⟨Ne.symm h, hmajority⟩⟩
    · exact ⟨fun h => absurd h.2 hmajority, fun h => absurd rfl h⟩

end Lodestar.StateTransition
