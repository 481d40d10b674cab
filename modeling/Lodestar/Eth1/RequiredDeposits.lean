import Lodestar.Eth1.DepositsCache
import Lodestar.Eth1.Eth1Vote

/-!
# Deposits that a block must carry

`Eth1DepositDataTracker.getEth1DataAndDeposits`: the vote of the block, and the
deposits that `processOperations` will ask of it after the vote.

Deposits are read for the eth1 data that the vote will leave, except when the
vote counts no more deposits than the state has processed. That exception is
right because no candidate counts fewer deposits than the state does, so long
as the state has not processed more deposits than it counts.
-/

namespace Lodestar.Eth1

open Lodestar.Base Lodestar.StateTransition

/-! ## Deposits for the tracker -/

section

variable [DepositTree]

def getDepositsWithProofs (depositEvents : List DepositEvent) (depositRootTree : List Root)
    (eth1Data : Eth1Data) : Except Eth1Error (List Deposit) := do
  let treeAtDepositCount ← getTreeAtIndex depositRootTree (eth1Data.depositCount - 1)
  let depositRoot := listRoot treeAtDepositCount
  if depositRoot ≠ eth1Data.depositRoot then
    throw (.WRONG_DEPOSIT_ROOT depositRoot eth1Data.depositRoot)
  return depositEvents.map fun log =>
    { proof := singleProof treeAtDepositCount log.index
      data := log.depositData }

def Eth1Db.get (db : Eth1Db) (indexRange : FilterOptions) (eth1Data : Eth1Data) :
    Except Eth1Error (List Deposit) :=
  getDepositsWithProofs (db.depositEvent.values indexRange) db.depositRootTree eth1Data

variable [Preset]

/-- `getDeposits` of `utils/deposits.ts`. -/
def getDeposits (state : Eth1State) (eth1Data : Eth1Data)
    (depositsGetter : FilterOptions → Eth1Data → Except Eth1Error (List Deposit)) :
    Except Eth1Error (List Deposit) := do
  let depositIndex := state.eth1DepositIndex
  let depositCount := eth1Data.depositCount
  if depositIndex > depositCount then
    throw (.DEPOSIT_INDEX_TOO_HIGH depositIndex depositCount)
  let depositsLen := min MAX_DEPOSITS (depositCount - depositIndex)
  let indexRange := { gte := some depositIndex, lt := some (depositIndex + depositsLen) }
  let deposits ← depositsGetter indexRange eth1Data
  if deposits.length < depositsLen then
    throw (.NOT_ENOUGH_DEPOSITS deposits.length depositsLen)
  else if deposits.length > depositsLen then
    throw (.TOO_MANY_DEPOSITS deposits.length depositsLen)
  return deposits

/-! ## The tracker -/

/-- The caches that the tracker reads. -/
structure Eth1DepositDataTracker where
  config : ChainConfig
  /-- `eth1DataCache.get`. -/
  eth1DataCache : Eth1DataGetter
  /-- What `depositsCache` reads. -/
  depositsCache : Eth1Db

structure Eth1DataAndDeposits where
  eth1Data : Eth1Data
  deposits : List Deposit
  deriving DecidableEq

namespace Eth1DepositDataTracker

/-- An error is logged, and the vote is for the eth1 data of the state. -/
def getEth1Data (this : Eth1DepositDataTracker) (state : Eth1State) : Eth1Data :=
  match getEth1VotesToConsider this.config state this.eth1DataCache with
  | .ok eth1VotesToConsider => pickEth1Vote state eth1VotesToConsider
  | .error _ => state.eth1Data

def getDeposits (this : Eth1DepositDataTracker) (state : Eth1State) (eth1DataVote : Eth1Data) :
    Except Eth1Error (List Deposit) :=
  -- no new deposits have to be included
  if eth1DataVote.depositCount = state.eth1DepositIndex then .ok []
  else
    -- eth1 data may change due to the vote included in this block
    let newEth1Data := if becomesNewEth1Data state eth1DataVote then eth1DataVote else state.eth1Data
    Eth1.getDeposits state newEth1Data this.depositsCache.get

def getEth1DataAndDeposits (this : Eth1DepositDataTracker) (state : Eth1State) :
    Except Eth1Error Eth1DataAndDeposits := do
  let eth1Data := this.getEth1Data state
  let deposits ← this.getDeposits state eth1Data
  return { eth1Data, deposits }

end Eth1DepositDataTracker

end

/-! ## What a block must carry -/

/-- `batchPutValues` puts each event under its index. -/
def Eth1Db.KeyedByIndex (db : Eth1Db) : Prop :=
  ∀ (key : Nat) (event : DepositEvent), db.depositEvent[key]? = some event → event.index = key

/-- The deposits are as many as `processOperations` asks for after the vote, and the next ones. -/
structure CarriesRequiredDeposits [Preset] (db : Eth1Db) (state : Eth1State)
    (block : Eth1DataAndDeposits) : Prop where
  length : (block.deposits.length : Int) = maxDeposits (processEth1Data state block.eth1Data)
  consecutive : ∃ events : List DepositEvent,
    (∀ event ∈ events, db.depositEvent[event.index]? = some event) ∧
    events.map (·.index) = List.range' state.eth1DepositIndex block.deposits.length ∧
    block.deposits.map (·.data) = events.map (·.depositData)

/-! ## Deposits of a range -/

section

variable [DepositTree] {db : Eth1Db} {eth1Data : Eth1Data} {deposits : List Deposit}

theorem getDepositsWithProofs_ok {events : List DepositEvent} {tree : List Root}
    (h : getDepositsWithProofs events tree eth1Data = .ok deposits) :
    deposits.map (·.data) = events.map (·.depositData) := by
  unfold getDepositsWithProofs at h
  obtain ⟨treeAtDepositCount, _, h⟩ := eq_ok_of_bind h
  dsimp only at h
  split_ifs at h
  · cases h
  · obtain rfl := Except.ok.inj h
    rw [List.map_map]
    rfl

theorem Eth1Db.KeyedByIndex.get_ok (h : db.KeyedByIndex) {start len : Nat}
    (hget : db.get { gte := some start, lt := some (start + len) } eth1Data = .ok deposits)
    (hlength : deposits.length = len) :
    ∃ events : List DepositEvent,
      (∀ event ∈ events, db.depositEvent[event.index]? = some event) ∧
      events.map (·.index) = List.range' start len ∧
      deposits.map (·.data) = events.map (·.depositData) := by
  set opts : FilterOptions := { gte := some start, lt := some (start + len) } with hopts
  have hdata := getDepositsWithProofs_ok hget
  have hentry : ∀ entry ∈ db.depositEvent.entries opts,
      db.depositEvent[entry.2.index]? = some entry.2 ∧ entry.2.index = entry.1 := by
    rintro ⟨key, event⟩ hmem
    rw [KeyValues.entries_eq db.depositEvent rfl rfl] at hmem
    have hevent := KeyValues.mem_toList.mp (List.mem_filter.mp hmem).1
    have hindex := h key event hevent
    refine ⟨?_, hindex⟩
    rwa [hindex]
  have hlen : (db.depositEvent.keys opts).length = len := by
    rw [← hlength, ← List.length_map (fun deposit : Deposit => deposit.data), hdata]
    simp [KeyValues.keys, KeyValues.values]
  refine ⟨db.depositEvent.values opts, ?_, ?_, hdata⟩
  · intro event hevent
    obtain ⟨entry, hmem, rfl⟩ := List.mem_map.mp hevent
    exact (hentry entry hmem).1
  · rw [← KeyValues.keys_eq_range' hlen, KeyValues.values, KeyValues.keys, List.map_map]
    exact List.map_congr_left fun entry hmem => (hentry entry hmem).2

end

section

variable [Preset] {state : Eth1State} {eth1Data : Eth1Data} {deposits : List Deposit}

theorem getDeposits_ok
    {depositsGetter : FilterOptions → Eth1Data → Except Eth1Error (List Deposit)}
    (h : getDeposits state eth1Data depositsGetter = .ok deposits) :
    state.eth1DepositIndex ≤ eth1Data.depositCount ∧
      deposits.length = min MAX_DEPOSITS (eth1Data.depositCount - state.eth1DepositIndex) ∧
      depositsGetter
        { gte := some state.eth1DepositIndex
          lt := some (state.eth1DepositIndex + deposits.length) } eth1Data = .ok deposits := by
  unfold getDeposits at h
  dsimp only at h
  by_cases hindex : state.eth1DepositIndex > eth1Data.depositCount
  · rw [if_pos hindex] at h
    cases h
  · rw [if_neg hindex] at h
    obtain ⟨found, hfound, h⟩ := eq_ok_of_bind h
    split_ifs at h with hless hmore
    · cases h
    · cases h
    · obtain rfl := Except.ok.inj h
      have hlength : found.length
          = min MAX_DEPOSITS (eth1Data.depositCount - state.eth1DepositIndex) := by omega
      rw [hlength]
      exact ⟨by omega, rfl, hfound⟩

/-! ## The vote -/

theorem depositCount_le_getEth1Data (this : Eth1DepositDataTracker) (state : Eth1State) :
    state.eth1Data.depositCount ≤ (this.getEth1Data state).depositCount := by
  unfold Eth1DepositDataTracker.getEth1Data
  cases hvotes : getEth1VotesToConsider this.config state this.eth1DataCache with
  | error _ => exact le_refl _
  | ok votes =>
    rcases pickEth1Vote_eq_or state votes with hpick | ⟨candidate, hcandidate, hkey⟩
    · show _ ≤ (pickEth1Vote state votes).depositCount
      rw [hpick]
    · show _ ≤ (pickEth1Vote state votes).depositCount
      rw [← depositCount_eq_of_getEth1DataKey_eq hkey]
      unfold getEth1VotesToConsider at hvotes
      obtain ⟨eth1Datas, _, hvotes⟩ := eq_ok_of_bind hvotes
      cases hvotes
      simpa using (List.mem_filter.mp hcandidate).2

theorem maxDeposits_of_depositCount_eq {eth1DataVote : Eth1Data}
    (hindex : state.eth1DepositIndex ≤ state.eth1Data.depositCount)
    (hle : state.eth1Data.depositCount ≤ eth1DataVote.depositCount)
    (hcount : eth1DataVote.depositCount = state.eth1DepositIndex) :
    maxDeposits (processEth1Data state eth1DataVote) = 0 := by
  have hafter : (processEth1Data state eth1DataVote).eth1Data.depositCount
      = state.eth1DepositIndex := by
    show (if becomesNewEth1Data state eth1DataVote then eth1DataVote else
      state.eth1Data).depositCount = _
    split_ifs
    · exact hcount
    · omega
  show min (MAX_DEPOSITS : Int) ((processEth1Data state eth1DataVote).eth1Data.depositCount
    - state.eth1DepositIndex) = 0
  omega

end

section

variable [DepositTree] [Preset] {db : Eth1Db} {state : Eth1State} {deposits : List Deposit}
  {this : Eth1DepositDataTracker}

theorem carriesRequiredDeposits_of_getDeposits (hkeyed : db.KeyedByIndex) {eth1DataVote : Eth1Data}
    (h : getDeposits state (processEth1Data state eth1DataVote).eth1Data db.get = .ok deposits) :
    CarriesRequiredDeposits db state ⟨eth1DataVote, deposits⟩ := by
  obtain ⟨hindex, hlength, hget⟩ := getDeposits_ok h
  constructor
  · show (deposits.length : Int) = min (MAX_DEPOSITS : Int)
      ((processEth1Data state eth1DataVote).eth1Data.depositCount - state.eth1DepositIndex)
    omega
  · exact hkeyed.get_ok hget rfl

theorem carriesRequiredDeposits_of_le (hkeyed : this.depositsCache.KeyedByIndex)
    (hindex : state.eth1DepositIndex ≤ state.eth1Data.depositCount) {block : Eth1DataAndDeposits}
    (h : this.getEth1DataAndDeposits state = .ok block) :
    CarriesRequiredDeposits this.depositsCache state block := by
  unfold Eth1DepositDataTracker.getEth1DataAndDeposits at h
  obtain ⟨deposits, hdeposits, h⟩ := eq_ok_of_bind h
  cases h
  have hle := depositCount_le_getEth1Data this state
  unfold Eth1DepositDataTracker.getDeposits at hdeposits
  by_cases hcount : (this.getEth1Data state).depositCount = state.eth1DepositIndex
  · rw [if_pos hcount] at hdeposits
    cases hdeposits
    constructor
    · exact (maxDeposits_of_depositCount_eq hindex hle hcount).symm
    · exact ⟨[], by simp, rfl, rfl⟩
  · rw [if_neg hcount] at hdeposits
    exact carriesRequiredDeposits_of_getDeposits hkeyed hdeposits

end

/-! ## A state that has processed more deposits than it counts -/

theorem exists_blockHash_notMem {votes : List Eth1Data} (h : votes.length < 2 ^ 256) :
    ∃ blockHash : Root, ∀ vote ∈ votes, vote.blockHash ≠ blockHash := by
  have hcard : (votes.map (·.blockHash.toNat)).toFinset.card < (Finset.range (2 ^ 256)).card := by
    calc (votes.map (·.blockHash.toNat)).toFinset.card
        ≤ (votes.map (·.blockHash.toNat)).length := List.toFinset_card_le _
      _ < (Finset.range (2 ^ 256)).card := by rwa [List.length_map, Finset.card_range]
  obtain ⟨hash, hrange, hfresh⟩ := Finset.exists_mem_notMem_of_card_lt_card hcard
  refine ⟨BitVec.ofNat 256 hash, ?_⟩
  rintro vote hvote heq
  apply hfresh
  rw [List.mem_toFinset, List.mem_map]
  refine ⟨vote, hvote, ?_⟩
  rw [heq, BitVec.toNat_ofNat, Nat.mod_eq_of_lt (Finset.mem_range.mp hrange)]

/-- Caches with one candidate, and no deposits. -/
def candidateTracker (candidate : Eth1Data) : Eth1DepositDataTracker where
  config := chainConfigMinimal
  eth1DataCache _ := .ok [candidate]
  depositsCache := { depositEvent := ∅, depositRootTree := [] }

/-- A candidate without a vote that counts as many deposits as the state has processed. -/
theorem getEth1Data_candidateTracker [Preset] {state : Eth1State} {candidate : Eth1Data}
    (hfresh : ∀ vote ∈ state.eth1DataVotes, vote.blockHash ≠ candidate.blockHash)
    (hcount : state.eth1Data.depositCount ≤ candidate.depositCount) :
    (candidateTracker candidate).getEth1Data state = candidate := by
  have hvotes : getEth1VotesToConsider (candidateTracker candidate).config state
      (candidateTracker candidate).eth1DataCache = .ok [candidate] := by
    unfold getEth1VotesToConsider
    show Except.ok ([candidate].filter _) = _
    rw [List.filter_cons_of_pos (by simpa using hcount), List.filter_nil]
  unfold Eth1DepositDataTracker.getEth1Data
  rw [hvotes]
  show pickEth1Vote state [candidate] = candidate
  rw [pickEth1Vote_of_no_votes]
  · rfl
  · intro vote hvote hkey
    rw [List.map_singleton, List.mem_singleton] at hkey
    exact hfresh vote hvote (blockHash_eq_of_getEth1DataKey_eq hkey)

/-- Blocks made for a state carry the required deposits, whatever the caches hold, if and only if
the state has processed no more deposits than its eth1 data counts. -/
theorem carriesRequiredDeposits_iff [DepositTree] [Preset] {state : Eth1State}
    (hvotes : state.eth1DataVotes.length < 2 ^ 256) :
    (∀ (this : Eth1DepositDataTracker) (block : Eth1DataAndDeposits),
      this.depositsCache.KeyedByIndex → this.getEth1DataAndDeposits state = .ok block →
        CarriesRequiredDeposits this.depositsCache state block) ↔
      state.eth1DepositIndex ≤ state.eth1Data.depositCount := by
  constructor
  · intro h
    by_contra hindex
    obtain ⟨blockHash, hfresh⟩ := exists_blockHash_notMem hvotes
    set candidate : Eth1Data :=
      { depositRoot := 0, depositCount := state.eth1DepositIndex, blockHash } with hcandidate
    have hvote : (candidateTracker candidate).getEth1Data state = candidate := by
      apply getEth1Data_candidateTracker hfresh
      show state.eth1Data.depositCount ≤ state.eth1DepositIndex
      omega
    have hblock : (candidateTracker candidate).getEth1DataAndDeposits state
        = .ok ⟨candidate, []⟩ := by
      unfold Eth1DepositDataTracker.getEth1DataAndDeposits Eth1DepositDataTracker.getDeposits
      dsimp only
      rw [hvote, if_pos rfl]
      rfl
    have hlength := (h (candidateTracker candidate) _ (by
      intro key event hevent
      simp [candidateTracker] at hevent) hblock).length
    have hnew : becomesNewEth1Data state candidate = false := by
      apply becomesNewEth1Data_of_notMem
      intro hmem
      exact hfresh candidate hmem rfl
    have hafter : (processEth1Data state candidate).eth1Data = state.eth1Data := by
      unfold processEth1Data
      rw [hnew]
      rfl
    unfold maxDeposits at hlength
    dsimp only at hlength
    rw [hafter] at hlength
    have hsame : (processEth1Data state candidate).eth1DepositIndex = state.eth1DepositIndex := rfl
    rw [hsame] at hlength
    simp only [List.length_nil, Nat.cast_zero] at hlength
    omega
  · intro hindex this block hkeyed hblock
    exact carriesRequiredDeposits_of_le hkeyed hindex hblock

attribute [local instance] minimal

local instance proofTree : DepositTree where
  listRoot tree := BitVec.ofNat 256 (tree.foldl (fun root leaf => root * 31 + leaf.toNat) tree.length)
  singleProof tree _ := tree

/-- A state that counts three deposits, without votes. -/
def stateOfIndex (eth1DepositIndex : Nat) : Eth1State where
  genesisTime := 1606824023
  slot := 0
  eth1Data := { depositRoot := listRoot [5, 6, 7], depositCount := 3, blockHash := 1 }
  eth1DataVotes := []
  eth1DepositIndex

/-- The deposit event of an index. -/
def eventOf (index : Nat) : DepositEvent where
  depositData := ⟨BitVec.ofNat 384 index, 0, 32000000000, 0⟩
  blockNumber := 1
  index

/-- Caches with three deposits, of which the eth1 data cannot be read. -/
def threeDeposits : Eth1DepositDataTracker where
  config := chainConfigMinimal
  eth1DataCache _ := .error "eth1Data"
  depositsCache :=
    { depositEvent := .ofList [(0, eventOf 0), (1, eventOf 1), (2, eventOf 2)]
      depositRootTree := [5, 6, 7] }

/-- Two of the deposits are left to process. -/
theorem carriesRequiredDeposits_threeDeposits :
    CarriesRequiredDeposits threeDeposits.depositsCache (stateOfIndex 1)
      ⟨(stateOfIndex 1).eth1Data, [⟨[5, 6, 7], (eventOf 1).depositData⟩,
        ⟨[5, 6, 7], (eventOf 2).depositData⟩]⟩ := by
  have hindex : (stateOfIndex 1).eth1DepositIndex ≤ (stateOfIndex 1).eth1Data.depositCount := by
    decide
  apply (carriesRequiredDeposits_iff (by decide)).mpr hindex
  · have hall : threeDeposits.depositsCache.depositEvent.toList.all
        (fun entry => entry.2.index = entry.1) = true := by decide +kernel
    intro key event hevent
    simpa using List.all_eq_true.mp hall _ (KeyValues.mem_toList.mpr hevent)
  · decide +kernel

/-- A state that has processed four deposits, after a vote for data that count three. -/
theorem not_carriesRequiredDeposits :
    ¬ ∀ (state : Eth1State) (this : Eth1DepositDataTracker) (block : Eth1DataAndDeposits),
      this.depositsCache.KeyedByIndex → this.getEth1DataAndDeposits state = .ok block →
        CarriesRequiredDeposits this.depositsCache state block := by
  intro h
  have hblock : (candidateTracker ⟨0, 4, 2⟩).getEth1DataAndDeposits (stateOfIndex 4)
      = .ok ⟨⟨0, 4, 2⟩, []⟩ := by
    decide +kernel
  have hlength := (h _ _ _ (by
    intro key event hevent
    simp [candidateTracker] at hevent) hblock).length
  revert hlength
  decide +kernel

end Lodestar.Eth1
