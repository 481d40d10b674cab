import Lodestar.Base.KeyValues
import Lodestar.Base.OrderedMap
import Lodestar.Base.SearchLte
import Lodestar.StateTransition.Deposits

/-!
# The cache of deposit events

`eth1/eth1DepositsCache.ts` with `eth1/utils/eth1Data.ts`, `util/tree.ts` and
the two repositories it reads. The log of the deposit contract is kept by
deposit index, next to the tree of its deposit data.
-/

namespace Lodestar.Eth1

open Lodestar.Base Lodestar.StateTransition

/-! ## Records -/

structure DepositEvent where
  depositData : DepositData
  blockNumber : Nat
  index : Nat
  deriving DecidableEq

structure Eth1Block where
  blockHash : Root
  blockNumber : Nat
  timestamp : Nat
  deriving DecidableEq

/-- `phase0.Eth1Data & Eth1Block`. -/
structure Eth1DataOfBlock extends Eth1Block where
  depositCount : Nat
  depositRoot : Root
  deriving DecidableEq

inductive Eth1Error where
  | DEPOSIT_INDEX_TOO_HIGH (depositIndex depositCount : Nat)
  | NOT_ENOUGH_DEPOSITS (len expectedLen : Nat)
  | TOO_MANY_DEPOSITS (len expectedLen : Nat)
  | WRONG_DEPOSIT_ROOT (root expectedRoot : Root)
  | NO_DEPOSITS_FOR_BLOCK_RANGE (fromBlock toBlock : Nat)
  | NO_DEPOSIT_ROOT (depositCount : Nat)
  | NOT_ENOUGH_DEPOSIT_ROOTS (index treeLength : Int)
  /-- `Cannot get tree for index: ${index}, maxIndex: ${maxIndex}`. -/
  | noTreeForIndex (index maxIndex : Int)
  /-- An error of `binarySearchLte`. -/
  | binarySearch (error : BinarySearchError)
  deriving DecidableEq

/-- What the tree of deposit data, a `TreeBacked<List<Root>>`, is hashed with. -/
class DepositTree where
  /-- `hashTreeRoot` of the list. -/
  listRoot : List Root → Root
  /-- `getSingleProof` of the item at the index. -/
  singleProof : List Root → Nat → List Root

export DepositTree (listRoot singleProof)

/-- The tree up to the item at `index`; an index of `-1` is before the first. -/
def getTreeAtIndex (tree : List Root) (index : Int) : Except Eth1Error (List Root) :=
  let maxIndex : Int := tree.length - 1
  if index > maxIndex then .error (.noTreeForIndex index maxIndex)
  else .ok (tree.take (index + 1).toNat)

/-- The parts of `IBeaconDb` that the cache reads. -/
structure Eth1Db where
  depositEvent : KeyValues DepositEvent
  /-- `getDepositRootTree()` of `depositDataRoot`. -/
  depositRootTree : List Root

/-! ## Deposits in a range of blocks -/

/-- The first event of a block number that the stream brings is taken. -/
def takeDeposit (toBlock : Nat) (depositCountMap : OrderedMap Nat DepositEvent)
    (deposit : DepositEvent) : OrderedMap Nat DepositEvent :=
  if deposit.blockNumber ≤ toBlock && !depositCountMap.has deposit.blockNumber then
    depositCountMap.set deposit.blockNumber deposit
  else depositCountMap

/-- The loop of `getDepositsByBlockNumber`; the first event under the range is taken too. -/
def collectDeposits (fromBlock toBlock : Nat) :
    List DepositEvent → OrderedMap Nat DepositEvent → OrderedMap Nat DepositEvent
  | [], depositCountMap => depositCountMap
  | deposit :: stream, depositCountMap =>
    let depositCountMap := takeDeposit toBlock depositCountMap deposit
    if deposit.blockNumber < fromBlock then depositCountMap
    else collectDeposits fromBlock toBlock stream depositCountMap

/-- The latest deposit of each block number, ascending. -/
def getDepositsByBlockNumber (fromBlock toBlock : Nat) (depositEventDescendingStream :
    List DepositEvent) : List DepositEvent :=
  (collectDeposits fromBlock toBlock depositEventDescendingStream .empty).values.insertionSort
    fun a b => a.blockNumber ≤ b.blockNumber

variable [DepositTree]

/-- The loop of `getDepositRootByDepositCount` over descending counts. -/
def depositRoots : List Nat → List Root → OrderedMap Nat Root →
    Except Eth1Error (OrderedMap Nat Root)
  | [], _, depositRootByDepositCount => .ok depositRootByDepositCount
  | depositCount :: depositCounts, depositRootTree, depositRootByDepositCount => do
    let depositRootTree ← getTreeAtIndex depositRootTree (depositCount - 1)
    depositRoots depositCounts depositRootTree
      (depositRootByDepositCount.set depositCount (listRoot depositRootTree))

def getDepositRootByDepositCount (depositCounts : List Nat) (depositRootTree : List Root) :
    Except Eth1Error (OrderedMap Nat Root) :=
  -- unique, in descending order
  let depositCounts := depositCounts.eraseDups.insertionSort (· ≥ ·)
  let maxIndex : Int := (depositCounts.head?.getD 0 : Nat) - 1
  let treeLength : Int := depositRootTree.length - 1
  if depositCounts.length > 0 ∧ maxIndex > treeLength then
    .error (.NOT_ENOUGH_DEPOSIT_ROOTS maxIndex treeLength)
  else depositRoots depositCounts depositRootTree .empty

/-- The eth1 data of one block. -/
def getEth1DataForBlock (depositsByBlockNumber : List DepositEvent)
    (depositRootByDepositCount : OrderedMap Nat Root) (block : Eth1Block) :
    Except Eth1Error Eth1DataOfBlock := do
  let deposit ← (binarySearchLte depositsByBlockNumber block.blockNumber
    (·.blockNumber)).mapError .binarySearch
  let depositCount := deposit.index + 1
  match depositRootByDepositCount.get depositCount with
  | none => throw (.NO_DEPOSIT_ROOT depositCount)
  | some depositRoot =>
    return { block with
      depositCount
      depositRoot }

/-- `getEth1DataForBlocks` of `eth1Data.ts`. -/
def getEth1DataForBlocks (blocks : List Eth1Block) (depositDescendingStream : List DepositEvent)
    (depositRootTree : List Root) (lastProcessedDepositBlockNumber : Option Nat) :
    Except Eth1Error (List Eth1DataOfBlock) :=
  -- blocks for which there is no valid deposit data yet
  let blocks := blocks.filter fun block =>
    lastProcessedDepositBlockNumber.all (block.blockNumber ≤ ·)
  match blocks.head?, blocks.getLast? with
  | some first, some last => do
    let depositsByBlockNumber :=
      getDepositsByBlockNumber first.blockNumber last.blockNumber depositDescendingStream
    if depositsByBlockNumber.length = 0 then
      throw (.NO_DEPOSITS_FOR_BLOCK_RANGE first.blockNumber last.blockNumber)
    let depositCounts := depositsByBlockNumber.map (·.index + 1)
    let depositRootByDepositCount ← getDepositRootByDepositCount depositCounts depositRootTree
    blocks.mapM (getEth1DataForBlock depositsByBlockNumber depositRootByDepositCount)
  -- a valid block can be made with the eth1 data of its state
  | _, _ => return []

namespace Eth1Db

/-- `Eth1DepositsCache.getEth1DataForBlocks`. The range of the stream is one of deposit indices. -/
def getEth1DataForBlocks (db : Eth1Db) (blocks : List Eth1Block)
    (lastProcessedDepositBlockNumber : Option Nat) : Except Eth1Error (List Eth1DataOfBlock) :=
  let highestBlock := blocks.getLast?.map (·.blockNumber)
  Eth1.getEth1DataForBlocks blocks
    (db.depositEvent.values { lte := highestBlock, reverse := true }) db.depositRootTree
    lastProcessedDepositBlockNumber

end Eth1Db

end Lodestar.Eth1
