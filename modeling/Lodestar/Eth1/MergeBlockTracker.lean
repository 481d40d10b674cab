import Lodestar.Base.OrderedMap
import Lodestar.Params

/-!
# The search for the terminal PoW block

`eth1/eth1MergeBlockTracker.ts`. A running async method is a `Task` that waits
for an answer of the eth1 provider; `Task.turn` carries it on to its next await.
`World.next` lets the tasks take turns while the chain of the provider grows.
-/

namespace Lodestar.Eth1

open Lodestar.Base

def ZERO_HASH_HEX : RootHex := 0

inductive StatusCode where
  | PRE_MERGE
  | SEARCHING
  | FOUND
  | POST_MERGE
  deriving DecidableEq

/-- The most that the highest and the lowest block number in the cache are apart. -/
def MAX_CACHE_POW_HEIGHT_DISTANCE : Nat := 1024

/-- Number of blocks to request at once. -/
def MAX_BLOCKS_PER_PAST_REQUEST : Nat := 1000

structure PowMergeBlock where
  number : Nat
  blockhash : RootHex
  parentHash : RootHex
  totalDifficulty : Nat
  deriving DecidableEq

/-- The answers of the eth1 node at one moment, as `toPowBlock` reads them. -/
structure IEth1Provider where
  /-- `getBlockByNumber("latest")`. -/
  latestBlock : Option PowMergeBlock
  getBlockByHash : RootHex → Option PowMergeBlock
  getBlocksByNumber : (fromBlock toBlock : Nat) → List PowMergeBlock

structure Eth1MergeBlockTracker where
  mergeBlock : Option PowMergeBlock
  blocksByHashCache : OrderedMap RootHex PowMergeBlock
  status : StatusCode
  /-- Whether the intervals of `startFinding` are set. -/
  intervals : Bool

/-! ## The tracker -/

namespace Eth1MergeBlockTracker

/-- The constructor, before it starts or schedules `startFinding`. -/
def new (isMergeTransitionComplete : Bool) : Eth1MergeBlockTracker where
  mergeBlock := none
  blocksByHashCache := .empty
  status := if isMergeTransitionComplete then .POST_MERGE else .PRE_MERGE
  intervals := false

def getTerminalPowBlock (this : Eth1MergeBlockTracker) : Except String (Option PowMergeBlock) :=
  if this.mergeBlock = none ∧ this.status = .POST_MERGE then
    .error "Eth1MergeBlockFinder is on POST_MERGE status and found no mergeBlock"
  else .ok this.mergeBlock

def close (this : Eth1MergeBlockTracker) : Eth1MergeBlockTracker :=
  { this with intervals := false }

def mergeCompleted (this : Eth1MergeBlockTracker) : Eth1MergeBlockTracker :=
  { this with status := .POST_MERGE }.close

def setTerminalPowBlock (this : Eth1MergeBlockTracker) (mergeBlock : PowMergeBlock) :
    Eth1MergeBlockTracker :=
  { this with mergeBlock := some mergeBlock, status := .FOUND }.close

def cacheBlock (this : Eth1MergeBlockTracker) (block : PowMergeBlock) : Eth1MergeBlockTracker :=
  { this with blocksByHashCache := this.blocksByHashCache.set block.blockhash block }

/-- `getPowBlock` up to its await; `none` if it has to ask the node. -/
def cachedPowBlock (this : Eth1MergeBlockTracker) (powBlockHash : RootHex) :
    Option PowMergeBlock :=
  this.blocksByHashCache.get powBlockHash

/-- `getPowBlock` from the node's answer on. -/
def receivePowBlock (this : Eth1MergeBlockTracker) :
    (blockRaw : Option PowMergeBlock) → Eth1MergeBlockTracker
  | some block => this.cacheBlock block
  | none => this

/-- Drops the blocks that are too far below the highest one. -/
def prune (this : Eth1MergeBlockTracker) : Eth1MergeBlockTracker :=
  let maxBlockNumber := this.blocksByHashCache.values.foldl
    (fun maxBlockNumber block =>
      if block.number > maxBlockNumber then block.number else maxBlockNumber) 0
  let minHeight : Int := maxBlockNumber - MAX_CACHE_POW_HEIGHT_DISTANCE
  let pruned := this.blocksByHashCache.entries.filter fun entry => entry.2.number < minHeight
  { this with blocksByHashCache := (pruned.map Prod.fst).foldl (·.delete ·) this.blocksByHashCache }

end Eth1MergeBlockTracker

/-! ## The backwards search by parent hashes -/

/-- The loop of `fetchPotentialMergeBlock`. -/
inductive Walk where
  /-- The loop comes to the block. -/
  | visit (block : PowMergeBlock)
  /-- It awaits the parent of the block. -/
  | fetchParent (block : PowMergeBlock)
  | returned
  | threw (message : String)
  deriving DecidableEq

section

variable (config : ChainConfig) (provider : IEth1Provider)

/-- The loop once it has the parent of the block. -/
def visitParent (block parent : PowMergeBlock) (this : Eth1MergeBlockTracker) :
    Walk × Eth1MergeBlockTracker :=
  if block.totalDifficulty ≥ config.TERMINAL_TOTAL_DIFFICULTY ∧
      parent.totalDifficulty < config.TERMINAL_TOTAL_DIFFICULTY then
    (.returned, this.setTerminalPowBlock block)
  else if parent.blockhash = block.blockhash then
    (.threw "Infinite loop: parent.blockhash === block.blockhash", this)
  else (.visit parent, this)

def walkTurn (this : Eth1MergeBlockTracker) : Walk → Walk × Eth1MergeBlockTracker
  | .visit block =>
    if block.totalDifficulty < config.TERMINAL_TOTAL_DIFFICULTY then (.returned, this)
    else if block.parentHash = ZERO_HASH_HEX then
      -- the genesis block may reach the terminal difficulty
      (.returned, this.setTerminalPowBlock block)
    else
      match this.cachedPowBlock block.parentHash with
      | some parent => visitParent config block parent this
      | none => (.fetchParent block, this)
  | .fetchParent block =>
    match provider.getBlockByHash block.parentHash with
    | some parent => visitParent config block parent (this.receivePowBlock (some parent))
    -- unknown parent
    | none => (.returned, this)
  | walk => (walk, this)

/-- The start of `fetchPotentialMergeBlock`, which keeps the block for future searches. -/
def fetchPotentialMergeBlock (block : PowMergeBlock) (this : Eth1MergeBlockTracker) :
    Walk × Eth1MergeBlockTracker :=
  (.visit block, this.cacheBlock block)

/-! ## The scan of past blocks -/

/-- The loop over the neighbours of a range: the first parent and child that are on the two sides
of the terminal difficulty. -/
def findTerminalPair : (blocks : List PowMergeBlock) → Option (PowMergeBlock × PowMergeBlock)
  | parentBlock :: childBlock :: blocks =>
    if childBlock.totalDifficulty ≥ config.TERMINAL_TOTAL_DIFFICULTY ∧
        parentBlock.totalDifficulty < config.TERMINAL_TOTAL_DIFFICULTY then
      some (parentBlock, childBlock)
    else findTerminalPair (childBlock :: blocks)
  | _ => none

/-- A running method of the tracker. -/
inductive Task where
  /-- `startFinding` awaits the block of the configured terminal hash. -/
  | terminalBlockHash
  /-- `getPowBlock` awaits the block. -/
  | getPowBlock (powBlockHash : RootHex)
  /-- `pollLatestBlock` awaits the latest block. -/
  | pollLatestBlock
  /-- `pollLatestBlock` is in `fetchPotentialMergeBlock`. -/
  | pollWalk (walk : Walk)
  /-- `fetchPreviousBlocks` awaits the latest block. -/
  | fetchPreviousBlocks
  /-- `fetchPreviousBlocks` awaits the range of blocks that ends at the number. -/
  | fetchRange (minFetchedBlockNumber : Nat)
  /-- `fetchPreviousBlocks` is in `fetchPotentialMergeBlock`. -/
  | rangeWalk (minFetchedBlockNumber : Nat) (walk : Walk)
  | returned
  | threw (message : String)
  deriving DecidableEq

/-- A round of `fetchPreviousBlocks` from the answer of the node on. -/
def rangeTurn (minFetchedBlockNumber : Nat) (this : Eth1MergeBlockTracker) :
    Task × Eth1MergeBlockTracker :=
  let fromBlock := max 0 (minFetchedBlockNumber - MAX_BLOCKS_PER_PAST_REQUEST)
  let toBlock := minFetchedBlockNumber
  let blocks := provider.getBlocksByNumber fromBlock toBlock
  if blocks.length < 2 then
    -- throws; the error is logged, and the round is made again after a sleep
    (.fetchRange minFetchedBlockNumber, this)
  else
    match findTerminalPair config blocks with
    | some (parentBlock, childBlock) =>
      if childBlock.parentHash = parentBlock.blockhash then
        (.returned, this.setTerminalPowBlock childBlock)
      else
        -- a re-org during the request
        let (walk, this) := fetchPotentialMergeBlock childBlock this
        (.rangeWalk minFetchedBlockNumber walk, this)
    | none =>
      let minFetchedBlockNumber := (blocks.map (·.number)).foldl min toBlock
      if minFetchedBlockNumber ≤ 0 then (.returned, this)
      else (.fetchRange minFetchedBlockNumber, this)

/-- From an answer of the node to the next await. -/
def Task.turn (this : Eth1MergeBlockTracker) : Task → Task × Eth1MergeBlockTracker
  | .terminalBlockHash =>
    match provider.getBlockByHash config.TERMINAL_BLOCK_HASH with
    | some powBlockOverride =>
      (.returned, (this.receivePowBlock (some powBlockOverride)).setTerminalPowBlock powBlockOverride)
    | none => (.returned, this)
  | .getPowBlock powBlockHash =>
    (.returned, this.receivePowBlock (provider.getBlockByHash powBlockHash))
  | .pollLatestBlock =>
    match provider.latestBlock with
    | some latestBlock =>
      let (walk, this) := fetchPotentialMergeBlock latestBlock this
      (.pollWalk walk, this)
    | none => (.threw "getBlockByNumber('latest') returned null", this)
  | .pollWalk walk =>
    match walkTurn config provider this walk with
    | (.returned, this) => (.returned, this)
    | (.threw message, this) => (.threw message, this)
    | (walk, this) => (.pollWalk walk, this)
  | .fetchPreviousBlocks =>
    match provider.latestBlock with
    | some latestBlock =>
      -- the polls will come to the terminal block
      if latestBlock.totalDifficulty < config.TERMINAL_TOTAL_DIFFICULTY then (.returned, this)
      else (.fetchRange latestBlock.number, this)
    | none => (.threw "getBlockByNumber('latest') returned null", this)
  | .fetchRange minFetchedBlockNumber => rangeTurn config provider minFetchedBlockNumber this
  | .rangeWalk minFetchedBlockNumber walk =>
    match walkTurn config provider this walk with
    | (.returned, this) => (.returned, this)
    -- the error is logged, and the round is made again
    | (.threw _, this) => (.fetchRange minFetchedBlockNumber, this)
    | (walk, this) => (.rangeWalk minFetchedBlockNumber walk, this)
  | task => (task, this)

/-- `startFinding`, with the methods it leaves running. -/
def startFinding (this : Eth1MergeBlockTracker) : List Task × Eth1MergeBlockTracker :=
  if this.status ≠ .PRE_MERGE then ([], this)
  else if config.TERMINAL_BLOCK_HASH ≠ ZERO_HASH_HEX then
    match this.cachedPowBlock config.TERMINAL_BLOCK_HASH with
    | some powBlockOverride => ([], this.setTerminalPowBlock powBlockOverride)
    | none => ([.terminalBlockHash], this)
  else ([.fetchPreviousBlocks], { this with status := .SEARCHING, intervals := true })

end

/-! ## An honest provider -/

/-- A chain of PoW blocks from its genesis block on. -/
structure Eth1Chain where
  blocks : List PowMergeBlock
  ne_nil : blocks ≠ []
  number : ∀ (i : Nat) (block : PowMergeBlock), blocks[i]? = some block → block.number = i
  genesis : ∀ block : PowMergeBlock, blocks[0]? = some block → block.parentHash = ZERO_HASH_HEX
  parentHash : ∀ (i : Nat) (parent child : PowMergeBlock), blocks[i]? = some parent →
    blocks[i + 1]? = some child → child.parentHash = parent.blockhash
  totalDifficulty : ∀ (i : Nat) (parent child : PowMergeBlock), blocks[i]? = some parent →
    blocks[i + 1]? = some child → parent.totalDifficulty < child.totalDifficulty
  blockhash : ∀ block ∈ blocks, block.blockhash ≠ ZERO_HASH_HEX
  nodup : (blocks.map (·.blockhash)).Nodup
  deriving DecidableEq

namespace Eth1Chain

def genesisBlock (chain : Eth1Chain) : PowMergeBlock := chain.blocks.head chain.ne_nil

def latestBlock (chain : Eth1Chain) : PowMergeBlock := chain.blocks.getLast chain.ne_nil

/-- The answers of a node that serves the chain. -/
def provider (chain : Eth1Chain) : IEth1Provider where
  latestBlock := some chain.latestBlock
  getBlockByHash hash := chain.blocks.find? (·.blockhash = hash)
  getBlocksByNumber fromBlock toBlock := (chain.blocks.drop fromBlock).take (toBlock + 1 - fromBlock)

end Eth1Chain

/-! ## Runs -/

structure World where
  chain : Eth1Chain
  tracker : Eth1MergeBlockTracker
  /-- The methods called so far. -/
  tasks : List Task

inductive Step where
  /-- Blocks are added to the chain. -/
  | grow (chain : Eth1Chain)
  | startFinding
  /-- The interval of `pollLatestBlock` fires. -/
  | intervalPoll
  /-- The interval of `prune` fires. -/
  | intervalPrune
  /-- A caller asks for a block. -/
  | getPowBlock (powBlockHash : RootHex)
  | mergeCompleted
  /-- The node answers to a method. -/
  | turn (task : Nat)
  deriving DecidableEq

namespace World

def start (isMergeTransitionComplete : Bool) (chain : Eth1Chain) : World :=
  ⟨chain, .new isMergeTransitionComplete, []⟩

variable (config : ChainConfig)

def next (world : World) : Step → World
  | .grow chain => if world.chain.blocks <+: chain.blocks then { world with chain } else world
  | .startFinding =>
    let (tasks, tracker) := Eth1.startFinding config world.tracker
    { world with tracker, tasks := world.tasks ++ tasks }
  | .intervalPoll =>
    if world.tracker.intervals then { world with tasks := world.tasks ++ [.pollLatestBlock] }
    else world
  | .intervalPrune =>
    if world.tracker.intervals then { world with tracker := world.tracker.prune } else world
  | .getPowBlock powBlockHash =>
    match world.tracker.cachedPowBlock powBlockHash with
    | some _ => world
    | none => { world with tasks := world.tasks ++ [.getPowBlock powBlockHash] }
  | .mergeCompleted => { world with tracker := world.tracker.mergeCompleted }
  | .turn i =>
    match world.tasks[i]? with
    | some task =>
      let (task, tracker) := task.turn config world.chain.provider world.tracker
      { world with tracker, tasks := world.tasks.set i task }
    | none => world

def run (world : World) (steps : List Step) : World := steps.foldl (next config) world

end World

end Lodestar.Eth1
