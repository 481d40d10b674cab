import Lodestar.Base.Except
import Lodestar.Chain.StateCaches
import Lodestar.ForkChoice.Chains

/-!
# Regenerating states

`StateRegenerator` of `chain/regen/regen.ts`. A call reads the two caches and
the fork choice, and adds the checkpoint states that it passes to one of the
caches.
-/

namespace Lodestar.Chain

open Lodestar.Base Lodestar.ForkChoice Lodestar.StateTransition

inductive RegenError where
  | BLOCK_NOT_IN_FORKCHOICE (blockRoot : RootHex)
  | STATE_NOT_IN_FORKCHOICE (stateRoot : RootHex)
  | SLOT_BEFORE_BLOCK_SLOT (slot blockSlot : Nat)
  | NO_SEED_STATE
  | TOO_MANY_BLOCK_PROCESSED (stateRoot : RootHex)
  | STATE_TRANSITION_ERROR (error : String)
  /-- `No block found for ${blockRoot}`. -/
  | noBlockFound (blockRoot : RootHex)
  /-- `Checkpoint state slot must be first in an epoch`. -/
  | notFirstSlot
  /-- What `processSlots` throws. -/
  | processSlots (error : String)
  | protoArray (error : ProtoArrayError)
  deriving DecidableEq

variable {State : Type} [fns : StateTransitionFns State]

/-- The modules that a call only reads. -/
structure StateRegenerator (State : Type) [fns : StateTransitionFns State] where
  forkChoice : ForkChoice
  /-- `stateCache.get`. -/
  stateCache : RootHex → Option State
  /-- `db.block.get`. -/
  block : RootHex → Option fns.Block

/-- A call that may throw and may add checkpoint states. -/
abbrev RegenM (State : Type) := EStateM RegenError (CheckpointStateCache State)

variable [Preset]

/-! ## Empty slots -/

def getCheckpointFromState (checkpointState : State) : Except RegenError CheckpointWithHex :=
  let slot := fns.slot checkpointState
  if slot % SLOTS_PER_EPOCH ≠ 0 then .error .notFirstSlot
  else .ok
    { epoch := computeEpochAtSlot slot
      rootHex := fns.latestBlockRoot checkpointState }

/-- One turn of the loop: the state at the next epoch is cached. -/
def processSlotsToCheckpoint (postState : State) (nextEpochSlot : Nat) : RegenM State State := do
  let postState ← MonadExcept.ofExcept ((processSlots postState nextEpochSlot).mapError .processSlots)
  let cp ← MonadExcept.ofExcept (getCheckpointFromState postState)
  modify (·.add cp postState)
  return postState

/-- The loop on `nextEpochSlot`, which takes fewer turns than there are slots. -/
def toNearestCheckpoint (postSlot : Nat) : (fuel nextEpochSlot : Nat) → State → RegenM State State
  | 0, _, postState => return postState
  | fuel + 1, nextEpochSlot, postState => do
    if nextEpochSlot ≤ postSlot then
      let postState ← processSlotsToCheckpoint postState nextEpochSlot
      toNearestCheckpoint postSlot fuel (nextEpochSlot + SLOTS_PER_EPOCH) postState
    else return postState

def processSlotsToNearestCheckpoint (preState : State) (slot : Nat) : RegenM State State :=
  let preEpoch := computeEpochAtSlot (fns.slot preState)
  toNearestCheckpoint slot (slot + 1) (computeStartSlotAtEpoch (preEpoch + 1)) preState

def processSlotsByCheckpoint (preState : State) (slot : Nat) : RegenM State State := do
  let postState ← processSlotsToNearestCheckpoint preState slot
  if fns.slot postState < slot then
    MonadExcept.ofExcept ((processSlots postState slot).mapError .processSlots)
  else return postState

/-! ## Replaying blocks -/

/-- `checkpointStateCache.getLatest` up to the epoch before the block to replay after it. -/
def seedState (stateCache : RootHex → Option State) (checkpointStateCache : CheckpointStateCache State)
    (b : IProtoBlock) (next : IProtoBlock) : Option State :=
  (stateCache b.stateRoot).or
    (checkpointStateCache.getLatest b.blockRoot (((next.slot : Int) - 1) / SLOTS_PER_EPOCH))

/-- The walk over the ancestors: the first state that is cached, and the blocks to replay on it,
the lowest first. -/
def findSeedState (stateCache : RootHex → Option State)
    (checkpointStateCache : CheckpointStateCache State) :
    List IProtoNode → IProtoBlock → List IProtoBlock → Option (State × List IProtoBlock)
  | [], _, _ => none
  | b :: ancestors, next, blocksToReplay =>
    match seedState stateCache checkpointStateCache b.toIProtoBlock next with
    | some state => some (state, next :: blocksToReplay)
    | none => findSeedState stateCache checkpointStateCache ancestors b.toIProtoBlock
        (next :: blocksToReplay)

namespace StateRegenerator

variable (this : StateRegenerator State)

/-- The first block that the fork choice iterates over. -/
def findFirstStateBlock (stateRoot : RootHex) : Except RegenError IProtoBlock :=
  match this.forkChoice.forwarditerateAncestorBlocks with
  | [] => .error (.STATE_NOT_IN_FORKCHOICE stateRoot)
  | block :: _ => .ok block.toIProtoBlock

def replayBlock (state : State) (b : IProtoBlock) : Except RegenError State :=
  match this.block b.blockRoot with
  | none => .error (.noBlockFound b.blockRoot)
  | some block => (stateTransition state block).mapError .STATE_TRANSITION_ERROR

def MAX_EPOCH_TO_PROCESS : Nat := 5

def getState (stateRoot : RootHex) : RegenM State State := do
  match this.stateCache stateRoot with
  | some cachedStateCtx => return cachedStateCtx
  | none =>
    let block ← MonadExcept.ofExcept (this.findFirstStateBlock stateRoot)
    let ancestors ← MonadExcept.ofExcept
      ((this.forkChoice.iterateAncestorBlocks block.parentRoot).mapError .protoArray)
    match findSeedState this.stateCache (← get) ancestors block [] with
    | none => throw .NO_SEED_STATE
    | some (state, blocksToReplay) =>
      if blocksToReplay.length > MAX_EPOCH_TO_PROCESS * SLOTS_PER_EPOCH then
        throw (.TOO_MANY_BLOCK_PROCESSED stateRoot)
      MonadExcept.ofExcept (blocksToReplay.foldlM this.replayBlock state)

/-! ## The states that are asked for -/

/-- `forkChoice.getBlockHex`. -/
def getBlock (blockRoot : RootHex) : Except RegenError IProtoBlock := do
  match ← (this.forkChoice.getBlockHex blockRoot).mapError .protoArray with
  | none => throw (.BLOCK_NOT_IN_FORKCHOICE blockRoot)
  | some block => return block

/-- The state after the block dialed forward to the slot. -/
def getBlockSlotState (blockRoot : RootHex) (slot : Nat) : RegenM State State := do
  let block ← MonadExcept.ofExcept (this.getBlock blockRoot)
  if slot < block.slot then throw (.SLOT_BEFORE_BLOCK_SLOT slot block.slot)
  match (← get).getLatest blockRoot (computeEpochAtSlot slot : Nat) with
  | some latestCheckpointStateCtx => processSlotsByCheckpoint latestCheckpointStateCtx slot
  | none =>
    let blockStateCtx ← this.getState block.stateRoot
    processSlotsByCheckpoint blockStateCtx slot

def getCheckpointState (cp : CheckpointWithHex) : RegenM State State :=
  this.getBlockSlotState cp.rootHex (computeStartSlotAtEpoch cp.epoch)

/-- The state to run with a block, of which the parent and the slot are read. -/
def getPreState (parentRoot : RootHex) (slot : Nat) : RegenM State State := do
  let parentBlock ← MonadExcept.ofExcept (this.getBlock parentRoot)
  let parentEpoch := computeEpochAtSlot parentBlock.slot
  let blockEpoch := computeEpochAtSlot slot
  if parentEpoch < blockEpoch then
    this.getCheckpointState { epoch := blockEpoch, rootHex := parentRoot }
  else this.getState parentBlock.stateRoot

end StateRegenerator

end Lodestar.Chain
