import Lodestar.Base.Bytes
import Lodestar.ForkChoice.Chains
import Lodestar.ForkChoice.Runs
import Lodestar.LightClient.Server
import Std.Data.TreeMap.Lemmas

/-!
# Archiving finalized blocks

`chain/archiver/archiveBlocks.ts`: the blocks of the finalized chain move from
the hot to the cold database, those beside it are deleted, and the light client
server is told which blocks can never be a checkpoint.
-/

namespace Lodestar.Chain

open Lodestar.Base Lodestar.ForkChoice Lodestar.StateTransition

/-! ## Databases -/

/-- `BlockArchiveRepository`, with its two indices. -/
structure BlockArchive where
  blocks : Std.TreeMap Nat Bytes
  rootIndex : Repository Root Nat
  parentRootIndex : Repository Bytes Nat

/-- `BlockArchiveBatchPutBinaryItem`; the key is the slot. -/
structure BlockArchiveItem where
  slot : Nat
  value : Bytes
  blockRoot : Root
  parentRoot : Bytes

def BlockArchive.batchPutBinary (this : BlockArchive) (items : List BlockArchiveItem) :
    BlockArchive :=
  items.foldl (fun this item => {
    blocks := this.blocks.insert item.slot item.value
    rootIndex := this.rootIndex.put item.blockRoot item.slot
    parentRootIndex := this.parentRootIndex.put item.parentRoot item.slot }) this

/-- The repositories of blocks of `IBeaconDb`. -/
structure BlockDb where
  block : Repository Root Bytes
  blockArchive : BlockArchive

structure BlockRootSlot where
  slot : Nat
  root : Root
  deriving DecidableEq

inductive ArchiveError where
  /-- `No block found for slot ${slot} root ${root}`. -/
  | blockNotFound (block : BlockRootSlot)
  | protoArray (error : ProtoArrayError)
  deriving DecidableEq

/-! ## Moving the blocks -/

def BATCH_SIZE : Nat := 256

/-- The bytes of `message.parentRoot` in a serialized block. -/
def getParentRootFromSignedBlock (bytes : Bytes) : Bytes :=
  (bytes.drop 116).take (148 - 116)

def archiveItem (db : BlockDb) (block : BlockRootSlot) : Except ArchiveError BlockArchiveItem :=
  match db.block block.root with
  | none => .error (.blockNotFound block)
  | some blockBuffer => .ok {
      slot := block.slot
      value := blockBuffer
      blockRoot := block.root
      parentRoot := getParentRootFromSignedBlock blockBuffer }

def migrateBatch (db : BlockDb) (canonicalBlocks : List BlockRootSlot) :
    Except ArchiveError BlockDb := do
  let canonicalBlockEntries ← canonicalBlocks.mapM (archiveItem db)
  return {
    block := db.block.batchDelete (canonicalBlocks.map (·.root))
    blockArchive := db.blockArchive.batchPutBinary canonicalBlockEntries }

def migrateBlocksFromHotToColdDb (db : BlockDb) (blocks : List BlockRootSlot) :
    Except ArchiveError BlockDb :=
  (blocks.toChunks BATCH_SIZE).foldlM migrateBatch db

/-! ## Blocks that are no checkpoints -/

section

variable [Preset]

/-- The loop of `getNonCheckpointBlocks` over the blocks in reverse. `epochPtr` is the epoch of the
block before, `epochPtrHasFirstSlot` says whether a block at its first slot was met. -/
def nonCheckpointBlocksFrom (epochPtr : WithTop Nat) (epochPtrHasFirstSlot : Bool) :
    List BlockRootSlot → List BlockRootSlot
  | [] => []
  | block :: blocks =>
    let blockEpoch := computeEpochAtSlot block.slot
    let isEarlier := (blockEpoch : WithTop Nat) < epochPtr
    let isFirstSlot := block.slot % SLOTS_PER_EPOCH = 0
    -- the last block before an epoch with a skipped first slot is its checkpoint
    let isCheckpoint := (isEarlier ∧ ¬ epochPtrHasFirstSlot) ∨ isFirstSlot
    let rest := nonCheckpointBlocksFrom (if isEarlier then blockEpoch else epochPtr)
      (decide isFirstSlot || (!decide isEarlier && epochPtrHasFirstSlot)) blocks
    if isCheckpoint then rest else block :: rest

/-- Takes the blocks from ancestor to child. -/
def getNonCheckpointBlocks (blocks : List BlockRootSlot) : List BlockRootSlot :=
  nonCheckpointBlocksFrom ⊤ false blocks.reverse

def blockRootSlot (block : IProtoNode) : BlockRootSlot := ⟨block.slot, block.blockRoot⟩

/-- `nonCheckpointBlockRoots` of `archiveBlocks`. -/
def nonCheckpointBlockRoots (finalizedCanonicalBlocks finalizedNonCanonicalBlocks : List IProtoNode) :
    List Root :=
  finalizedNonCanonicalBlocks.map (·.blockRoot) ++
    (getNonCheckpointBlocks (finalizedCanonicalBlocks.map blockRootSlot)).map (·.root)

def archiveBlocks (db : BlockDb) (forkChoice : ForkChoice)
    (lightclientServer : LightClient.LightClientServer) (finalizedCheckpoint : CheckpointWithHex) :
    Except ArchiveError (BlockDb × LightClient.LightClientServer) := do
  let finalizedCanonicalBlocks ←
    (getAllAncestorBlocks forkChoice finalizedCheckpoint.rootHex).mapError .protoArray
  let finalizedNonCanonicalBlocks ←
    (getAllNonAncestorBlocks forkChoice finalizedCheckpoint.rootHex).mapError .protoArray
  let db ← migrateBlocksFromHotToColdDb db (finalizedCanonicalBlocks.map blockRootSlot)
  let nonCanonicalBlockRoots := finalizedNonCanonicalBlocks.map (·.blockRoot)
  let db := { db with block := db.block.batchDelete nonCanonicalBlockRoots }
  return (db, lightclientServer.pruneNonCheckpointData
    (nonCheckpointBlockRoots finalizedCanonicalBlocks finalizedNonCanonicalBlocks))

end

end Lodestar.Chain
