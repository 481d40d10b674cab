import Lodestar.Base.Sha256
import Lodestar.Base.SwapOrNot
import Lodestar.StateTransition.State

/-!
# Seeds, shuffled indices and proposers

`util/seed.ts`, over the hash function. `computeShuffledIndex` walks through
the rounds of a swap-or-not shuffle (`computeShuffledIndex_eq`).
-/

namespace Lodestar.StateTransition

open Lodestar.Base

def intToBytes (value length : Nat) : Bytes := (toBytesBE length value).reverse

def bytesToBigInt (value : Bytes) : Nat := ofBytesBE value.reverse

def rootBytes (root : Root) : Bytes := toBytesBE 32 root.toNat

variable [Preset] (hash : Bytes → Bytes32)

def getRandaoMix {β : Type} (state : CachedBeaconStateAllForks β) (epoch : Nat) : Root :=
  state.randaoMixes.get ⟨epoch % EPOCHS_PER_HISTORICAL_VECTOR,
    Nat.mod_lt _ Preset.EPOCHS_PER_HISTORICAL_VECTOR_pos⟩

def getSeed {β : Type} (state : CachedBeaconStateAllForks β) (epoch : Nat) (domainType : BitVec 32) :
    Bytes32 :=
  let mix := getRandaoMix state (epoch + EPOCHS_PER_HISTORICAL_VECTOR - MIN_SEED_LOOKAHEAD - 1)
  hash (toBytesBE 4 domainType.toNat ++ intToBytes epoch 8 ++ rootBytes mix)

/-! ## Shuffled indices -/

/-- A turn of the loop of `computeShuffledIndex`. -/
def computeShuffledIndexRound (indexCount : Nat) (seed : Bytes32) (permuted i : Nat) : Nat :=
  let pivot := bytesToBigInt ((hash (seed.toList ++ intToBytes i 1)).toList.take 8) % indexCount
  let flip := (pivot + indexCount - permuted) % indexCount
  let position := max permuted flip
  let source := hash (seed.toList ++ intToBytes i 1 ++ intToBytes (position / 256) 4)
  let byte := source.toList.getD (position % 256 / 8) 0
  let bit := byte.toNat >>> (position % 8) % 2
  if bit ≠ 0 then flip else permuted

def computeShuffledIndex (index indexCount : Nat) (seed : Bytes32) : Except String Nat := do
  if ¬ index < indexCount then
    throw s!"indexCount must be less than index: {index} < {indexCount}"
  if ¬ indexCount ≤ 2 ^ 40 then
    throw s!"indexCount too big: {indexCount} <= {2 ^ 40}"
  return (List.range SHUFFLE_ROUND_COUNT).foldl (computeShuffledIndexRound hash indexCount seed) index

/-- The bit of a round for a position. -/
def shuffleBit (seed : Bytes32) (i position : Nat) : Bool :=
  let source := hash (seed.toList ++ intToBytes i 1 ++ intToBytes (position / 256) 4)
  (source.toList.getD (position % 256 / 8) 0).toNat >>> (position % 8) % 2 ≠ 0

def shufflePivot (seed : Bytes32) (indexCount i : Nat) : Nat :=
  bytesToBigInt ((hash (seed.toList ++ intToBytes i 1)).toList.take 8) % indexCount

def shuffleRound (seed : Bytes32) (indexCount i : Nat) : Round :=
  ⟨shufflePivot hash seed indexCount i, shuffleBit hash seed i⟩

def shuffleRounds (seed : Bytes32) (indexCount : Nat) : List Round :=
  (List.range SHUFFLE_ROUND_COUNT).map (shuffleRound hash seed indexCount)

/-- `compute_shuffled_index` of the specification. -/
def shuffledIndex (seed : Bytes32) (indexCount index : Nat) : Nat :=
  walk indexCount (shuffleRounds hash seed indexCount) index

variable {hash} {seed : Bytes32} {index indexCount : Nat}

theorem pivot_lt_of_mem_shuffleRounds {round : Round} (hpos : 0 < indexCount)
    (hmem : round ∈ shuffleRounds hash seed indexCount) : round.pivot < indexCount := by
  obtain ⟨i, -, rfl⟩ := List.mem_map.1 hmem
  exact Nat.mod_lt _ hpos

theorem shuffledIndex_lt (h : index < indexCount) :
    shuffledIndex hash seed indexCount index < indexCount :=
  walk_lt (fun _ => pivot_lt_of_mem_shuffleRounds (by omega)) h

omit [Preset] in
theorem computeShuffledIndexRound_eq (permuted i : Nat) :
    computeShuffledIndexRound hash indexCount seed permuted i =
      (shuffleRound hash seed indexCount i).apply indexCount permuted := by
  unfold computeShuffledIndexRound Round.apply shuffleRound shuffleBit
  simp only [ne_eq, decide_not, Bool.not_eq_eq_eq_not, Bool.not_true, decide_eq_false_iff_not]
  rfl

theorem computeShuffledIndex_eq (h : index < indexCount) (hcount : indexCount ≤ 2 ^ 40) :
    computeShuffledIndex hash index indexCount seed = .ok (shuffledIndex hash seed indexCount index) := by
  have hrounds : shuffledIndex hash seed indexCount index = (List.range SHUFFLE_ROUND_COUNT).foldl
      (computeShuffledIndexRound hash indexCount seed) index := by
    unfold shuffledIndex walk shuffleRounds
    rw [List.foldl_map]
    congr 1
    funext permuted i
    exact (computeShuffledIndexRound_eq permuted i).symm
  unfold computeShuffledIndex
  rw [if_neg (not_not.2 h), if_neg (not_not.2 hcount), hrounds]
  rfl

theorem computeShuffledIndex_error (h : ¬ (index < indexCount ∧ indexCount ≤ 2 ^ 40)) :
    ∃ message, computeShuffledIndex hash index indexCount seed = .error message := by
  unfold computeShuffledIndex
  by_cases hlt : index < indexCount
  · rw [if_neg (not_not.2 hlt), if_pos fun hcount => h ⟨hlt, hcount⟩]
    exact ⟨_, rfl⟩
  · rw [if_pos hlt]
    exact ⟨_, rfl⟩

end Lodestar.StateTransition
