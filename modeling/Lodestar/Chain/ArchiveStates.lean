import Lodestar.Base.Except
import Lodestar.Base.KeyValues
import Lodestar.ForkChoice.Store
import Lodestar.StateTransition.Util

/-!
# Archiving finalized states

`chain/archiver/archiveStates.ts`: a finalized state is put when the last one is
long past, and of the states put before only the first of each interval is
meant to stay. The keys of the archive are slots.
-/

namespace Lodestar.Chain

open Lodestar.Base Lodestar.ForkChoice Lodestar.StateTransition

/-- What the archive reads of a state. -/
structure FinalizedState where
  slot : Nat
  stateRoot : Root
  deriving DecidableEq

abbrev StateArchive := KeyValues FinalizedState

/-- `checkpointStateCache.get`. -/
abbrev CheckpointStates := CheckpointWithHex → Option FinalizedState

inductive ArchiveStateError where
  /-- `No state in cache for finalized checkpoint state epoch #${epoch}`. -/
  | noState (epoch : Nat)
  deriving DecidableEq

/-! ## The archiver -/

def PERSIST_STATE_EVERY_EPOCHS : Nat := 1024

def PERSIST_TEMP_STATE_EVERY_EPOCHS : Nat := 32

/-- The loop of `computeEpochsToDelete`, with the buckets met so far. -/
def epochsToDelete (persistEveryEpochs : Nat) : List Nat → List Nat → List Nat
  | [], _ => []
  | epoch :: storedEpochs, epochBuckets =>
    let epochBucket := epoch - epoch % persistEveryEpochs
    if epochBucket ∈ epochBuckets then
      epoch :: epochsToDelete persistEveryEpochs storedEpochs epochBuckets
    else epochsToDelete persistEveryEpochs storedEpochs (epochBucket :: epochBuckets)

/-- Keeps the first epoch of each bucket, deletes the rest. -/
def computeEpochsToDelete (storedEpochs : List Nat) (persistEveryEpochs : Nat) : List Nat :=
  epochsToDelete persistEveryEpochs storedEpochs []

def archiveState (checkpointStateCache : CheckpointStates) (stateArchive : StateArchive)
    (finalized : CheckpointWithHex) : Except ArchiveStateError StateArchive :=
  match checkpointStateCache finalized with
  | none => .error (.noState finalized.epoch)
  | some finalizedState => .ok (stateArchive.insert finalizedState.slot finalizedState)

/-- The range of `keys` takes epochs where the keys are slots. -/
def deleteStates (stateArchive : StateArchive) (finalized : CheckpointWithHex) : StateArchive :=
  let storedEpochs := stateArchive.keys
    { lt := some finalized.epoch
      -- only the current and previous intervals
      gte := some
        ((finalized.epoch / PERSIST_STATE_EVERY_EPOCHS - 1) * PERSIST_STATE_EVERY_EPOCHS) }
  let statesToDelete := computeEpochsToDelete storedEpochs PERSIST_STATE_EVERY_EPOCHS
  if statesToDelete.length > 0 then stateArchive.batchDelete statesToDelete else stateArchive

section

variable [Preset]

/-- If the state is put, for the last slot in the archive. -/
def isDue (lastStoredSlot : Option Nat) (finalized : CheckpointWithHex) : Bool :=
  finalized.epoch - computeEpochAtSlot (lastStoredSlot.getD 0) > PERSIST_TEMP_STATE_EVERY_EPOCHS

def maybeArchiveState (checkpointStateCache : CheckpointStates) (stateArchive : StateArchive)
    (finalized : CheckpointWithHex) : Except ArchiveStateError StateArchive :=
  if isDue stateArchive.lastKey finalized then do
    let stateArchive ← archiveState checkpointStateCache stateArchive finalized
    return deleteStates stateArchive finalized
  else .ok stateArchive

/-- One finalized checkpoint after the other. -/
def archiveStates (checkpointStateCache : CheckpointStates) (stateArchive : StateArchive)
    (checkpoints : List CheckpointWithHex) : Except ArchiveStateError StateArchive :=
  checkpoints.foldlM (maybeArchiveState checkpointStateCache) stateArchive

end

/-- The archive at the start holds the anchor state, or nothing. -/
def anchorArchive (anchor : Option FinalizedState) : StateArchive :=
  anchor.elim ∅ fun state => (∅ : StateArchive).insert state.slot state

/-! ## Deleted keys -/

theorem bucket_eq_iff {a b every : Nat} (hevery : 0 < every) :
    a - a % every = b - b % every ↔ a / every = b / every := by
  have ha := Nat.div_add_mod a every
  have hb := Nat.div_add_mod b every
  constructor
  · intro h
    have hmul : every * (a / every) = every * (b / every) := by omega
    exact Nat.eq_of_mul_eq_mul_left hevery hmul
  · intro h
    rw [h] at ha
    omega

theorem mem_epochsToDelete {every key : Nat} (hevery : 0 < every) {keys buckets : List Nat}
    (h : key ∈ epochsToDelete every keys buckets) :
    key ∈ keys ∧ (key - key % every ∈ buckets ∨
      ∃ earlier, [earlier, key].Sublist keys ∧ earlier / every = key / every) := by
  induction keys generalizing buckets with
  | nil => cases h
  | cons first keys ih =>
    unfold epochsToDelete at h
    dsimp only at h
    have hlater : key ∈ keys → ∀ earlier, [earlier, key].Sublist keys →
        [earlier, key].Sublist (first :: keys) := fun _ _ h => h.cons first
    split_ifs at h with hbucket
    · rcases List.mem_cons.mp h with rfl | h
      · exact ⟨List.mem_cons_self, .inl hbucket⟩
      · obtain ⟨hmem, hkey⟩ := ih h
        refine ⟨List.mem_cons_of_mem _ hmem, hkey.imp_right ?_⟩
        rintro ⟨earlier, hsub, hsame⟩
        exact ⟨earlier, hlater hmem earlier hsub, hsame⟩
    · obtain ⟨hmem, hkey⟩ := ih h
      refine ⟨List.mem_cons_of_mem _ hmem, ?_⟩
      rcases hkey with hkey | ⟨earlier, hsub, hsame⟩
      · rcases List.mem_cons.mp hkey with hkey | hkey
        · refine .inr ⟨first, ?_, ((bucket_eq_iff hevery).mp hkey).symm⟩
          exact (List.singleton_sublist.mpr hmem).cons_cons first
        · exact .inl hkey
      · exact .inr ⟨earlier, hlater hmem earlier hsub, hsame⟩

theorem exists_lt_of_mem_computeEpochsToDelete {every key : Nat} (hevery : 0 < every)
    {keys : List Nat} (hkeys : keys.Pairwise (· < ·)) (h : key ∈ computeEpochsToDelete keys every) :
    key ∈ keys ∧ ∃ earlier ∈ keys, earlier < key ∧ earlier / every = key / every := by
  obtain ⟨hmem, hkey⟩ := mem_epochsToDelete hevery h
  refine ⟨hmem, ?_⟩
  rcases hkey with hkey | ⟨earlier, hsub, hsame⟩
  · cases hkey
  · refine ⟨earlier, hsub.subset List.mem_cons_self, ?_, hsame⟩
    simpa using hkeys.sublist hsub

section

variable {stateArchive : StateArchive} {finalized : CheckpointWithHex} {slot : Nat}

variable (finalized) in
/-- What a call deletes: keys under the epoch, each after a smaller one of its bucket. -/
theorem mem_deleteStates (h : slot ∈ stateArchive) :
    slot ∈ deleteStates stateArchive finalized ∨
      slot < finalized.epoch ∧ ∃ earlier ∈ stateArchive, earlier < slot ∧
        earlier / PERSIST_STATE_EVERY_EPOCHS = slot / PERSIST_STATE_EVERY_EPOCHS := by
  unfold deleteStates
  dsimp only
  split_ifs with hlength
  · rw [KeyValues.mem_batchDelete]
    by_cases hdelete : slot ∈ computeEpochsToDelete (stateArchive.keys
        { lt := some finalized.epoch
          gte := some
            ((finalized.epoch / PERSIST_STATE_EVERY_EPOCHS - 1) * PERSIST_STATE_EVERY_EPOCHS) })
        PERSIST_STATE_EVERY_EPOCHS
    · right
      obtain ⟨hmem, earlier, hearlier, hlt, hsame⟩ := exists_lt_of_mem_computeEpochsToDelete
        (by decide) (KeyValues.pairwise_keys rfl rfl) hdelete
      have hcontains := ((KeyValues.mem_keys rfl rfl).mp hmem).2
      simp only [FilterOptions.contains, Bool.and_eq_true, decide_eq_true_eq] at hcontains
      exact ⟨hcontains.2, earlier, ((KeyValues.mem_keys rfl rfl).mp hearlier).1, hlt, hsame⟩
    · exact .inl ⟨h, hdelete⟩
  · exact .inl h

theorem mem_of_mem_deleteStates (h : slot ∈ deleteStates stateArchive finalized) :
    slot ∈ stateArchive := by
  unfold deleteStates at h
  dsimp only at h
  split_ifs at h
  · exact (KeyValues.mem_batchDelete.mp h).1
  · exact h

end

end Lodestar.Chain
