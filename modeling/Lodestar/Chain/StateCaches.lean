import Lodestar.Base.Except
import Lodestar.Base.OrderedMap
import Lodestar.ForkChoice.Store
import Lodestar.StateTransition.Util

/-!
# Caches of states

`CheckpointStateCache` of `chain/stateCache/stateContextCheckpointsCache.ts`,
`StateContextCache` of `stateContextCache.ts`, and what the regenerator uses of
the state transition, whose states are kept abstract.
-/

namespace Lodestar.Chain

open Lodestar.Base Lodestar.ForkChoice Lodestar.StateTransition

/-! ## States -/

/-- What is used of a state and of the state transition. -/
class StateTransitionFns (State : Type) where
  slot : State → Nat
  hashTreeRoot : State → Root
  /-- `BeaconBlockHeader.hashTreeRoot` of `latestBlockHeader`, with the state root filled in. -/
  latestBlockRoot : State → Root
  /-- One turn of the loop of `processSlots`, with epoch transition and fork upgrade. -/
  processSlot : State → Except String State
  /-- `postState.slot++`. -/
  slot_processSlot : ∀ {state postState : State}, processSlot state = .ok postState →
    slot postState = slot state + 1
  /-- A signed block of the database. -/
  Block : Type
  blockSlot : Block → Nat
  /-- `processBlock` without verifications, once the slots are processed. -/
  processBlock : State → Block → Except String State

section

variable {State : Type} [fns : StateTransitionFns State]

/-- As many slots as given. -/
def advance : Nat → State → Except String State
  | 0, state => .ok state
  | slots + 1, state => do advance slots (← fns.processSlot state)

def processSlots (state : State) (slot : Nat) : Except String State :=
  if fns.slot state > slot then .error "Too old slot"
  else advance (slot - fns.slot state) state

/-- `stateTransition` with all verifications off. -/
def stateTransition (state : State) (block : fns.Block) : Except String State := do
  fns.processBlock (← processSlots state (fns.blockSlot block)) block

end

/-! ## The cache of checkpoint states -/

/-- The states by block root and epoch, and the roots of each epoch. -/
structure CheckpointStateCache (State : Type) where
  cache : OrderedMap (RootHex × Nat) State
  epochIndex : OrderedMap Nat (List RootHex)

namespace CheckpointStateCache

variable {State : Type} (this : CheckpointStateCache State)

def get (rootHex : RootHex) (epoch : Nat) : Option State := this.cache.get (rootHex, epoch)

def add (cp : CheckpointWithHex) (item : State) : CheckpointStateCache State :=
  if this.cache.has (cp.rootHex, cp.epoch) then this
  else
    { cache := this.cache.set (cp.rootHex, cp.epoch) item
      epochIndex :=
        this.epochIndex.set cp.epoch (((this.epochIndex.get cp.epoch).getD []).insert cp.rootHex) }

/-- The latest cached state with a root, from `maxEpoch` down. -/
def getLatest (rootHex : RootHex) (maxEpoch : Int) : Option State :=
  let epochs := (this.epochIndex.keys.insertionSort (· ≥ ·)).filter fun epoch : Nat =>
    (epoch : Int) ≤ maxEpoch
  let found := epochs.find? fun epoch =>
    ((this.epochIndex.get epoch).getD []).contains rootHex
  found.bind (this.get rootHex)

variable {this}

theorem get_of_getLatest {rootHex : RootHex} {maxEpoch : Int} {state : State}
    (h : this.getLatest rootHex maxEpoch = some state) :
    ∃ epoch : Nat, (epoch : Int) ≤ maxEpoch ∧ this.get rootHex epoch = some state := by
  obtain ⟨epoch, hfound, hget⟩ := Option.bind_eq_some_iff.mp h
  have hmem := (List.mem_filter.mp (List.mem_of_find?_eq_some hfound)).2
  exact ⟨epoch, of_decide_eq_true hmem, hget⟩

theorem get_add {cp : CheckpointWithHex} {item state : State} {rootHex : RootHex} {epoch : Nat}
    (h : (this.add cp item).get rootHex epoch = some state) :
    (rootHex = cp.rootHex ∧ epoch = cp.epoch ∧ state = item) ∨
      this.get rootHex epoch = some state := by
  unfold add at h
  split_ifs at h
  · exact .inr h
  · unfold get at h
    dsimp only at h
    rw [OrderedMap.get_set] at h
    split_ifs at h with hkey
    · obtain ⟨hroot, hepoch⟩ := Prod.mk.inj hkey
      exact .inl ⟨hroot, hepoch, (Option.some.inj h).symm⟩
    · exact .inr h

end CheckpointStateCache

/-! ## The cache of states -/

/-- The states by their roots, of which `prune` leaves `maxStates`. -/
structure StateContextCache (State : Type) [fns : StateTransitionFns State] where
  maxStates : Nat
  cache : OrderedMap RootHex State
  keyed : ∀ entry ∈ cache.entries, entry.1 = fns.hashTreeRoot entry.2

namespace StateContextCache

variable {State : Type} [fns : StateTransitionFns State] (this : StateContextCache State)

def get (rootHex : RootHex) : Option State := this.cache.get rootHex

def add (item : State) : StateContextCache State :=
  if this.cache.has (fns.hashTreeRoot item) then this
  else
    { this with
      cache := this.cache.set (fns.hashTreeRoot item) item
      keyed := by
        intro entry hentry
        rcases OrderedMap.mem_entries_set hentry with rfl | hentry
        · rfl
        · exact this.keyed entry hentry }

/-- The states that make room: those that came first, but not that of the head. -/
def pruned (headStateRootHex : RootHex) : List RootHex :=
  (this.cache.keys.take (this.cache.size - this.maxStates)).filter (· ≠ headStateRootHex)

def prune (headStateRootHex : RootHex) : StateContextCache State where
  maxStates := this.maxStates
  cache := (this.pruned headStateRootHex).foldl (·.delete ·) this.cache
  keyed := by
    rintro ⟨rootHex, state⟩ hentry
    have hget := OrderedMap.get_of_get_foldl_delete (OrderedMap.get_eq_some_iff.mpr hentry)
    exact this.keyed _ (OrderedMap.get_eq_some_iff.mp hget)

variable {this} {item state : State} {rootHex headStateRootHex : RootHex}

theorem hashTreeRoot_of_get (h : this.get rootHex = some state) :
    fns.hashTreeRoot state = rootHex :=
  (this.keyed _ (OrderedMap.get_eq_some_iff.mp h)).symm

theorem isSome_get_add : ((this.add item).get (fns.hashTreeRoot item)).isSome := by
  rw [add]
  split_ifs with hhas
  · exact hhas
  · exact Option.isSome_iff_exists.mpr ⟨item, OrderedMap.get_set_self⟩

theorem get_prune : (this.prune headStateRootHex).get rootHex
    = if rootHex ∈ this.pruned headStateRootHex then none else this.get rootHex := by
  split_ifs with hmem
  · exact OrderedMap.get_foldl_delete_of_mem hmem
  · exact OrderedMap.get_foldl_delete_of_notMem hmem

end StateContextCache

/-! ## Empty slots -/

section

variable {State : Type} [fns : StateTransitionFns State] {state middle postState : State}
  {slot slot' : Nat}

theorem slot_advance {slots : Nat} (h : advance slots state = .ok postState) :
    fns.slot postState = fns.slot state + slots := by
  induction slots generalizing state with
  | zero =>
    cases h
    rfl
  | succ slots ih =>
    obtain ⟨next, hnext, h⟩ := eq_ok_of_bind (f := advance slots) h
    have hslot := fns.slot_processSlot hnext
    have := ih h
    omega

theorem advance_add {slots slots' : Nat} (h : advance slots state = .ok middle) :
    advance (slots + slots') state = advance slots' middle := by
  induction slots generalizing state with
  | zero =>
    cases h
    rw [Nat.zero_add]
  | succ slots ih =>
    rw [Nat.add_right_comm]
    obtain ⟨next, hnext, h⟩ := eq_ok_of_bind (f := advance slots) h
    show (fns.processSlot state >>= advance (slots + slots')) = _
    rw [hnext]
    exact ih h

theorem processSlots_eq_ok_iff : processSlots state slot = .ok postState ↔
    fns.slot state ≤ slot ∧ advance (slot - fns.slot state) state = .ok postState := by
  unfold processSlots
  split_ifs with hslot
  · exact iff_of_false (by rintro ⟨⟩) fun h => absurd h.1 (by omega)
  · exact ⟨fun h => ⟨by omega, h⟩, fun h => h.2⟩

theorem slot_processSlots (h : processSlots state slot = .ok postState) :
    fns.slot state ≤ slot ∧ fns.slot postState = slot := by
  obtain ⟨hle, hadvance⟩ := processSlots_eq_ok_iff.mp h
  have := slot_advance hadvance
  omega

theorem processSlots_self : processSlots state (fns.slot state) = .ok state := by
  rw [processSlots_eq_ok_iff, Nat.sub_self]
  exact ⟨le_refl _, rfl⟩

theorem processSlots_trans (h : processSlots state slot = .ok middle)
    (h' : processSlots middle slot' = .ok postState) :
    processSlots state slot' = .ok postState := by
  obtain ⟨hle, hadvance⟩ := processSlots_eq_ok_iff.mp h
  obtain ⟨hle', hadvance'⟩ := processSlots_eq_ok_iff.mp h'
  have hslot := slot_advance hadvance
  rw [processSlots_eq_ok_iff]
  refine ⟨by omega, ?_⟩
  rw [show slot' - fns.slot state = (slot - fns.slot state) + (slot' - fns.slot middle) by omega,
    advance_add hadvance]
  exact hadvance'

end

end Lodestar.Chain
