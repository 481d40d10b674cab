import Lodestar.StateTransition.EffectiveBalances
import Lodestar.StateTransition.ExitQueue

/-!
# Balances for the fork choice

`getEffectiveBalanceIncrementsZeroInactive` of `util/balance.ts`. The increments
are a `Uint8Array` that states share, so the arrays are in a heap here and a
state has an address.
-/

namespace Lodestar.StateTransition

section

variable {β : Type}

/-- The `Uint8Array`s by address; a new one goes to the end. -/
abbrev ByteArrays := List (List Nat)

/-- The loop, with `j` the position in the active indices and `address` that of the copy. -/
def zeroInactiveFrom (activeIndices : List Nat) (address : Nat) :
    Nat → Nat → Nat → ByteArrays → ByteArrays
  | 0, _, _, heap => heap
  | turns + 1, i, j, heap =>
    if activeIndices[j]? = some i then
      zeroInactiveFrom activeIndices address turns (i + 1) (j + 1) heap
    else
      zeroInactiveFrom activeIndices address turns (i + 1) j (heap.modify address (·.set i 0))

/-- `address` is that of the state's `effectiveBalanceIncrements`. The address of the result comes
with the heap. -/
def getEffectiveBalanceIncrementsZeroInactive (justifiedState : CachedBeaconState β)
    (address : Nat) (heap : ByteArrays) : Nat × ByteArrays :=
  let activeIndices := justifiedState.epochCtx.currentShuffling.activeIndices
  let validatorCount := justifiedState.validators.length
  -- `slice` copies
  let effectiveBalanceIncrementsZeroInactive := heap.length
  let heap := heap ++ [(heap.getD address []).take validatorCount]
  (effectiveBalanceIncrementsZeroInactive,
    zeroInactiveFrom activeIndices effectiveBalanceIncrementsZeroInactive validatorCount 0 0 heap)

/-! ## The walk -/

/-- The increments of the active indices; below `i` the others are zero. -/
def zeroedBelow (activeIndices : List Nat) (i : Nat) (increments : List Nat) : List Nat :=
  increments.mapIdx fun k increment =>
    if k < i ∧ k ∉ activeIndices then 0 else increment

theorem zeroedBelow_zero (activeIndices increments : List Nat) :
    zeroedBelow activeIndices 0 increments = increments := by
  refine List.ext_getElem? fun k => ?_
  rw [zeroedBelow, List.getElem?_mapIdx]
  simp

theorem getElem?_zeroedBelow (activeIndices increments : List Nat) (i k : Nat) :
    (zeroedBelow activeIndices i increments)[k]? = increments[k]?.map fun increment =>
      if k < i ∧ k ∉ activeIndices then 0 else increment :=
  List.getElem?_mapIdx

theorem zeroedBelow_succ_of_mem {activeIndices : List Nat} {i : Nat} (h : i ∈ activeIndices)
    (increments : List Nat) :
    zeroedBelow activeIndices (i + 1) increments = zeroedBelow activeIndices i increments := by
  refine List.ext_getElem? fun k => ?_
  rw [getElem?_zeroedBelow, getElem?_zeroedBelow]
  congr 1
  funext increment
  refine if_congr ⟨fun hk => ⟨?_, hk.2⟩, fun hk => ⟨by omega, hk.2⟩⟩ rfl rfl
  have hne : k ≠ i := fun heq => hk.2 (heq ▸ h)
  omega

theorem zeroedBelow_succ_of_notMem {activeIndices : List Nat} {i : Nat} (h : i ∉ activeIndices)
    (increments : List Nat) :
    zeroedBelow activeIndices (i + 1) increments
      = (zeroedBelow activeIndices i increments).set i 0 := by
  refine List.ext_getElem? fun k => ?_
  rw [getElem?_zeroedBelow, List.getElem?_set, getElem?_zeroedBelow]
  by_cases heq : i = k
  · subst heq
    rw [if_pos rfl]
    simp only [zeroedBelow, List.length_mapIdx, Nat.lt_succ_self, h, not_false_eq_true, and_true,
      if_true]
    by_cases hlt : i < increments.length
    · simp [hlt]
    · simp [hlt]
  · rw [if_neg heq]
    congr 1
    funext increment
    exact if_congr (and_congr_left fun _ => by omega) rfl rfl

/-- `j` is the first position whose index is not below `i`. -/
def PointsAt (activeIndices : List Nat) (i j : Nat) : Prop :=
  (∀ k ∈ activeIndices.take j, k < i) ∧ ∀ k ∈ activeIndices.drop j, i ≤ k

theorem PointsAt.mem_iff {activeIndices : List Nat} {i j : Nat} (h : PointsAt activeIndices i j)
    (hsorted : activeIndices.Pairwise (· < ·)) : i ∈ activeIndices ↔ activeIndices[j]? = some i := by
  constructor
  · intro hmem
    rw [← List.take_append_drop j activeIndices, List.mem_append] at hmem
    rcases hmem with hbefore | hafter
    · exact absurd (h.1 i hbefore) (Nat.lt_irrefl i)
    · -- it is the first of those that are left
      have hdrop := hsorted.sublist (List.drop_sublist j activeIndices)
      cases hrest : activeIndices.drop j with
      | nil =>
        rw [hrest] at hafter
        exact absurd hafter List.not_mem_nil
      | cons first later =>
        have hget : activeIndices[j]? = some first := by
          rw [← List.head?_drop, hrest, List.head?_cons]
        have hfirst : i ≤ first := h.2 first (hrest ▸ List.mem_cons_self)
        rw [hrest] at hafter hdrop
        rcases List.mem_cons.mp hafter with rfl | hlater
        · exact hget
        · have := List.rel_of_pairwise_cons hdrop hlater
          omega
  · exact List.mem_of_getElem?

theorem PointsAt.next {activeIndices : List Nat} {i j : Nat} (h : PointsAt activeIndices i j)
    (hsorted : activeIndices.Pairwise (· < ·)) :
    PointsAt activeIndices (i + 1) (if activeIndices[j]? = some i then j + 1 else j) := by
  by_cases hactive : activeIndices[j]? = some i
  · rw [if_pos hactive]
    have hrest : activeIndices.drop j = i :: activeIndices.drop (j + 1) := by
      obtain ⟨hlt, hget⟩ := List.getElem?_eq_some_iff.mp hactive
      rw [List.drop_eq_getElem_cons hlt, hget]
    constructor
    · intro k hk
      rw [List.take_add_one, hactive, Option.toList_some, List.mem_append, List.mem_singleton] at hk
      rcases hk with hk | rfl
      · exact Nat.lt_succ_of_lt (h.1 k hk)
      · exact Nat.lt_succ_self k
    · intro k hk
      have hdrop := hsorted.sublist (List.drop_sublist j activeIndices)
      rw [hrest] at hdrop
      exact List.rel_of_pairwise_cons hdrop hk
  · rw [if_neg hactive]
    refine ⟨fun k hk => Nat.lt_succ_of_lt (h.1 k hk), fun k hk => ?_⟩
    have hle := h.2 k hk
    have hne : k ≠ i := fun heq => hactive <| (h.mem_iff hsorted).mp <|
      heq ▸ List.mem_of_mem_drop hk
    omega

theorem modify_length_append (arrays : ByteArrays) (array : List Nat) (f : List Nat → List Nat) :
    (arrays ++ [array]).modify arrays.length f = arrays ++ [f array] := by
  induction arrays with
  | nil => rfl
  | cons first arrays ih => exact congrArg (first :: ·) ih

/-- From `i` on the walk zeroes the copy where an index is not active, and nothing else. -/
theorem zeroInactiveFrom_spec {activeIndices : List Nat} (hsorted : activeIndices.Pairwise (· < ·))
    (arrays : ByteArrays) (increments : List Nat) {turns i j : Nat}
    (hpoints : PointsAt activeIndices i j) :
    zeroInactiveFrom activeIndices arrays.length turns i j
        (arrays ++ [zeroedBelow activeIndices i increments])
      = arrays ++ [zeroedBelow activeIndices (i + turns) increments] := by
  induction turns generalizing i j with
  | zero => rfl
  | succ turns ih =>
    have hnext := hpoints.next hsorted
    have hturns : i + (turns + 1) = i + 1 + turns := by omega
    rw [zeroInactiveFrom, hturns]
    by_cases hactive : activeIndices[j]? = some i
    · rw [if_pos hactive] at hnext ⊢
      rw [← ih hnext, zeroedBelow_succ_of_mem ((hpoints.mem_iff hsorted).mpr hactive)]
    · rw [if_neg hactive] at hnext ⊢
      rw [← ih hnext, zeroedBelow_succ_of_notMem (mt (hpoints.mem_iff hsorted).mp hactive),
        modify_length_append]

variable [Preset] {state : CachedBeaconState β} {address : Nat} {heap : ByteArrays}

/-- The balances of the active validators, in an array of their own. -/
structure ZeroesInactive (state : CachedBeaconState β) (heap : ByteArrays) (result : Nat)
    (heap' : ByteArrays) : Prop where
  length : (heap'.getD result []).length = state.validators.length
  /-- By the cached increments. -/
  increment : ∀ i < state.validators.length, (heap'.getD result [])[i]? = some
    (if i ∈ state.epochCtx.currentShuffling.activeIndices then
      state.epochCtx.effectiveBalanceIncrements.getD i 0 else 0)
  /-- By the registry, when the cache has its effective balances. -/
  balance : IncrementsAgree state.validators state.epochCtx.effectiveBalanceIncrements →
    ∀ (i : Nat) (validator : Validator), state.validators[i]? = some validator →
      (heap'.getD result [])[i]? = some
        (if i ∈ state.epochCtx.currentShuffling.activeIndices then effectiveIncrements validator
          else 0)
  /-- No array that was there is written, the state's own among them. -/
  unchanged : ∀ a < heap.length, heap'[a]? = heap[a]?
  new : heap.length ≤ result

/-- The cached increments are no fewer than the validators. -/
theorem getEffectiveBalanceIncrementsZeroInactive_spec
    (hsorted : state.epochCtx.currentShuffling.activeIndices.Pairwise (· < ·))
    (haddress : heap[address]? = some state.epochCtx.effectiveBalanceIncrements)
    (hlength : state.validators.length ≤ state.epochCtx.effectiveBalanceIncrements.length) :
    ZeroesInactive state heap (getEffectiveBalanceIncrementsZeroInactive state address heap).1
      (getEffectiveBalanceIncrementsZeroInactive state address heap).2 := by
  obtain ⟨increments, hincrements⟩ : ∃ increments, increments =
      state.epochCtx.effectiveBalanceIncrements.take state.validators.length := ⟨_, rfl⟩
  obtain ⟨activeIndices, hactive⟩ : ∃ activeIndices, activeIndices =
      state.epochCtx.currentShuffling.activeIndices := ⟨_, rfl⟩
  have hheap : (getEffectiveBalanceIncrementsZeroInactive state address heap).2
      = heap ++ [zeroedBelow activeIndices state.validators.length increments] := by
    have hstart : PointsAt activeIndices 0 0 := ⟨by simp, fun k _ => Nat.zero_le k⟩
    have hspec := @zeroInactiveFrom_spec activeIndices (hactive ▸ hsorted) heap increments
      state.validators.length 0 0 hstart
    rw [zeroedBelow_zero, Nat.zero_add] at hspec
    rw [← hspec, getEffectiveBalanceIncrementsZeroInactive, List.getD_eq_getElem?_getD, haddress,
      Option.getD_some, hactive, hincrements]
  have hresult : (heap ++ [zeroedBelow activeIndices state.validators.length increments]).getD
      heap.length [] = zeroedBelow activeIndices state.validators.length increments := by
    simp
  have hget : ∀ i < state.validators.length,
      (zeroedBelow activeIndices state.validators.length increments)[i]? = some
        (if i ∈ activeIndices then state.epochCtx.effectiveBalanceIncrements.getD i 0 else 0) := by
    intro i hi
    have hsome : increments[i]? = some (state.epochCtx.effectiveBalanceIncrements.getD i 0) := by
      rw [hincrements, List.getElem?_take, if_pos hi, List.getD_eq_getElem?_getD,
        List.getElem?_eq_getElem (by omega), Option.getD_some]
    rw [getElem?_zeroedBelow, hsome, Option.map_some]
    by_cases hmem : i ∈ activeIndices
    · rw [if_neg fun h => h.2 hmem, if_pos hmem]
    · rw [if_pos ⟨hi, hmem⟩, if_neg hmem]
  rw [hheap]
  show ZeroesInactive state heap heap.length _
  refine ⟨?_, ?_, ?_, fun a ha => List.getElem?_append_left ha, Nat.le_refl _⟩
  · rw [hresult, zeroedBelow, List.length_mapIdx, hincrements, List.length_take]
    omega
  · rw [hresult, ← hactive]
    exact hget
  · intro hagree i validator hvalidator
    rw [hresult, ← hactive, hget i (List.getElem?_eq_some_iff.mp hvalidator).1,
      List.getD_eq_getElem?_getD, hagree i validator hvalidator, Option.getD_some]

end

local instance gapsPreset : Preset := minimal

/-- Validators 1 and 3 of five are active. -/
def gapsState : CachedBeaconState (List Nat) :=
  { fullQueueState with
    validators := List.replicate 5 (fullValidator 0 FAR_FUTURE_EPOCH)
    epochCtx :=
      { fullQueueState.epochCtx with
        currentShuffling := ⟨10, [1, 3]⟩
        effectiveBalanceIncrements := [32, 32, 32, 32, 32, 0, 0, 0] } }

theorem getEffectiveBalanceIncrementsZeroInactive_gapsState :
    getEffectiveBalanceIncrementsZeroInactive gapsState 1 [[], [32, 32, 32, 32, 32, 0, 0, 0]]
        = (2, [[], [32, 32, 32, 32, 32, 0, 0, 0], [0, 32, 0, 32, 0]]) ∧
      ZeroesInactive gapsState [[], [32, 32, 32, 32, 32, 0, 0, 0]]
        (getEffectiveBalanceIncrementsZeroInactive gapsState 1
          [[], [32, 32, 32, 32, 32, 0, 0, 0]]).1
        (getEffectiveBalanceIncrementsZeroInactive gapsState 1
          [[], [32, 32, 32, 32, 32, 0, 0, 0]]).2 :=
  ⟨by decide, getEffectiveBalanceIncrementsZeroInactive_spec (by decide) rfl (by decide)⟩

end Lodestar.StateTransition
